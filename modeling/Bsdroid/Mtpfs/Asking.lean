import Bsdroid.Mtpfs.Frame
import Bsdroid.Mtpfs.Operation

/-!
# Questions to the device

A listing, a read and a question about the storage are made of operations that
only read, of the bytes read in advance, and of the mark that the fast listing
failed.  A relation that respects those (`Mtp.Asks`) respects all three.
-/

namespace Bsdroid

namespace Mtp

variable {σ : Type} [Link σ]

/-- A relation between two states of a mount that no question breaks. -/
structure Asks (R : Mtp σ → Mtp σ → Prop) : Prop extends Fs.Chains R where
  operation : ∀ step params, ∀ code ∈ readsOnly, Proc.Steps R (operation step code params)
  slow : ∀ m : Mtp σ, R m { m with fastList := false }

/-- A relation that no read breaks either. -/
structure Reads (R : Mtp σ → Mtp σ → Prop) : Prop extends Asks R where
  partialRead : ∀ (m : Mtp σ) step params, R m (Mtp.operation step m.partialRead params m).2
  cache : ∀ (m : Mtp σ) c, R m { m with cache := c }

namespace Asks

variable {R : Mtp σ → Mtp σ → Prop} (h : Asks R)
include h

/-- The fast listing is one question for each property code. -/
theorem propEntries (arg : UInt32) (codes : List UInt16) :
    Proc.Steps R (propEntries arg codes : Proc Error (Mtp σ) _) := by
  induction codes with
  | nil => exact .pure h.refl _
  | cons code codes ih =>
      refine .bind (R := R) h.trans (h.operation _ _ _ (by decide)) fun data => ?_
      refine .bind (R := R) h.trans (.mapError (.ofExcept h.refl _)) fun entries => ?_
      exact .bind (R := R) h.trans ih fun more => .pure h.refl _

/-- The slow listing asks for the dataset of one object after the other, and leaves out those that
do not parse. -/
theorem infoEntries (parent : UInt32) (hs : List UInt32) :
    Proc.Steps R (infoEntries parent hs : Proc Error (Mtp σ) _) := by
  induction hs with
  | nil => exact .pure h.refl _
  | cons handle hs ih =>
      refine .bind (R := R) h.trans (h.operation _ _ _ (by decide)) fun raw => ?_
      refine .bind (R := R) h.trans ih fun more => ?_
      split
      · exact .pure h.refl _
      · exact .pure h.refl _

/-- The answers of the fast listing are folded on the host. -/
theorem listByProperties (parent : UInt32) :
    Proc.Steps R (listByProperties parent : Proc Error (Mtp σ) _) :=
  .bind (R := R) h.trans (h.propEntries _ _) fun _ => .ofExcept h.refl _

/-- The handles of a folder, and then each of its objects. -/
theorem listOneAtATime (parent : UInt32) :
    Proc.Steps R (listOneAtATime parent : Proc Error (Mtp σ) _) := by
  refine .bind (R := R) h.trans (.get h.refl) fun m => ?_
  exact .bind (R := R) h.trans (h.operation _ _ _ (by decide)) fun data => h.infoEntries _ _

/-- A listing, in whichever way the mount gets it. -/
theorem list (parent : UInt32) : Proc.Steps R (list parent : Proc Error (Mtp σ) _) := by
  refine .bind (R := R) h.trans (.get h.refl) fun m => ?_
  split
  · refine .bind (R := R) h.trans (.attempt (h.listByProperties parent)) fun answer => ?_
    split
    · exact .pure h.refl _
    · exact .bind (R := R) h.trans (.modify h.slow) fun _ => h.listOneAtATime parent
  · exact h.listOneAtATime parent

end Asks

namespace Reads

variable {R : Mtp σ → Mtp σ → Prop} (h : Reads R)
include h

/-- A range of an object is one question, with the operation the mount chose at its start. -/
theorem partialReadAt (handle : UInt32) (offset want : Nat) :
    Proc.Steps R (partialReadAt handle offset want : Proc Error (Mtp σ) Bytes) := by
  intro m
  rw [Mtp.partialReadAt, Proc.bind_ok (Proc.get_run m)]
  exact h.partialRead m _ _

/-- A range is one question, or two when the last byte has to wait for a second one. -/
theorem readFromDevice (handle : UInt32) (offset want fileSize : Nat) :
    Proc.Steps R (readFromDevice handle offset want fileSize : Proc Error (Mtp σ) Bytes) := by
  refine .bind (R := R) h.trans (.get h.refl) fun m => ?_
  dsimp only
  refine .bind (R := R) h.trans (h.partialReadAt _ _ _) fun data => ?_
  split
  · refine .bind (R := R) h.trans (.ofExcept h.refl _) fun last => ?_
    exact .bind (R := R) h.trans (h.partialReadAt _ _ _) fun tail => .pure h.refl _
  · exact .pure h.refl _

/-- A look at the bytes read in advance asks the device for nothing. -/
theorem cached (handle : UInt32) (offset want : Nat) :
    Proc.Steps R (cached handle offset want : Proc Error (Mtp σ) _) := by
  refine .bind (R := R) h.trans (.get h.refl) fun m => ?_
  split
  · exact .pure h.refl _
  · exact .ofExcept h.refl _

/-- A read goes on, from the cache and from the device, until it has its bytes or the device gives
none. The induction is on the rounds that are left. -/
theorem fillFrom (handle : UInt32) (offset want fileSize rounds : Nat) (out : Bytes) :
    Proc.Steps R (fillFrom handle offset want fileSize rounds out :
      Proc Error (Mtp σ) Bytes) := by
  induction rounds generalizing out with
  | zero => exact .pure h.refl _
  | succ rounds ih =>
      unfold Mtp.fillFrom
      split
      · refine .bind (R := R) h.trans (.ofExcept h.refl _) fun pos => ?_
        refine .bind (R := R) h.trans (.ofExcept h.refl _) fun need => ?_
        refine .bind (R := R) h.trans (h.cached _ _ _) fun bytes => ?_
        split
        · exact ih _
        · refine .bind (R := R) h.trans (.ofExcept h.refl _) fun left => ?_
          refine .bind (R := R) h.trans (h.readFromDevice _ _ _ _) fun data => ?_
          split
          · exact .pure h.refl _
          · exact .bind (R := R) h.trans (.modify fun m => h.cache m _) fun _ => ih _
      · exact .pure h.refl _

/-- A read, from the cache and from the device. -/
theorem readAt (handle : UInt32) (offset want fileSize : Nat) :
    Proc.Steps R (readAt handle offset want fileSize : Proc Error (Mtp σ) Bytes) := by
  unfold Mtp.readAt
  split
  · exact .pure h.refl _
  · exact .bind (R := R) h.trans (.ofExcept h.refl _) fun left => h.fillFrom _ _ _ _ _ _

end Reads

/-! ## Requests of a kind -/

/-- A relation that every request with a property respects, and so does a change of the
bytes read in advance. -/
structure Takes (Q : Request → Prop) (R : Mtp σ → Mtp σ → Prop) : Prop extends Fs.Chains R where
  exec : ∀ r, Q r → Proc.Steps R (exec r)
  cache : ∀ (m : Mtp σ) c, R m { m with cache := c }

namespace Takes

variable {Q : Request → Prop} {R : Mtp σ → Mtp σ → Prop} (h : Takes Q R)
include h

/-- The check of an answer asks for nothing. -/
theorem checked (step : String) (out : Outcome) :
    Proc.Steps R (checked step out : Proc Error (Mtp σ) Outcome) := by
  unfold Mtp.checked
  split
  · exact .pure h.refl _
  · exact .fail h.refl _

/-- Whatever changes the device forgets the bytes read in advance. -/
theorem dropCache : Proc.Steps R (dropCache : Proc Error (Mtp σ) Unit) := fun m => h.cache m none

section

variable {step : String} {code : UInt16} {params : List UInt32}

/-- An operation is its request and the check of the answer. -/
theorem operation (hr : Q ⟨step, code, params, none⟩) :
    Proc.Steps R (operation step code params : Proc Error (Mtp σ) Bytes) := by
  refine .bind (R := R) h.trans (h.exec _ hr) fun out => ?_
  exact .bind (R := R) h.trans (h.checked step out) fun out => .pure h.refl _

/-- An operation that changes the device forgets the cache before it looks at the answer. -/
theorem operationThatChanges (hr : Q ⟨step, code, params, none⟩) :
    Proc.Steps R (operationThatChanges step code params : Proc Error (Mtp σ) _) := by
  refine .bind (R := R) h.trans (h.exec _ hr) fun out => ?_
  refine .bind (R := R) h.trans h.dropCache fun _ => ?_
  exact .bind (R := R) h.trans (h.checked step out) fun out => .pure h.refl _

/-- An operation with a payload is one request too, and the payload is part of it. -/
theorem sendingData {payload : Bytes}
    (hr : Q ⟨step, code, params, some (payload.length, [.bytes payload])⟩) :
    Proc.Steps R (sendingData step code params payload : Proc Error (Mtp σ) _) := by
  refine .bind (R := R) h.trans (h.exec _ hr) fun out => ?_
  refine .bind (R := R) h.trans h.dropCache fun _ => ?_
  exact .bind (R := R) h.trans (h.checked step out) fun out => .pure h.refl _

end

/-- A relation that the questions respect. -/
theorem asks (hr : ∀ step params, ∀ code ∈ readsOnly, Q ⟨step, code, params, none⟩)
    (hslow : ∀ m : Mtp σ, R m { m with fastList := false }) : Asks R where
  toChains := h.toChains
  operation step params code hcode := h.operation (hr step params code hcode)
  slow := hslow

/-- A relation that the requests without a payload respect. -/
theorem reads (hr : ∀ step code params, Q ⟨step, code, params, none⟩)
    (hslow : ∀ m : Mtp σ, R m { m with fastList := false }) : Reads R where
  toChains := h.toChains
  operation _ _ _ _ := h.operation (hr _ _ _)
  slow := hslow
  partialRead m _ _ := h.operation (hr _ _ _) m
  cache := h.cache

/-- A question about the storage of the mount. -/
theorem storageInfo (hr : ∀ step params, Q ⟨step, Op.getStorageInfo, params, none⟩) :
    Proc.Steps R (storageInfo : Proc Error (Mtp σ) (Nat × Nat)) := by
  refine .bind (R := R) h.trans (.get h.refl) fun m => ?_
  refine .bind (R := R) h.trans (h.operation (hr _ _)) fun data => ?_
  exact .bind (R := R) h.trans (.mapError (.ofExcept h.refl _)) fun info => .pure h.refl _

/-- A new name travels as the payload of one request. -/
theorem renameObject (hr : ∀ step params payload, Q ⟨step, Op.setObjectPropValue, params, payload⟩)
    (handle : UInt32) (name : Str) :
    Proc.Steps R (renameObject handle name : Proc Error (Mtp σ) Unit) :=
  .bind (R := R) h.trans (h.sendingData (hr _ _ _)) fun _ => .pure h.refl _

/-- A removal is one request. -/
theorem deleteObject (hr : ∀ step params, Q ⟨step, Op.deleteObject, params, none⟩)
    (handle : UInt32) : Proc.Steps R (deleteObject handle : Proc Error (Mtp σ) Unit) :=
  .bind (R := R) h.trans (h.operationThatChanges (hr _ _)) fun _ => .pure h.refl _

/-- A move names the object, the storage of the mount and the new folder. -/
theorem moveObject (hr : ∀ step params, Q ⟨step, Op.moveObject, params, none⟩)
    (handle p : UInt32) : Proc.Steps R (moveObject handle p : Proc Error (Mtp σ) Unit) := by
  refine .bind (R := R) h.trans (.get h.refl) fun m => ?_
  exact .bind (R := R) h.trans (h.operationThatChanges (hr _ _)) fun _ => .pure h.refl _

/-- An announcement issues the dataset, for the storage of the mount. -/
theorem announceObject {info : Bytes} {arg : UInt32} {m : Mtp σ}
    (hr : Q ⟨"SendObjectInfo", Op.sendObjectInfo, [m.storage, arg],
      some (info.length, [.bytes info])⟩) :
    R m ((announceObject info arg : Proc Error (Mtp σ) UInt32) m).2 := by
  rw [Mtp.announceObject, Proc.bind_ok (Proc.get_run _)]
  refine Proc.Steps.bind (R := R) h.trans (h.sendingData hr) (fun params => ?_) m
  split
  · exact .pure h.refl _
  · exact .fail h.refl _

/-- A program that starts with an announcement. -/
theorem announces {info : Bytes} {arg : UInt32} {m : Mtp σ} {α : Type}
    {f : UInt32 → Proc Error (Mtp σ) α}
    (hr : Q ⟨"SendObjectInfo", Op.sendObjectInfo, [m.storage, arg],
      some (info.length, [.bytes info])⟩) (hf : ∀ handle, Proc.Steps R (f handle)) :
    R m ((Mtp.announceObject info arg >>= f) m).2 := by
  have hannounce := h.announceObject hr
  rw [Proc.bind_run]
  rcases hrun : Mtp.announceObject info arg m with ⟨e | handle, m'⟩
  · rw [hrun] at hannounce
    exact hannounce
  · rw [hrun] at hannounce
    exact h.trans hannounce (hf handle m')

/-- A send of a file announces it, and carries its bytes. -/
theorem sendObjectStream {parent : UInt32} {name : Str} {size : Nat} {reader : List ReadAnswer}
    (hinfo : ∀ storage, size ≤ maxPayloadLen →
      Q ⟨"SendObjectInfo", Op.sendObjectInfo, [storage, parentArg parent],
        some ((ObjectInfo.buildForSend storage parent name (UInt32.ofNat size) false).length,
          [.bytes (ObjectInfo.buildForSend storage parent name (UInt32.ofNat size) false)])⟩)
    (hstream : Q ⟨"SendObject", Op.sendObject, [], some (size, reader)⟩) :
    Proc.Steps R (sendObjectStream parent name reader size : Proc Error (Mtp σ) UInt32) := by
  unfold Mtp.sendObjectStream
  by_cases hbig : size > maxPayloadLen
  · rw [if_pos hbig]
    exact .fail h.refl _
  rw [if_neg hbig]
  intro m
  rw [Proc.bind_ok (Proc.get_run _)]
  refine h.announces (hinfo m.storage (Nat.le_of_not_lt hbig)) fun handle => ?_
  refine .bind (R := R) h.trans (h.exec _ hstream) fun out => ?_
  refine .bind (R := R) h.trans h.dropCache fun _ => ?_
  exact .bind (R := R) h.trans (h.checked _ out) fun _ => .pure h.refl _

/-- A payload in memory is announced, and sent when it is a file's. A folder is done with its
announcement. -/
theorem sendObject (hr : ∀ step code params payload, Q ⟨step, code, params, payload⟩)
    (parent : UInt32) (name : Str) (data : Bytes) (isFolder : Bool) :
    Proc.Steps R (sendObject parent name data isFolder : Proc Error (Mtp σ) UInt32) := by
  unfold Mtp.sendObject
  by_cases hbig : data.length > maxPayloadLen
  · rw [if_pos hbig]
    exact .fail h.refl _
  rw [if_neg hbig]
  intro m
  rw [Proc.bind_ok (Proc.get_run _)]
  refine h.announces (hr _ _ _ _) fun handle => ?_
  split
  · exact .pure h.refl _
  · exact .bind (R := R) h.trans (h.sendingData (hr _ _ _ _)) fun _ => .pure h.refl _

end Takes

end Mtp

end Bsdroid
