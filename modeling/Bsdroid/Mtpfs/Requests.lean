import Bsdroid.Mtpfs.Asking
import Bsdroid.Mtpfs.Calls

/-!
# What a callback asks of the device

`Logged` is a link that keeps the requests it carried, as a cellphone does.
`Mtp.Issues Q` says that the requests between two states all have a property, and
the lemmas below say it of each operation of a session.

A send announces the size of its entry, in the folder and under the name of the
entry, and streams the bytes of the spool file (`Fs.sendPending_issues`).
-/

namespace Bsdroid

/-- A link that keeps the requests it carried. -/
class Logged (σ : Type) extends Link σ where
  log : σ → List Request
  exec_log : ∀ r s, log (exec r s).2 = log s ++ [r]

namespace Phone

/-- The answer to one operation notes nothing. -/
theorem serve_notes (p : Phone) (code : UInt16) (params : List UInt32) (payload : Bytes) :
    (p.serve code params payload).2.log = p.log ∧
      (p.serve code params payload).2.trace = p.trace := by
  have hif : ∀ {c : Prop} [Decidable c] {a b : Outcome × Phone},
      (a.2.log = p.log ∧ a.2.trace = p.trace) → (b.2.log = p.log ∧ b.2.trace = p.trace) →
        (if c then a else b).2.log = p.log ∧ (if c then a else b).2.trace = p.trace := by
    intro c _ a b ha hb
    split
    · exact ha
    · exact hb
  have hsame : p.log = p.log ∧ p.trace = p.trace := ⟨rfl, rfl⟩
  unfold serve
  refine hif hsame (hif hsame (hif hsame (hif ?_ (hif ?_ (hif hsame (hif ?_ (hif ?_ (hif ?_
    (hif ?_ (hif ?_ hsame))))))))))
  · split <;> exact hsame
  · split <;> exact hsame
  · unfold deleteObject
    repeat' split
    all_goals exact hsame
  · unfold moveObject
    repeat' split
    all_goals exact hsame
  · unfold setObjectName
    repeat' split
    all_goals exact hsame
  · unfold sendObjectInfo
    split
    · split
      · exact hsame
      · dsimp only
        split
        · exact hsame
        · refine hif hsame ?_
          split <;> exact hsame
    · exact hsame
  · unfold sendObject
    repeat' split
    all_goals exact hsame

theorem perform_notes (p : Phone) (r : Request) :
    (p.perform r).2.log = p.log ∧ (p.perform r).2.trace = p.trace := by
  unfold perform
  split
  · exact ⟨rfl, rfl⟩
  · exact serve_notes p _ _ _

theorem exec_log (r : Request) (p : Phone) : (exec r p).2.log = p.log ++ [r] := by
  have hperform := (p.perform_notes r).1
  unfold exec
  split
  · exact congrArg (· ++ [r]) hperform
  · rfl
  · rfl
  · exact congrArg (· ++ [r]) hperform

/-- The store after an operation is the last one noted. -/
theorem exec_trace (r : Request) (p : Phone) :
    (exec r p).2.trace = p.trace ++ [(exec r p).2.store] := by
  have hperform := (p.perform_notes r).2
  unfold exec
  split
  · exact congrArg (· ++ [(p.perform r).2.store]) hperform
  · rfl
  · rfl
  · exact congrArg (· ++ [(p.perform r).2.store]) hperform

end Phone

instance : Logged Phone where
  log := Phone.log
  exec_log := Phone.exec_log

namespace Mtp

variable {σ : Type} [Logged σ] {Q : Request → Prop}

/-- The requests between two states all have a property. -/
def Issues (Q : Request → Prop) (m m' : Mtp σ) : Prop :=
  ∃ new, Logged.log m'.session = Logged.log m.session ++ new ∧ ∀ r ∈ new, Q r

theorem Issues.of_same {m m' : Mtp σ} (h : m'.session = m.session) : Issues Q m m' :=
  ⟨[], by rw [h, List.append_nil], fun _ hr => nomatch hr⟩

theorem chains_issues (Q : Request → Prop) :
    Fs.Chains (Issues Q : Mtp σ → Mtp σ → Prop) where
  refl m := .of_same rfl
  trans := by
    rintro a b c ⟨new, hnew, hall⟩ ⟨more, hmore, hrest⟩
    refine ⟨new ++ more, by rw [hmore, hnew, List.append_assoc], fun r hr => ?_⟩
    rcases List.mem_append.mp hr with hr | hr
    · exact hall r hr
    · exact hrest r hr

theorem takes_issues (Q : Request → Prop) :
    Takes Q (Issues Q : Mtp σ → Mtp σ → Prop) where
  toChains := chains_issues Q
  exec r hr m := ⟨[r], Logged.exec_log r m.session, fun r' hr' => by
    rw [List.mem_singleton.mp hr']; exact hr⟩
  cache _ _ := .of_same rfl

end Mtp

/-! ## The requests that announce nothing -/

/-- A `SendObjectInfo` request, with the dataset it announces an object by. -/
def Request.Announces (r : Request) : Prop := r.code = Op.sendObjectInfo ∧ r.payload ≠ none

/-- A request that announces no object. -/
def Request.Quiet (r : Request) : Prop := ¬ r.Announces

theorem Op.setObjectPropValue_ne_sendObjectInfo :
    Op.setObjectPropValue ≠ Op.sendObjectInfo := by decide

theorem Request.quiet_of_none {step : String} {code : UInt16} {params : List UInt32} :
    Quiet ⟨step, code, params, none⟩ := fun h => h.2 rfl

/-! ## The requests that carry a file -/

/-- The dataset that announces a file. -/
def fileInfo (storage parent : UInt32) (name : Str) (size : Nat) : Bytes :=
  ObjectInfo.buildForSend storage parent name (UInt32.ofNat size) false

/-- A request that announces a file announces this one, and a request that carries
the bytes of a file carries these. -/
structure OfFile (parent : UInt32) (name : Str) (size : Nat) (reader : List ReadAnswer)
    (r : Request) : Prop where
  announces : r.code = Op.sendObjectInfo → size ≤ maxPayloadLen ∧ ∃ storage,
    r.params = [storage, Mtp.parentArg parent] ∧
    r.payload = some ((fileInfo storage parent name size).length,
      [.bytes (fileInfo storage parent name size)])
  streams : r.code = Op.sendObject → r.payload = some (size, reader)

theorem OfFile.of_other {parent : UInt32} {name : Str} {size : Nat} {reader : List ReadAnswer}
    {step : String} {code : UInt16} {params : List UInt32}
    {payload : Option (Nat × List ReadAnswer)} (hinfo : code ≠ Op.sendObjectInfo)
    (hobject : code ≠ Op.sendObject) :
    OfFile parent name size reader ⟨step, code, params, payload⟩ :=
  ⟨fun h => absurd h hinfo, fun h => absurd h hobject⟩

namespace Mtp

variable {σ : Type} [Logged σ] {parent : UInt32} {name : Str} {size : Nat}
  {reader : List ReadAnswer}

theorem Op.sendObject_ne_sendObjectInfo : Op.sendObject ≠ Op.sendObjectInfo := by decide

/-- **A send of a file** announces it and carries its bytes. -/
theorem sendObjectStream_issues :
    Proc.Steps (Issues (OfFile parent name size reader))
      (sendObjectStream parent name reader size : Proc Error (Mtp σ) UInt32) := by
  refine (takes_issues _).sendObjectStream (fun storage hsize => ⟨fun _ => ?_, fun h => ?_⟩)
    ⟨fun h => ?_, fun _ => rfl⟩
  · exact ⟨hsize, storage, rfl, rfl⟩
  · exact absurd h.symm Op.sendObject_ne_sendObjectInfo
  · exact absurd h Op.sendObject_ne_sendObjectInfo

end Mtp

namespace Fs

variable {σ : Type} [Logged σ] {E : Type}

/-- **A send of an entry** announces the size of the entry, in the folder and under
the name of the entry, and streams its spool file. -/
theorem sendPending_issues (p : Pending) (fs : Fs σ) :
    Keeps (Mtp.Issues (OfFile p.parent p.name p.size
      (readerOf fs.host.reading (fs.spoolBytes p.spool)))) fs
      ((sendPending p : Proc E (Fs σ) (Int × Pending)) fs).2 := by
  have htakes := Mtp.takes_issues (σ := σ) (OfFile p.parent p.name p.size
    (readerOf fs.host.reading (fs.spoolBytes p.spool)))
  refine sendPending_keeps htakes.toChains ?_ (htakes.renameObject fun _ _ _ => ?_)
    (fun old _ => htakes.deleteObject (fun _ _ => ?_) old) Mtp.sendObjectStream_issues
  · exact htakes.storageInfo fun _ _ => .of_other (by decide) (by decide)
  · exact .of_other (by decide) (by decide)
  · exact .of_other (by decide) (by decide)

/-- A callback that sends nothing announces nothing. -/
theorem respects_quiet :
    Respects (Mtp.Issues Request.Quiet : Mtp σ → Mtp σ → Prop) := by
  have htakes := Mtp.takes_issues (σ := σ) Request.Quiet
  have hreads := htakes.reads (fun _ _ _ => Request.quiet_of_none) fun _ => .of_same rfl
  exact {
    toChains := htakes.toChains
    list := hreads.list
    read := hreads.readAt
    info := htakes.storageInfo fun _ _ => Request.quiet_of_none
    rename := htakes.renameObject fun _ _ _ h => Op.setObjectPropValue_ne_sendObjectInfo h.1
    move := htakes.moveObject fun _ _ => Request.quiet_of_none
    delete := htakes.deleteObject fun _ _ => Request.quiet_of_none }

end Fs

end Bsdroid
