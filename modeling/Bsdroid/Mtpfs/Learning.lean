import Bsdroid.Mtpfs.Calls

/-!
# What the mount learns

The tree changes in two ways alone: a listing that the device gave goes into it, and a
listing is forgotten.  A relation between two states of a mount that respects both, and
whatever leaves the tree alone (`Fs.Learns`), holds over every callback.
-/

namespace Bsdroid

namespace Fs

variable {σ E α : Type} [Link σ]

/-- A relation between two states of a mount that no listing breaks, and no change of
anything but the tree.  `R` is what the operations of the session respect. -/
structure Learns (R : Mtp σ → Mtp σ → Prop) (K : Fs σ → Fs σ → Prop) : Prop where
  operations : RespectsSends R
  trans : ∀ {a b c}, K a b → K b c → K a c
  learns : ∀ (fs : Fs σ) parent entries m, Mtp.list parent fs.mtp = (.ok entries, m) →
    K fs { fs with mtp := m, tree := fs.tree.setChildren parent entries }
  device : ∀ {fs fs' : Fs σ}, fs'.tree = fs.tree → R fs.mtp fs'.mtp → K fs fs'
  forgets : ∀ (fs : Fs σ) parent, K fs { fs with tree := fs.tree.forgetListing parent }

section

omit [Link σ]

/-- The drop of an entry touches the disk alone. -/
theorem tree_dropped {fs : Fs σ} {p : Pending} : (fs.dropped p).tree = fs.tree := by
  rw [dropped]
  split
  · rfl
  · rfl

/-- A new entry in the place of an old one drops the old one, and the tree stays as it was. -/
theorem tree_replaced {fs : Fs σ} {path : Str} {p : Pending} :
    (fs.replaced path p).tree = fs.tree := by
  rw [replaced]
  split
  · exact tree_dropped
  · rfl

end

namespace Learns

variable {R : Mtp σ → Mtp σ → Prop} {K : Fs σ → Fs σ → Prop} (h : Learns R K)

include h

/-- A state learns nothing of itself: the tree and the session are the same. -/
theorem refl (fs : Fs σ) : K fs fs := h.device rfl (h.operations.refl _)

/-- A walk of the tree learns from each listing, and a listing that the device refuses leaves the
tree as it was. -/
theorem looks : Looks K where
  refl := h.refl
  trans := h.trans
  learns := h.learns
  refused fs parent e m hlist := by
    have hasked := h.operations.list parent fs.mtp
    rw [hlist] at hasked
    exact h.device rfl hasked

/-- An operation of the session leaves the tree alone, whether it works or fails. -/
theorem tryMtp {x : Proc Error (Mtp σ) α} (hx : Proc.Steps R x) :
    Proc.Steps K (tryMtp x : Proc E (Fs σ) (Except Error α)) :=
  fun fs => h.device rfl (hx fs.mtp)

/-- The relation holds over a listing that is forgotten, which is the only way a listing goes. -/
theorem forgetListing (parent : UInt32) :
    Proc.Steps K (forgetListing parent : Proc E (Fs σ) Unit) := fun fs => h.forgets fs parent

/-- A step that leaves the tree and the session alone. -/
theorem still {x : Proc E (Fs σ) α} (htree : ∀ fs, (x fs).2.tree = fs.tree)
    (hmtp : ∀ fs, (x fs).2.mtp = fs.mtp) : Proc.Steps K x := by
  intro fs
  refine h.device (htree fs) ?_
  rw [hmtp fs]
  exact h.operations.refl _

/-- A callback that changed a folder of the device forgets its listing and goes on. -/
theorem forgetAnd {parent : UInt32} {x : Proc E (Fs σ) α} (hx : Proc.Steps K x) :
    Proc.Steps K (do
      Fs.forgetListing parent
      x) :=
  .bind (R := K) h.trans (h.forgetListing parent) fun _ => hx

/-! ## The callbacks that ask -/

/-- A question about the storage asks the device, and has nothing to do with the tree. -/
theorem opStatfs : Proc.Steps K (opStatfs : Proc Int (Fs σ) (Nat × Nat)) := by
  refine .bind (R := K) h.trans (h.tryMtp h.operations.info) fun answer => ?_
  split
  · exact .pure h.refl _
  · exact .fail h.refl _

/-- A read walks to its object, and then asks for the bytes or takes them from the spool file. -/
theorem opRead (path : Str) (size offset : Nat) (fi : Option Nat) :
    Proc.Steps K (opRead path size offset fi : Proc Int (Fs σ) Bytes) :=
  h.looks.opRead (fun fs _ _ _ _ => h.device rfl (h.operations.read _ _ _ _ fs.mtp)) path size
    offset fi

/-! ## The entries and the spool files -/

/-- An entry goes into the map.  The spool file of the one before it goes with it. -/
theorem insertPending (path : Str) (p : Pending) :
    Proc.Steps K (insertPending path p : Proc E (Fs σ) Unit) := by
  intro fs
  rw [insertPending_run]
  refine h.device tree_replaced ?_
  rw [mtp_replaced]
  exact h.operations.refl _

/-- An entry is dropped, with its spool file or without. -/
theorem dropPending (p : Pending) : Proc.Steps K (dropPending p : Proc E (Fs σ) Unit) := by
  intro fs
  rw [dropPending_run]
  refine h.device tree_dropped ?_
  rw [mtp_dropped]
  exact h.operations.refl _

/-- An entry comes out of the map, and nothing else changes. -/
theorem takePending (path : Str) :
    Proc.Steps K (takePending path : Proc E (Fs σ) (Option Pending)) :=
  h.still (fun _ => rfl) fun _ => rfl

/-- A new spool file has the next number, or the host refuses it. -/
theorem makeSpool : Proc.Steps K (makeSpool : Proc Int (Fs σ) Nat) := by
  refine .bind (R := K) h.trans (h.still (fun _ => rfl) fun _ => rfl) fun n => ?_
  refine .bind (R := K) h.trans (.get h.refl) fun fs => ?_
  split
  · exact .bind (R := K) h.trans (h.still (fun _ => rfl) fun _ => rfl) fun _ => .pure h.refl _
  · exact .fail h.refl _

/-- An adoption looks for room on the host, copies the bytes of the object when they are kept, and
makes the entry. -/
theorem adoptForWrite (path : Str) (handle : UInt32) (entry : Entry) (keep : Bool) :
    Proc.Steps K (adoptForWrite path handle entry keep : Proc Int (Fs σ) Unit) := by
  have hroom : Proc.Steps K (checkRoom entry.size keep : Proc Int (Fs σ) Unit) := by
    intro fs
    rcases checkRoom_state entry.size keep fs with hrun | ⟨rc, hrun⟩
    · rw [hrun]
      exact h.refl fs
    · rw [hrun]
      exact h.refl fs
  have hcopy : ∀ spool, Proc.Steps K
      (copyObjectToSpool handle entry.size spool : Proc Int (Fs σ) Nat) := by
    intro spool fs
    have hfills := copyFrom_fills h.operations.toChains h.operations.read handle entry.size spool
      entry.size 0 fs
    exact h.device hfills.tree hfills.device
  refine .bind (R := K) h.trans hroom fun _ => ?_
  refine .bind (R := K) h.trans h.makeSpool fun spool => ?_
  split
  · exact .bind (R := K) h.trans (hcopy spool) fun size => h.insertPending _ _
  · exact .bind (R := K) h.trans (.pure h.refl _) fun size => h.insertPending _ _

/-- The spool file of an entry gets another size, or the host refuses and the entry stays. -/
theorem resizePending (path : Str) (p : Pending) (size : Nat) :
    Proc.Steps K (resizePending path p size : Proc Int (Fs σ) Pending) := by
  refine .bind (R := K) h.trans (.get h.refl) fun fs => ?_
  split
  · refine .bind (R := K) h.trans (h.still (fun _ => rfl) fun _ => rfl) fun _ => ?_
    exact .bind (R := K) h.trans (h.still (fun _ => rfl) fun _ => rfl) fun _ => .pure h.refl _
  · exact .fail h.refl _

/-- An open walks to its object, and adopts it when it is for writing and has no entry. -/
theorem opOpen (path : Str) (flags : Nat) :
    Proc.Steps K (opOpen path flags : Proc Int (Fs σ) Nat) := by
  refine .bind (R := K) h.trans (h.looks.resolved path) fun handle => ?_
  refine .bind (R := K) h.trans (.get h.refl) fun fs => ?_
  split
  · split
    · exact .fail h.refl _
    · by_cases hadopts : Oflag.writes flags = true ∧ fs.pending path = none
      · rw [if_pos hadopts]
        exact .bind (R := K) h.trans (h.adoptForWrite _ _ _ _) fun _ => .pure h.refl _
      · rw [if_neg hadopts]
        exact .pure h.refl _
  · exact .fail h.refl _

/-- A new file needs the handle of its folder, and then only a spool file and an entry. -/
theorem opCreate (path : Str) : Proc.Steps K (opCreate path : Proc Int (Fs σ) Nat) := by
  unfold Fs.opCreate
  dsimp only
  split
  · exact .fail h.refl _
  · refine .bind (R := K) h.trans (h.looks.resolved _) fun parent => ?_
    refine .bind (R := K) h.trans h.makeSpool fun spool => ?_
    exact .bind (R := K) h.trans (h.insertPending _ _) fun _ => .pure h.refl _

/-- A write goes to a spool file: neither the tree nor the session takes part. -/
theorem opWrite (path : Str) (bytes : Bytes) (offset : Nat) :
    Proc.Steps K (opWrite path bytes offset : Proc Int (Fs σ) Nat) := by
  intro fs
  refine h.device ?_ ?_
  · cases hp : fs.pending path with
    | none =>
        rw [Fs.opWrite, Proc.bind_ok (Proc.get_run _), hp]
        rfl
    | some p =>
        rcases opWrite_entry hp bytes offset with ⟨done, file, -, -, hrun⟩ | ⟨rc, file, hrun⟩
        · rw [hrun]
          rfl
        · rw [hrun]
          rfl
  · rw [opWrite_mtp]
    exact h.operations.refl _

/-! ## A send -/

/-- Before a send the old object moves aside or goes.  The tree hears of it when the send forgets
the listing of the folder. -/
theorem makeRoom (p : Pending) : Proc.Steps K (makeRoom p : Proc Int (Fs σ) (Pending × Bool)) := by
  unfold Fs.makeRoom
  split
  · exact .pure h.refl _
  · refine .bind (R := K) h.trans (.get h.refl) fun fs => ?_
    refine .bind (R := K) h.trans (h.tryMtp h.operations.info) fun answer => ?_
    extract_lets free
    split
    · refine .bind (R := K) h.trans (h.still (fun _ => rfl) fun _ => rfl) fun aside => ?_
      refine .bind (R := K) h.trans (h.tryMtp (h.operations.rename _ _)) fun answer => ?_
      split
      · exact .pure h.refl _
      · exact .fail h.refl _
    · split
      · refine .bind (R := K) h.trans (h.tryMtp (h.operations.delete _)) fun answer => ?_
        split
        · exact .pure h.refl _
        · exact .fail h.refl _
      · exact .fail h.refl _

/-- The stream, what becomes of the old object, and the listing that is forgotten either way. -/
theorem deliver (p : Pending) (oldCopyExists : Bool) :
    Proc.Steps K (deliver p oldCopyExists : Proc E (Fs σ) (Int × Pending)) := by
  refine .bind (R := K) h.trans (.get h.refl) fun fs => ?_
  refine .bind (R := K) h.trans (h.tryMtp (h.operations.stream _ _ _ _)) fun answer => ?_
  split
  · split
    · exact .bind (R := K) h.trans (h.tryMtp (h.operations.delete _)) fun _ =>
        h.forgetAnd (.pure h.refl _)
    · exact h.forgetAnd (.pure h.refl _)
  · split
    · exact .bind (R := K) h.trans (h.tryMtp (h.operations.rename _ _)) fun _ =>
        h.forgetAnd (.pure h.refl _)
    · exact h.forgetAnd (.pure h.refl _)

/-- A send stops before the device hears of it, or it delivers. -/
theorem sendPending (p : Pending) :
    Proc.Steps K (sendPending p : Proc E (Fs σ) (Int × Pending)) := by
  have hready : Proc.Steps K (readyToSend p : Proc Int (Fs σ) (Pending × Bool)) := by
    refine .bind (R := K) h.trans (.get h.refl) fun fs => ?_
    split
    · exact .fail h.refl _
    · split
      · exact h.makeRoom p
      · exact .fail h.refl _
  refine .bind (R := K) h.trans (.attempt hready) fun answer => ?_
  split
  · exact .pure h.refl _
  · exact h.deliver _ _

/-- A flush sends an entry that was not sent, and puts it back into the map with the answer. -/
theorem opFlush (path : Str) (fi : Option Nat) :
    Proc.Steps K (opFlush path fi : Proc Int (Fs σ) Int) := by
  unfold Fs.opFlush
  split
  · refine .bind (R := K) h.trans (h.takePending path) fun entry => ?_
    split
    · exact .pure h.refl _
    · split
      · refine .bind (R := K) h.trans (.pure h.refl _) fun sent => ?_
        exact .bind (R := K) h.trans (h.insertPending _ _) fun _ => .pure h.refl _
      · refine .bind (R := K) h.trans (h.sendPending _) fun sent => ?_
        refine .bind (R := K) h.trans (.pure h.refl _) fun sent => ?_
        exact .bind (R := K) h.trans (h.insertPending _ _) fun _ => .pure h.refl _
  · exact .pure h.refl _

/-- A release sends an entry that was not sent, and drops it. -/
theorem opRelease (path : Str) (fi : Option Nat) :
    Proc.Steps K (opRelease path fi : Proc Int (Fs σ) Int) := by
  unfold Fs.opRelease
  split
  · refine .bind (R := K) h.trans (h.takePending path) fun entry => ?_
    split
    · exact .pure h.refl _
    · split
      · refine .bind (R := K) h.trans (.pure h.refl _) fun sent => ?_
        exact .bind (R := K) h.trans (h.dropPending _) fun _ => .pure h.refl _
      · refine .bind (R := K) h.trans (h.sendPending _) fun sent => ?_
        refine .bind (R := K) h.trans (.pure h.refl _) fun sent => ?_
        exact .bind (R := K) h.trans (h.dropPending _) fun _ => .pure h.refl _
  · exact .pure h.refl _

/-- A truncation resizes the spool file of an entry; without one it adopts the object, resizes,
sends and drops. -/
theorem opTruncate (path : Str) (size : Nat) :
    Proc.Steps K (opTruncate path size : Proc Int (Fs σ) Int) := by
  refine .bind (R := K) h.trans (.get h.refl) fun fs => ?_
  split
  · exact .bind (R := K) h.trans (h.resizePending _ _ _) fun _ => .pure h.refl _
  · refine .bind (R := K) h.trans (h.looks.resolved path) fun handle => ?_
    refine .bind (R := K) h.trans (.get h.refl) fun fs => ?_
    split
    · split
      · exact .fail h.refl _
      · refine .bind (R := K) h.trans (h.adoptForWrite _ _ _ _) fun _ => ?_
        refine .bind (R := K) h.trans (.get h.refl) fun fs => ?_
        split
        · refine .bind (R := K) h.trans (h.resizePending _ _ _) fun _ => ?_
          refine .bind (R := K) h.trans (h.takePending path) fun taken => ?_
          split
          · refine .bind (R := K) h.trans (h.sendPending _) fun sent => ?_
            exact .bind (R := K) h.trans (h.dropPending _) fun _ => .pure h.refl _
          · exact .fail h.refl _
        · exact .fail h.refl _
    · exact .fail h.refl _

/-! ## Changes of the tree -/

/-- What has the new name moves aside, and its folder is read again by the next walk. -/
theorem clearTarget (target newName : Str) (handle newParent : UInt32) :
    Proc.Steps K (clearTarget target newName handle newParent : Proc Int (Fs σ) _) := by
  refine .bind (R := K) h.trans (h.looks.resolve target) fun taken => ?_
  split
  · exact .pure h.refl _
  · split
    · exact .pure h.refl _
    · split
      · exact .fail h.refl _
      · refine .bind (R := K) h.trans (h.still (fun _ => rfl) fun _ => rfl) fun aside => ?_
        refine .bind (R := K) h.trans (h.tryMtp (h.operations.rename _ _)) fun answer => ?_
        split
        · exact .fail h.refl _
        · exact h.forgetAnd (.pure h.refl _)

/-- The object of a rename goes to another folder.  The listings are forgotten at the end of the
rename. -/
theorem moveAcross (handle oldParent newParent : UInt32) :
    Proc.Steps K (moveAcross handle oldParent newParent : Proc Int (Fs σ) Unit) := by
  refine .bind (R := K) h.trans (.get h.refl) fun fs => ?_
  split
  · split
    · refine .bind (R := K) h.trans (h.tryMtp (h.operations.move _ _)) fun answer => ?_
      split
      · exact .pure h.refl _
      · exact .fail h.refl _
    · exact .fail h.refl _
  · exact .pure h.refl _

/-- The object gets its new name, or what moved aside gets its own one back. -/
theorem renameInPlace (handle newParent : UInt32) (newName : Str) (aside : Option UInt32) :
    Proc.Steps K (renameInPlace handle newParent newName aside : Proc Int (Fs σ) Unit) := by
  refine .bind (R := K) h.trans (.get h.refl) fun fs => ?_
  dsimp only
  split
  · split
    · refine .bind (R := K) h.trans (h.tryMtp (h.operations.rename _ _)) fun answer => ?_
      split
      · exact .pure h.refl _
      · split
        · exact .bind (R := K) h.trans (h.tryMtp (h.operations.rename _ _)) fun _ =>
            h.forgetAnd (.fail h.refl _)
        · exact h.forgetAnd (.fail h.refl _)
    · exact .fail h.refl _
  · exact .pure h.refl _

/-- What moved aside is removed at the end of a rename. -/
theorem dropAside (aside : Option UInt32) :
    Proc.Steps K (dropAside aside : Proc Int (Fs σ) Unit) := by
  unfold Fs.dropAside
  split
  · exact .bind (R := K) h.trans (h.tryMtp (h.operations.delete _)) fun _ => .pure h.refl _
  · exact .pure h.refl _

/-- A rename is its four walks and the three changes of the device, and a success forgets both
listings. -/
theorem opRename (source target : Str) :
    Proc.Steps K (opRename source target : Proc Int (Fs σ) Int) := by
  refine .bind (R := K) h.trans (h.looks.resolved source) fun handle => ?_
  split
  · exact .fail h.refl _
  · dsimp only
    split
    · exact .fail h.refl _
    · refine .bind (R := K) h.trans (h.looks.resolved _) fun oldParent => ?_
      refine .bind (R := K) h.trans (h.looks.resolved _) fun newParent => ?_
      refine .bind (R := K) h.trans (h.clearTarget _ _ _ _) fun aside => ?_
      split
      · exact .pure h.refl _
      · refine .bind (R := K) h.trans (h.moveAcross _ _ _) fun _ => ?_
        refine .bind (R := K) h.trans (h.renameInPlace _ _ _ _) fun _ => ?_
        refine .bind (R := K) h.trans (h.dropAside _) fun _ => ?_
        exact h.forgetAnd (h.forgetAnd (.pure h.refl _))

/-- A removal walks to its object, looks at its kind, deletes it and forgets the listing of its
folder. -/
theorem removeObject (path : Str) (wantDir : Bool) :
    Proc.Steps K (removeObject path wantDir : Proc Int (Fs σ) Int) := by
  refine .bind (R := K) h.trans (h.looks.resolved path) fun handle => ?_
  split
  · exact .fail h.refl _
  · refine .bind (R := K) h.trans (.get h.refl) fun fs => ?_
    split
    · exact .fail h.refl _
    · split
      · exact .fail h.refl _
      · refine .bind (R := K) h.trans (h.tryMtp (h.operations.delete _)) fun answer => ?_
        split
        · exact h.forgetAnd (.pure h.refl _)
        · exact .fail h.refl _

/-- A new folder is an announcement of the device, and its parent is read again by the next walk. -/
theorem opMkdir (path : Str) : Proc.Steps K (opMkdir path : Proc Int (Fs σ) Int) := by
  unfold Fs.opMkdir
  dsimp only
  split
  · exact .fail h.refl _
  · refine .bind (R := K) h.trans (h.looks.resolved _) fun parent => ?_
    refine .bind (R := K) h.trans (h.tryMtp (h.operations.send _ _ _ _)) fun answer => ?_
    split
    · exact h.forgetAnd (.pure h.refl _)
    · exact .fail h.refl _

/-! ## Every callback -/

/-- **A relation that the mount learns by holds over every callback.** -/
theorem number (c : Call) : Proc.Steps K (c.number : Proc Int (Fs σ) Int) := by
  have hvalue : ∀ {α : Type} {x : Proc Int (Fs σ) α} {f : α → Int}, Proc.Steps K x →
      Proc.Steps K (x >>= fun a => pure (f a)) := fun hx =>
    .bind (R := K) h.trans hx fun _ => .pure h.refl _
  cases c with
  | getattr path => exact hvalue (h.looks.opGetattr path)
  | readdir path => exact hvalue (h.looks.opReaddir path)
  | statfs => exact hvalue h.opStatfs
  | opens path flags => exact hvalue (h.opOpen path flags)
  | create path => exact hvalue (h.opCreate path)
  | read path size offset fi => exact hvalue (h.opRead path size offset fi)
  | write path bytes offset => exact hvalue (h.opWrite path bytes offset)
  | truncate path size => exact h.opTruncate path size
  | flush path fi => exact h.opFlush path fi
  | release path fi => exact h.opRelease path fi
  | rename source target => exact h.opRename source target
  | unlink path => exact h.removeObject path false
  | rmdir path => exact h.removeObject path true
  | mkdir path => exact h.opMkdir path

end Learns

end Fs

end Bsdroid
