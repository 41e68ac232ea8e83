import Bsdroid.Mtpfs.Fs

/-!
# What the callbacks leave alone

Most of a callback is a walk of the tree and some operations of the device, and
neither touches the files a program is writing.  `Fs.Keeps R` says so, next to any
relation `R` between the states of the session that its operations respect.

What a callback does to the entries when it does touch them is in
`Bsdroid.Mtpfs.Entries`.
-/

namespace Bsdroid

namespace Fs

variable {σ : Type} {E α : Type}

/-- Between two states the entries and the spool files are the same, and the
sessions are related. -/
structure Keeps (R : Mtp σ → Mtp σ → Prop) (fs fs' : Fs σ) : Prop where
  pending : fs'.pending = fs.pending
  disk : fs'.disk = fs.disk
  host : fs'.host = fs.host
  count : fs.spoolCount ≤ fs'.spoolCount
  device : R fs.mtp fs'.mtp

/-- A relation the operations of a session respect: it holds of no operation and of
two in a row. -/
structure Chains (R : Mtp σ → Mtp σ → Prop) : Prop where
  refl : ∀ m, R m m
  trans : ∀ {a b c}, R a b → R b c → R a c

/-- The relation that says nothing. -/
def Anything (_ _ : Mtp σ) : Prop := True

/-- The relation that says nothing is respected by all operations. -/
theorem chains_anything : Chains (Anything : Mtp σ → Mtp σ → Prop) :=
  ⟨fun _ => trivial, fun _ _ => trivial⟩

/-- Every program respects the relation that says nothing. -/
theorem steps_anything (x : Proc E (Mtp σ) α) : Proc.Steps Anything x := fun _ => trivial

/-! ## The ends of two callbacks -/

/-- The end of `opReaddir`: the names in a folder that was read. -/
def namesOf (handle : UInt32) : Proc Int (Fs σ) (List Str) := do
  let fs ← Proc.get
  match fs.tree.children handle with
  | some entries => pure (['.'] :: ['.', '.'] :: entries.map fun e => shownName e.name)
  | none => Proc.fail (-Libc.EIO)

/-- The names of a folder that was read: the two that each folder has, and those the tree holds. -/
theorem namesOf_run {fs : Fs σ} {handle : UInt32} {entries : List Entry}
    (h : fs.tree.children handle = some entries) :
    namesOf handle fs =
      (.ok (['.'] :: ['.', '.'] :: entries.map fun e => shownName e.name), fs) := by
  rw [namesOf, Proc.bind_ok (Proc.get_run _), h]
  rfl

/-- The end of `opRead`: the bytes of an object that no program writes. -/
def bytesOf [Link σ] (handle : UInt32) (size offset : Nat) : Proc Int (Fs σ) Bytes := do
  let fs ← Proc.get
  match fs.tree.get handle with
  | none => Proc.fail (-Libc.ENOENT)
  | some e =>
      if offset ≥ e.size then pure []
      else
        match ← tryMtp (Mtp.readAt handle offset (min size (e.size - offset)) e.size) with
        | .ok data => pure (data.take size)
        | .error _ => Proc.fail (-Libc.EIO)

/-! ## The callbacks that only read -/

/-- A relation that a look at the device respects: it holds of no step and of two in a row,
and of a listing that the device gave or refused. -/
structure Looks [Link σ] (K : Fs σ → Fs σ → Prop) : Prop where
  refl : ∀ fs, K fs fs
  trans : ∀ {a b c}, K a b → K b c → K a c
  learns : ∀ (fs : Fs σ) parent entries m, Mtp.list parent fs.mtp = (.ok entries, m) →
    K fs { fs with mtp := m, tree := fs.tree.setChildren parent entries }
  refused : ∀ (fs : Fs σ) parent e m, Mtp.list parent fs.mtp = (.error e, m) →
    K fs { fs with mtp := m }

namespace Looks

variable [Link σ] {K : Fs σ → Fs σ → Prop} (h : Looks K)
include h

/-- A folder is read, and what follows breaks the relation neither way. -/
theorem list {parent : UInt32} {f : Proc E (Fs σ) α} {g : Error → Proc E (Fs σ) α}
    (hf : Proc.Steps K f) (hg : ∀ e, Proc.Steps K (g e)) :
    Proc.Steps K (do
      match ← tryMtp (Mtp.list parent) with
      | .ok entries => do
          setChildren parent entries
          f
      | .error e => g e) := by
  intro fs
  rw [Proc.bind_ok (tryMtp_run _ _)]
  rcases hlist : Mtp.list parent fs.mtp with ⟨e | entries, m⟩
  · exact h.trans (h.refused fs parent e m hlist) (hg e _)
  · exact h.trans (h.learns fs parent entries m hlist) (hf _)

/-- A walk looks at the tree and reads one folder, again and again.  The induction is on the
rounds that are left. -/
theorem resolveIn (path : Str) (rounds : Nat) :
    Proc.Steps K (resolveIn path rounds : Proc E (Fs σ) (Option UInt32)) := by
  induction rounds with
  | zero => exact .pure h.refl _
  | succ rounds ih =>
      refine .bind (R := K) h.trans (.get h.refl) fun fs => ?_
      split
      · exact .pure h.refl _
      · exact .pure h.refl _
      · exact h.list ih fun _ => .pure h.refl _

/-- A walk has `maxWalk` rounds. -/
theorem resolve (path : Str) :
    Proc.Steps K (resolve path : Proc E (Fs σ) (Option UInt32)) :=
  h.resolveIn path maxWalk

/-- A path that is not there ends a callback with an error, and nothing happened on the way but
looks. -/
theorem resolved (path : Str) : Proc.Steps K (resolved path : Proc Int (Fs σ) UInt32) := by
  refine .bind (R := K) h.trans (h.resolve path) fun handle => ?_
  split
  · exact .pure h.refl _
  · exact .fail h.refl _

/-- The attributes of a file that a program writes come from its entry, and all others from the
tree. -/
theorem opGetattr (path : Str) : Proc.Steps K (opGetattr path) := by
  refine .bind (R := K) h.trans (.get h.refl) fun fs => ?_
  split
  · exact .pure h.refl _
  · refine .bind (R := K) h.trans (h.resolved path) fun handle => ?_
    refine .bind (R := K) h.trans (.get h.refl) fun fs => ?_
    split
    · exact .pure h.refl _
    · split
      · split
        · exact .pure h.refl _
        · exact .pure h.refl _
      · exact .fail h.refl _

/-- A listing walks to its folder, and reads it when the tree does not hold it. -/
theorem opReaddir (path : Str) : Proc.Steps K (opReaddir path) := by
  have hnames : ∀ handle, Proc.Steps K (namesOf handle : Proc Int (Fs σ) (List Str)) := by
    intro handle
    refine .bind (R := K) h.trans (.get h.refl) fun fs => ?_
    split
    · exact .pure h.refl _
    · exact .fail h.refl _
  refine .bind (R := K) h.trans (h.resolved path) fun handle => ?_
  refine .bind (R := K) h.trans (.get h.refl) fun fs => ?_
  split
  · exact hnames handle
  · exact h.list (hnames handle) fun _ => .bind (R := K) h.trans (.fail h.refl _) fun _ =>
      hnames handle

/-- An open that asks for no write access only reads. -/
theorem opOpen {flags : Nat} (hreads : Oflag.writes flags = false) (path : Str) :
    Proc.Steps K (opOpen path flags) := by
  refine .bind (R := K) h.trans (h.resolved path) fun handle => ?_
  refine .bind (R := K) h.trans (.get h.refl) fun fs => ?_
  split
  · split
    · exact .fail h.refl _
    · rw [hreads, if_neg fun h => Bool.false_ne_true h.1]
      exact .pure h.refl _
  · exact .fail h.refl _

/-- A read looks at the spool file of an entry or at the device, and so it needs what a read of
the device respects. -/
theorem opRead (hread : ∀ (fs : Fs σ) handle offset want size,
      K fs { fs with mtp := (Mtp.readAt handle offset want size fs.mtp).2 })
    (path : Str) (size offset : Nat) (fi : Option Nat) :
    Proc.Steps K (opRead path size offset fi) := by
  have hdevice : ∀ handle, Proc.Steps K (bytesOf handle size offset : Proc Int (Fs σ) Bytes) := by
    intro handle
    refine .bind (R := K) h.trans (.get h.refl) fun fs => ?_
    split
    · exact .fail h.refl _
    · split
      · exact .pure h.refl _
      · refine .bind (R := K) h.trans (fun fs => hread fs _ _ _ _) fun answer => ?_
        split
        · exact .pure h.refl _
        · exact .fail h.refl _
  refine .bind (R := K) h.trans (.get h.refl) fun fs => ?_
  split
  · split
    · exact .pure h.refl _
    · split
      · exact .pure h.refl _
      · exact .fail h.refl _
  · split
    · split
      · exact hdevice _
      · exact .bind (R := K) h.trans (h.resolved path) hdevice
    · exact .bind (R := K) h.trans (h.resolved path) hdevice

end Looks

/-- A relation that a walk of the tree respects: it holds of no step and of two in a row,
and a listing that is asked for or recorded does not break it. -/
structure Walks [Link σ] (K : Fs σ → Fs σ → Prop) : Prop where
  refl : ∀ fs, K fs fs
  trans : ∀ {a b c}, K a b → K b c → K a c
  lists : ∀ (fs : Fs σ) parent, K fs { fs with mtp := (Mtp.list parent fs.mtp).2 }
  records : ∀ (fs : Fs σ) parent entries, K fs { fs with
    tree := fs.tree.setChildren parent entries }

/-- What a walk respects step by step, a look respects. -/
theorem Walks.looks [Link σ] {K : Fs σ → Fs σ → Prop} (h : Walks K) : Looks K where
  refl := h.refl
  trans := h.trans
  learns fs parent entries m hlist := by
    have hasked := h.lists fs parent
    rw [hlist] at hasked
    exact h.trans hasked (h.records _ parent entries)
  refused fs parent e m hlist := by
    have hasked := h.lists fs parent
    rw [hlist] at hasked
    exact hasked

section Keeps

variable {R : Mtp σ → Mtp σ → Prop} (hR : Chains R)
include hR

/-- A state keeps all it has. -/
theorem Keeps.refl (fs : Fs σ) : Keeps R fs fs := ⟨rfl, rfl, rfl, Nat.le_refl _, hR.refl _⟩

/-- Two steps that keep the files of the host, one after the other. -/
theorem Keeps.trans {a b c : Fs σ} (h : Keeps R a b) (h' : Keeps R b c) : Keeps R a c where
  pending := h'.pending.trans h.pending
  disk := h'.disk.trans h.disk
  host := h'.host.trans h.host
  count := Nat.le_trans h.count h'.count
  device := hR.trans h.device h'.device

/-- A listing is no part of the files. -/
theorem forgetListing_keeps (parent : UInt32) :
    Proc.Steps (Keeps R) (forgetListing parent : Proc E (Fs σ) Unit) :=
  fun _ => ⟨rfl, rfl, rfl, Nat.le_refl _, hR.refl _⟩

/-- A name for an object aside takes the next number, and leaves the files alone. -/
theorem asideName_keeps (name : Str) :
    Proc.Steps (Keeps R) (asideName name : Proc E (Fs σ) Str) :=
  fun _ => ⟨rfl, rfl, rfl, Nat.le_succ _, hR.refl _⟩

omit hR in
/-- An operation of the session is all that happens in it. -/
theorem tryMtp_keeps {x : Proc Error (Mtp σ) α} (hx : Proc.Steps R x) :
    Proc.Steps (Keeps R) (tryMtp x : Proc E (Fs σ) (Except Error α)) :=
  fun fs => ⟨rfl, rfl, rfl, Nat.le_refl _, hx fs.mtp⟩

variable [Link σ] (hlist : ∀ parent, Proc.Steps R (Mtp.list parent))
include hlist

/-- A walk changes the tree and asks the device for listings. -/
theorem walks_keeps : Walks (Keeps R) where
  refl := .refl hR
  trans := .trans hR
  lists fs parent := ⟨rfl, rfl, rfl, Nat.le_refl _, hlist parent fs.mtp⟩
  records _ _ _ := ⟨rfl, rfl, rfl, Nat.le_refl _, hR.refl _⟩

/-- A path is looked for, and the files stay. -/
theorem resolve_keeps (path : Str) :
    Proc.Steps (Keeps R) (resolve path : Proc E (Fs σ) (Option UInt32)) :=
  (walks_keeps hR hlist).looks.resolve path

/-- A path is looked for and has to be there, and the files stay. -/
theorem resolved_keeps (path : Str) :
    Proc.Steps (Keeps R) (resolved path : Proc Int (Fs σ) UInt32) :=
  (walks_keeps hR hlist).looks.resolved path

omit hlist in
/-- A question about the storage leaves the files alone. -/
theorem opStatfs_keeps
    (hinfo : Proc.Steps R (Mtp.storageInfo : Proc Error (Mtp σ) (Nat × Nat))) :
    Proc.Steps (Keeps R) (opStatfs : Proc Int (Fs σ) (Nat × Nat)) := by
  refine .bind (R := Keeps R) (Keeps.trans hR) (tryMtp_keeps hinfo) fun answer => ?_
  split
  · exact .pure (Keeps.refl hR) _
  · exact .fail (Keeps.refl hR) _

/-- A read changes no file, not even the spool file it reads. -/
theorem opRead_keeps (hread : ∀ h offset want size, Proc.Steps R (Mtp.readAt h offset want size))
    (path : Str) (size offset : Nat) (fi : Option Nat) :
    Proc.Steps (Keeps R) (opRead path size offset fi) :=
  (walks_keeps hR hlist).looks.opRead (fun fs _ _ _ _ =>
    ⟨rfl, rfl, rfl, Nat.le_refl _, hread _ _ _ _ fs.mtp⟩) path size offset fi

/-! ## The callbacks that change the device alone -/

/-- A removal is an operation of the device. The entry of a file that is removed stays, with its
spool file. -/
theorem removeObject_keeps (hdelete : ∀ h, Proc.Steps R (Mtp.deleteObject h)) (path : Str)
    (wantDir : Bool) : Proc.Steps (Keeps R) (removeObject path wantDir) := by
  have htrans := @Keeps.trans σ R hR
  refine .bind (R := Keeps R) htrans (resolved_keeps hR hlist path) fun handle => ?_
  split
  · exact .fail (Keeps.refl hR) _
  · refine .bind (R := Keeps R) htrans (.get (Keeps.refl hR)) fun fs => ?_
    split
    · exact .fail (Keeps.refl hR) _
    · split
      · exact .fail (Keeps.refl hR) _
      · refine .bind (R := Keeps R) htrans (tryMtp_keeps (hdelete _)) fun answer => ?_
        split
        · exact .bind (R := Keeps R) htrans (forgetListing_keeps hR _) fun _ =>
            .pure (Keeps.refl hR) _
        · exact .fail (Keeps.refl hR) _

/-- A new folder is on the device at once, and needs no spool file. -/
theorem opMkdir_keeps
    (hsend : ∀ parent name data isFolder, Proc.Steps R (Mtp.sendObject parent name data isFolder))
    (path : Str) : Proc.Steps (Keeps R) (opMkdir path) := by
  have htrans := @Keeps.trans σ R hR
  unfold opMkdir
  dsimp only
  split
  · exact .fail (Keeps.refl hR) _
  · refine .bind (R := Keeps R) htrans (resolved_keeps hR hlist _) fun parent => ?_
    refine .bind (R := Keeps R) htrans (tryMtp_keeps (hsend _ _ _ _)) fun answer => ?_
    split
    · exact .bind (R := Keeps R) htrans (forgetListing_keeps hR _) fun _ =>
        .pure (Keeps.refl hR) _
    · exact .fail (Keeps.refl hR) _

section Rename

variable (hrename : ∀ h name, Proc.Steps R (Mtp.renameObject h name))
  (hmove : ∀ h p, Proc.Steps R (Mtp.moveObject h p))
  (hdelete : ∀ h, Proc.Steps R (Mtp.deleteObject h))

include hrename

/-- A rename that moves an object aside takes a number for its name. -/
theorem clearTarget_keeps (target newName : Str) (handle newParent : UInt32) :
    Proc.Steps (Keeps R) (clearTarget target newName handle newParent) := by
  have htrans := @Keeps.trans σ R hR
  refine .bind (R := Keeps R) htrans (resolve_keeps hR hlist target) fun taken => ?_
  split
  · exact .pure (Keeps.refl hR) _
  · split
    · exact .pure (Keeps.refl hR) _
    · split
      · exact .fail (Keeps.refl hR) _
      · refine .bind (R := Keeps R) htrans (asideName_keeps hR _) fun aside => ?_
        refine .bind (R := Keeps R) htrans (tryMtp_keeps (hrename _ _)) fun answer => ?_
        split
        · exact .fail (Keeps.refl hR) _
        · exact .bind (R := Keeps R) htrans (forgetListing_keeps hR _) fun _ =>
            .pure (Keeps.refl hR) _

omit hlist in
/-- A new name, and the old name of the object aside when the device refuses it. -/
theorem renameInPlace_keeps (handle newParent : UInt32) (newName : Str) (aside : Option UInt32) :
    Proc.Steps (Keeps R) (renameInPlace handle newParent newName aside) := by
  have htrans := @Keeps.trans σ R hR
  refine .bind (R := Keeps R) htrans (.get (Keeps.refl hR)) fun fs => ?_
  dsimp only
  split
  · split
    · refine .bind (R := Keeps R) htrans (tryMtp_keeps (hrename _ _)) fun answer => ?_
      split
      · exact .pure (Keeps.refl hR) _
      · have hback : Proc.Steps (Keeps R) (do
            forgetListing newParent
            Proc.fail (-Libc.EIO) : Proc Int (Fs σ) Unit) :=
          .bind (R := Keeps R) htrans (forgetListing_keeps hR _) fun _ => .fail (Keeps.refl hR) _
        split
        · exact .bind (R := Keeps R) htrans (tryMtp_keeps (hrename _ _)) fun _ => hback
        · exact hback
    · exact .fail (Keeps.refl hR) _
  · exact .pure (Keeps.refl hR) _

omit hlist hrename in
include hmove in
/-- A move to another folder, when the folders differ. -/
theorem moveAcross_keeps (handle oldParent newParent : UInt32) :
    Proc.Steps (Keeps R) (moveAcross handle oldParent newParent) := by
  have htrans := @Keeps.trans σ R hR
  refine .bind (R := Keeps R) htrans (.get (Keeps.refl hR)) fun fs => ?_
  split
  · split
    · refine .bind (R := Keeps R) htrans (tryMtp_keeps (hmove _ _)) fun answer => ?_
      split
      · exact .pure (Keeps.refl hR) _
      · exact .fail (Keeps.refl hR) _
    · exact .fail (Keeps.refl hR) _
  · exact .pure (Keeps.refl hR) _

omit hlist hrename in
include hdelete in
/-- The object that moved aside goes. -/
theorem dropAside_keeps (aside : Option UInt32) :
    Proc.Steps (Keeps R) (dropAside aside) := by
  have htrans := @Keeps.trans σ R hR
  unfold dropAside
  split
  · exact .bind (R := Keeps R) htrans (tryMtp_keeps (hdelete _)) fun _ => .pure (Keeps.refl hR) _
  · exact .pure (Keeps.refl hR) _

include hmove hdelete in
/-- A rename leaves every entry under the path it had, also the entry of the file that it renames. -/
theorem opRename_keeps (source target : Str) :
    Proc.Steps (Keeps R) (opRename source target) := by
  have htrans := @Keeps.trans σ R hR
  refine .bind (R := Keeps R) htrans (resolved_keeps hR hlist source) fun handle => ?_
  split
  · exact .fail (Keeps.refl hR) _
  · dsimp only
    split
    · exact .fail (Keeps.refl hR) _
    · refine .bind (R := Keeps R) htrans (resolved_keeps hR hlist _) fun oldParent => ?_
      refine .bind (R := Keeps R) htrans (resolved_keeps hR hlist _) fun newParent => ?_
      refine .bind (R := Keeps R) htrans
        (clearTarget_keeps hR hlist hrename target _ handle newParent) fun aside => ?_
      split
      · exact .pure (Keeps.refl hR) _
      · refine .bind (R := Keeps R) htrans (moveAcross_keeps hR hmove _ _ _) fun _ => ?_
        refine .bind (R := Keeps R) htrans (renameInPlace_keeps hR hrename _ _ _ _) fun _ => ?_
        refine .bind (R := Keeps R) htrans (dropAside_keeps hR hdelete _) fun _ => ?_
        refine .bind (R := Keeps R) htrans (forgetListing_keeps hR _) fun _ => ?_
        exact .bind (R := Keeps R) htrans (forgetListing_keeps hR _) fun _ =>
          .pure (Keeps.refl hR) _

end Rename

/-! ## A send -/

section Send

variable (hinfo : Proc.Steps R (Mtp.storageInfo : Proc Error (Mtp σ) (Nat × Nat)))
  (hrename : ∀ h name, Proc.Steps R (Mtp.renameObject h name))

omit hlist

include hinfo hrename in
/-- Room for a send comes from the device: an old object is renamed or removed. -/
theorem makeRoom_keeps (p : Pending)
    (hdelete : ∀ old, p.replaces = some old → Proc.Steps R (Mtp.deleteObject old)) :
    Proc.Steps (Keeps R) (makeRoom p) := by
  have htrans := @Keeps.trans σ R hR
  unfold makeRoom
  split
  · exact .pure (Keeps.refl hR) _
  · rename_i old hold
    refine .bind (R := Keeps R) htrans (.get (Keeps.refl hR)) fun fs => ?_
    refine .bind (R := Keeps R) htrans (tryMtp_keeps hinfo) fun answer => ?_
    extract_lets free
    split
    · refine .bind (R := Keeps R) htrans (asideName_keeps hR _) fun aside => ?_
      refine .bind (R := Keeps R) htrans (tryMtp_keeps (hrename _ _)) fun answer => ?_
      split
      · exact .pure (Keeps.refl hR) _
      · exact .fail (Keeps.refl hR) _
    · split
      · refine .bind (R := Keeps R) htrans (tryMtp_keeps (hdelete old hold)) fun answer => ?_
        split
        · exact .pure (Keeps.refl hR) _
        · exact .fail (Keeps.refl hR) _
      · exact .fail (Keeps.refl hR) _

include hinfo hrename in
/-- An entry that a write broke is refused before the device hears of it. -/
theorem readyToSend_keeps (p : Pending)
    (hdelete : ∀ old, p.replaces = some old → Proc.Steps R (Mtp.deleteObject old)) :
    Proc.Steps (Keeps R) (readyToSend p) := by
  refine .bind (R := Keeps R) (Keeps.trans hR) (.get (Keeps.refl hR)) fun fs => ?_
  split
  · exact .fail (Keeps.refl hR) _
  · split
    · exact makeRoom_keeps hR hinfo hrename p hdelete
    · exact .fail (Keeps.refl hR) _

include hrename in
/-- The send itself reads the spool file of the entry, and puts nothing in it. -/
theorem deliver_keeps {p : Pending} {fs : Fs σ}
    (hdelete : ∀ old, p.replaces = some old → Proc.Steps R (Mtp.deleteObject old))
    (hsend : Proc.Steps R (Mtp.sendObjectStream p.parent p.name
      (readerOf fs.host.reading (fs.spoolBytes p.spool)) p.size)) (oldCopyExists : Bool) :
    Keeps R fs ((deliver p oldCopyExists : Proc E (Fs σ) (Int × Pending)) fs).2 := by
  have htrans := @Keeps.trans σ R hR
  rw [deliver, Proc.bind_ok (Proc.get_run _)]
  have hlast : ∀ a : Int × Pending, Proc.Steps (Keeps R) (do
      forgetListing p.parent
      pure a : Proc E (Fs σ) (Int × Pending)) := fun a =>
    .bind (R := Keeps R) htrans (forgetListing_keeps hR _) fun _ => .pure (Keeps.refl hR) _
  refine Proc.Steps.bind (R := Keeps R) htrans (tryMtp_keeps hsend) (fun answer => ?_) fs
  split
  · split
    · rename_i old hold
      exact .bind (R := Keeps R) htrans (tryMtp_keeps (hdelete old hold)) fun _ => hlast _
    · exact hlast _
  · split
    · exact .bind (R := Keeps R) htrans (tryMtp_keeps (hrename _ _)) fun _ => hlast _
    · exact hlast _

end Send

end Keeps

section Send

variable [Link σ] {fs fs' : Fs σ} {p q : Pending} {oldCopyExists : Bool}

/-- Two entries stand for one file: a send changes what the entry replaces and
whether its spool file stays, and nothing else. -/
structure SameFile (p q : Pending) : Prop where
  parent : q.parent = p.parent
  name : q.name = p.name
  spool : q.spool = p.spool
  size : q.size = p.size
  sent : q.sent = p.sent
  broken : q.broken = p.broken

/-- An entry describes its own file. -/
theorem SameFile.refl (p : Pending) : SameFile p p := ⟨rfl, rfl, rfl, rfl, rfl, rfl⟩

/-- Two steps of a send, one after the other. -/
theorem SameFile.trans {a b c : Pending} (h : SameFile a b) (h' : SameFile b c) : SameFile a c :=
  ⟨h'.parent.trans h.parent, h'.name.trans h.name, h'.spool.trans h.spool, h'.size.trans h.size,
    h'.sent.trans h.sent, h'.broken.trans h.broken⟩

/-- The entry after room was made: the old object may be gone already. -/
theorem makeRoom_yields (p : Pending) :
    Proc.Yields (fun a : Pending × Bool => SameFile p a.1) (makeRoom p : Proc Int (Fs σ) _) := by
  unfold makeRoom
  split
  · exact .pure (.refl p)
  · refine .after fun fs => .after fun answer => ?_
    extract_lets free
    split
    · refine .after fun aside => .after fun renamed => ?_
      split
      · exact .pure (.refl p)
      · exact .fail _
    · split
      · refine .after fun deleted => ?_
        split
        · exact .pure ⟨rfl, rfl, rfl, rfl, rfl, rfl⟩
        · exact .fail _
      · exact .fail _

/-- What is ready to be sent is the same file, whatever became of the object it replaces. -/
theorem readyToSend_yields (p : Pending) :
    Proc.Yields (fun a : Pending × Bool => SameFile p a.1)
      (readyToSend p : Proc Int (Fs σ) _) := by
  refine .after fun fs => ?_
  split
  · exact .fail _
  · split
    · exact makeRoom_yields p
    · exact .fail _

/-- Where the old object is gone already, the entry replaces nothing any more. -/
theorem readyToSend_replaces (p : Pending) :
    Proc.Yields (fun a : Pending × Bool => a.1.replaces = p.replaces ∨ a.1.replaces = none)
      (readyToSend p : Proc Int (Fs σ) _) := by
  have hroom : Proc.Yields (fun a : Pending × Bool =>
      a.1.replaces = p.replaces ∨ a.1.replaces = none) (makeRoom p : Proc Int (Fs σ) _) := by
    unfold makeRoom
    split
    · exact .pure (.inl rfl)
    · refine .after fun fs => .after fun answer => ?_
      extract_lets free
      split
      · refine .after fun aside => .after fun renamed => ?_
        split
        · exact .pure (.inl rfl)
        · exact .fail _
      · split
        · refine .after fun deleted => ?_
          split
          · exact .pure (.inr rfl)
          · exact .fail _
        · exact .fail _
  refine .after fun fs => ?_
  split
  · exact .fail _
  · split
    · exact hroom
    · exact .fail _

omit [Link σ] in
/-- An operation that fails is an answer to the callback, and does not end it. -/
theorem tryMtp_returns (x : Proc Error (Mtp σ) α) :
    Proc.Returns (fun _ => True) (tryMtp x : Proc E (Fs σ) (Except Error α)) :=
  fun fs => ⟨_, _, tryMtp_run fs x, trivial⟩

omit [Link σ] in
/-- To forget a listing cannot fail. -/
theorem forgetListing_returns (parent : UInt32) :
    Proc.Returns (fun _ => True) (forgetListing parent : Proc E (Fs σ) Unit) :=
  fun fs => ⟨_, _, forgetListing_run fs parent, trivial⟩

/-- What follows the send always ends. -/
theorem deliver_returns (p : Pending) (oldCopyExists : Bool) :
    Proc.Returns (fun a : Int × Pending => SameFile p a.2)
      (deliver p oldCopyExists : Proc E (Fs σ) _) := by
  have hlast : ∀ a : Int × Pending, SameFile p a.2 →
      Proc.Returns (fun a : Int × Pending => SameFile p a.2) (do
        forgetListing p.parent
        pure a : Proc E (Fs σ) (Int × Pending)) := fun a ha =>
    .bind (forgetListing_returns _) fun _ _ => .pure ha
  refine .bind .get fun fs _ => .bind (tryMtp_returns _) fun answer _ => ?_
  split
  · split
    · exact .bind (tryMtp_returns _) fun _ _ => hlast _ ⟨rfl, rfl, rfl, rfl, rfl, rfl⟩
    · exact hlast _ ⟨rfl, rfl, rfl, rfl, rfl, rfl⟩
  · split
    · exact .bind (tryMtp_returns _) fun _ _ => hlast _ ⟨rfl, rfl, rfl, rfl, rfl, rfl⟩
    · exact hlast _ ⟨rfl, rfl, rfl, rfl, rfl, rfl⟩

/-- **A send gives an answer and the entry of the same file.** -/
theorem sendPending_returns (p : Pending) :
    Proc.Returns (fun a : Int × Pending => SameFile p a.2)
      (sendPending p : Proc E (Fs σ) _) := by
  intro fs
  rw [sendPending, Proc.bind_run, Proc.attempt]
  rcases hready : readyToSend p fs with ⟨e | ⟨q, oldCopyExists⟩, fs₁⟩
  · exact ⟨(e, p), fs₁, rfl, .refl p⟩
  · obtain ⟨a, fs', hrun, hsame⟩ := @deliver_returns σ E _ q oldCopyExists fs₁
    exact ⟨a, fs', hrun, (readyToSend_yields p fs _ fs₁ hready).trans hsame⟩

/-- An entry whose spool file took only part of a write is not sent, and the device
is asked nothing. -/
theorem sendPending_broken {rc : Int} (hbroken : p.broken = some rc) (fs : Fs σ) :
    (sendPending p : Proc E (Fs σ) (Int × Pending)) fs = (.ok (-rc, p), fs) := by
  have hready : readyToSend p fs = (.error (-rc), fs) := by
    rw [readyToSend, Proc.bind_ok (Proc.get_run _), hbroken]
    rfl
  rw [sendPending, Proc.bind_run, Proc.attempt, hready]
  rfl

/-- **A send leaves the entries and the spool files alone.** -/
theorem sendPending_keeps {R : Mtp σ → Mtp σ → Prop} (hR : Chains R)
    (hinfo : Proc.Steps R (Mtp.storageInfo : Proc Error (Mtp σ) (Nat × Nat)))
    (hrename : ∀ h name, Proc.Steps R (Mtp.renameObject h name))
    (hdelete : ∀ old, p.replaces = some old → Proc.Steps R (Mtp.deleteObject old))
    (hsend : Proc.Steps R (Mtp.sendObjectStream p.parent p.name
      (readerOf fs.host.reading (fs.spoolBytes p.spool)) p.size)) :
    Keeps R fs ((sendPending p : Proc E (Fs σ) (Int × Pending)) fs).2 := by
  have hready := readyToSend_keeps hR hinfo hrename p hdelete fs
  rw [sendPending, Proc.bind_run, Proc.attempt]
  rcases hrun : readyToSend p fs with ⟨e | ⟨q, oldCopyExists⟩, fs₁⟩
  · rw [hrun] at hready
    exact hready
  · rw [hrun] at hready
    have hfile := readyToSend_yields p fs _ fs₁ hrun
    have hless : ∀ old, q.replaces = some old → Proc.Steps R (Mtp.deleteObject old) := by
      intro old hold
      rcases readyToSend_replaces p fs _ fs₁ hrun with hsame | hnone
      · exact hdelete old (hsame ▸ hold)
      · exact absurd (hnone.symm.trans hold) (Option.some_ne_none old).symm
    refine hready.trans hR (deliver_keeps hR hrename hless ?_ oldCopyExists)
    rw [hfile.parent, hfile.name, hfile.spool, hfile.size, hready.host, spoolBytes, hready.disk]
    exact hsend

end Send

end Fs

end Bsdroid
