import Bsdroid.Cellphone.Places
import Bsdroid.Mtpfs.Kinds
import Bsdroid.Mtpfs.ListedNames
import Bsdroid.Mtpfs.Readers
import Bsdroid.Mtpfs.Replacing

/-!
# What a call can destroy

A delete of a folder takes everything below it.  `op_rmdir` and a rename onto a folder
check the kind of the object at most, and not whether the folder is empty, so each takes the files
of that folder with it.  Nothing else that a call removes is a folder.

What a call is asked to remove is the object that the device has at its path.  The call takes the
handle from the tree, and a listing that a failed rename left in it names another object than the
device does.  Where the listings on the way of its paths are right, and the folder that it removes
holds no file, a call leaves every file that it was not asked to remove.
-/

namespace Bsdroid

namespace Store

variable {s : Store} {h k : UInt32} {c : Content}

/-- A folder holds no file, at any depth. -/
def HoldsNoFile (s : Store) (h : UInt32) : Prop :=
  ∀ k c, k ∈ s.objects.below h → k ≠ h → ¬ s.HasFile k c

theorem HasFile.remove_outside (hk : s.HasFile k c) (hout : k ∉ s.objects.below h) :
    (s.remove h).HasFile k c := by
  obtain ⟨x, hx, hrest⟩ := hk
  refine ⟨x, ?_, hrest⟩
  rw [find_remove, if_neg hout]
  exact hx

/-- A file is no folder. -/
theorem HasFile.ne_of_folder (hk : s.HasFile k c) (hh : s.Kind h true) : k ≠ h := by
  intro hsame
  subst hsame
  obtain ⟨x, hx, hfile, -⟩ := hk
  have hfolder := hh.kind x hx
  rw [hfile] at hfolder
  cases hfolder

end Store

namespace Mtp

variable {m m' : Mtp Phone} {h k : UInt32} {c : Content} {P : Store → Prop}

/-- A property of the objects stays. -/
def Holds (P : Store → Prop) (m m' : Mtp Phone) : Prop := P m.session.store → P m'.session.store

theorem chains_holds (P : Store → Prop) : Fs.Chains (Holds P) where
  refl _ h := h
  trans h h' hP := h' (h hP)

theorem takes_holds {Q : Request → Prop}
    (hexec : ∀ (p : Phone) r, Q r → P p.store → P (Phone.exec r p).2.store) :
    Takes Q (Holds P) where
  toChains := chains_holds P
  exec r hr m hP := hexec m.session r hr hP
  cache _ _ h := h

/-- What a delete does not reach stays. -/
theorem hasFile_deleteObject (hk : m.session.store.HasFile k c)
    (hout : k ∉ m.session.store.objects.below h) :
    (deleteObject h m).2.session.store.HasFile k c := by
  rw [session_deleteObject]
  rcases Phone.exec_delete m.session h with hsame | ⟨-, hgone⟩
  · rw [hsame]
    exact hk
  · rw [hgone]
    exact hk.remove_outside hout

/-- A rename leaves every object in its place. -/
theorem renameObject_placed {name : Str} (hrun : renameObject h name m = (.ok (), m')) :
    Store.SamePlaces m.session.store m'.session.store := by
  rw [(renameObject_of_ok hrun).2.store]
  exact Store.samePlaces_rename h name

/-- A file outlives every operation but a delete. -/
theorem exec_hasFile (p : Phone) {r : Request} (hr : r.code ≠ Op.deleteObject ∧ r.code ≠ Op.sendObject)
    (hk : p.store.HasFile k c) : (Phone.exec r p).2.store.HasFile k c :=
  (Phone.exec_stays p hr.1 hr.2).hasFile hk

end Mtp

namespace Fs

variable {fs fs' fs₁ : Fs Phone} {k h : UInt32} {c : Content} {path : Str}

/-! ## Walks -/

theorem knows_resolved {a : Except Int UInt32} (hknows : KnowsKinds fs)
    (hrun : resolved path fs = (a, fs')) : KnowsKinds fs' := by
  have hwalk := learns_kinds.looks.resolved path fs hknows
  rw [hrun] at hwalk
  exact hwalk

/-- What a walk finds is the root, or the tree knows it. -/
theorem entry_of_resolved (hknows : KnowsKinds fs) (hrun : resolved path fs = (.ok h, fs')) :
    h = root ∨ ∃ e, fs'.tree.get h = some e := by
  have hknows' := knows_resolved hknows hrun
  have hlookup : fs'.tree.lookup path = .found h := by
    rw [resolved] at hrun
    obtain ⟨found, fs₁, hfound, hrun⟩ := Proc.bind_eq_ok hrun
    cases found with
    | none => cases hrun
    | some k =>
        cases hrun
        exact lookup_of_resolveIn hfound
  have hkeyed : fs'.tree.Keyed := fun k e he => (hknows' k e he).1
  have hall : ∀ parts q, (q = root ∨ ∃ e, fs'.tree.get q = some e) →
      fs'.tree.lookupFrom q parts = .found h → h = root ∨ ∃ e, fs'.tree.get h = some e := by
    intro parts
    induction parts with
    | nil =>
        intro q hq hfound
        cases hfound
        exact hq
    | cons part parts ih =>
        intro q _ hfound
        rw [Tree.lookupFrom] at hfound
        split at hfound
        · split at hfound
          · rename_i e hchild
            obtain ⟨-, hentry⟩ := Tree.childrenNamed_eq_some hkeyed hchild
            exact ih e.handle (.inr ⟨e, hentry⟩) hfound
          · cases hfound
        · cases hfound
  exact hall (splitPath path) root (.inl rfl) hlookup

/-- The device gives no handle that stands for every object. -/
theorem found_of_resolved (hknows : KnowsKinds fs) (hrun : resolved path fs = (.ok h, fs')) :
    h ≠ 0xffffffff := by
  rcases entry_of_resolved hknows hrun with rfl | ⟨e, he⟩
  · decide
  · exact (knows_resolved hknows hrun h e he).2.single

/-! ## A removal -/

/-- A removal leaves what is not below the object it removes. -/
theorem removeObject_spares {wantDir : Bool} (hk : fs.store.HasFile k c)
    (hout : ∀ h fs₁ e, resolved path fs = (.ok h, fs₁) → h ≠ root → fs₁.tree.get h = some e →
      e.isDir = wantDir → k ∉ fs.store.objects.below h) :
    (removeObject path wantDir fs).2.store.HasFile k c := by
  rw [removeObject, Proc.bind_run]
  rcases hrun : resolved path fs with ⟨rc | h, fs₁⟩
  · have hsame := store_resolved hrun
    dsimp only
    rw [hsame]
    exact hk
  have hk₁ : fs₁.store.HasFile k c := by
    rw [store_resolved hrun]
    exact hk
  dsimp only
  by_cases hroot : h = root
  · rw [if_pos hroot]
    exact hk₁
  rw [if_neg hroot, Proc.bind_ok (Proc.get_run _)]
  cases hentry : fs₁.tree.get h with
  | none => exact hk₁
  | some e =>
      dsimp only
      by_cases hdir : e.isDir = wantDir
      · rw [if_neg fun hne => hne hdir, Proc.bind_ok (tryMtp_run _ _)]
        have hgone := hout h fs₁ e hrun hroot hentry hdir
        rw [← store_resolved hrun] at hgone
        have hleft : (Mtp.deleteObject h fs₁.mtp).2.session.store.HasFile k c :=
          Mtp.hasFile_deleteObject hk₁ hgone
        rcases hdelete : Mtp.deleteObject h fs₁.mtp with ⟨err | u, m⟩
        · rw [hdelete] at hleft
          exact hleft
        · rw [hdelete] at hleft
          exact hleft
      · rw [if_pos hdir]
        exact hk₁

/-! ## A send -/

/-- What a send keeps of a device: a file it was not asked to replace, and the kind of the object
that it replaces. -/
def Beside (k : UInt32) (c : Content) (p : Pending) (s : Store) : Prop :=
  s.HasFile k c ∧ ∀ old, p.replaces = some old → s.Kind old false

theorem exec_beside {p : Pending} (phone : Phone) (r : Request)
    (hr : r.code ≠ Op.deleteObject ∧ r.code ≠ Op.sendObject) (h : Beside k c p phone.store) :
    Beside k c p (Phone.exec r phone).2.store :=
  ⟨Mtp.exec_hasFile phone hr h.1, fun old hold => (Phone.exec_served phone r).change.kind (h.2 old hold)⟩

/-- **A send leaves every file but the one it replaces.** -/
theorem sendPending_spares {E : Type} {p : Pending} {a : Except E (Int × Pending)}
    (hrun : (sendPending p : Proc E (Fs Phone) _) fs = (a, fs')) (hk : fs.store.HasFile k c)
    (hkind : ∀ old, p.replaces = some old → fs.store.Kind old false)
    (hother : p.replaces ≠ some k) : fs'.store.HasFile k c := by
  have htakes := Mtp.takes_holds (P := Beside k c p)
    (Q := fun r => r.code ≠ Op.deleteObject ∧ r.code ≠ Op.sendObject) exec_beside
  have hdelete : ∀ old, p.replaces = some old →
      Proc.Steps (Mtp.Holds (Beside k c p)) (Mtp.deleteObject old) := by
    intro old hold m hboth
    obtain ⟨hfile, hkinds⟩ := hboth
    refine ⟨Mtp.hasFile_deleteObject hfile fun hbelow => hother ?_, fun old' hold' => ?_⟩
    · rw [(hkinds old hold).below hbelow]
      exact hold
    · exact Mtp.takes_kinds.deleteObject (fun _ _ => trivial) old m _ _ (hkinds old' hold')
  have hstream : Proc.Steps (Mtp.Holds (Beside k c p)) (Mtp.sendObjectStream p.parent p.name
      (readerOf fs.host.reading (fs.spoolBytes p.spool)) p.size) := by
    intro m hboth
    obtain ⟨hfile, hkinds⟩ := hboth
    refine ⟨((Mtp.sendObjectStream_ends _ _ _ _ m).1 k c hfile).last, fun old hold => ?_⟩
    exact Mtp.takes_kinds.sendObjectStream (fun _ _ => trivial) trivial m _ _ (hkinds old hold)
  have hkeeps := sendPending_keeps (E := E) htakes.toChains
    (htakes.storageInfo fun _ _ => Mtp.codes_of_question Op.getStorageInfo (by decide))
    (htakes.renameObject fun _ _ _ => Mtp.codes_of_rename) hdelete hstream
  rw [hrun] at hkeeps
  exact (hkeeps.device ⟨hk, hkind⟩).1

/-! ## The calls that ask -/

theorem asking_spares (hread : fs.mtp.partialRead ∈ Mtp.readsOnly) {call : Call}
    (hasks : call.asks = true) : (call.number fs).2.store = fs.store :=
  (asking_device Mtp.reads_unmoved.toChains Mtp.reads_unmoved.list Mtp.reads_unmoved.readAt
    (fun m _ => Mtp.storageInfo_same m) hasks fs hread).store

/-- A new folder takes nothing away. -/
theorem opMkdir_spares (hk : fs.store.HasFile k c) : (opMkdir path fs).2.store.HasFile k c := by
  have htakes := Mtp.takes_holds (P := fun s => s.HasFile k c)
    (Q := fun r => r.code ≠ Op.deleteObject ∧ r.code ≠ Op.sendObject)
    fun p r hr h => Mtp.exec_hasFile p hr h
  have hsend : ∀ parent name, Proc.Steps (Mtp.Holds fun s => s.HasFile k c)
      (Mtp.sendObject parent name [] true : Proc Error (Mtp Phone) UInt32) := by
    intro parent name
    unfold Mtp.sendObject
    rw [if_neg (show ¬ ([] : Bytes).length > maxPayloadLen from Nat.not_lt_zero _)]
    intro m
    rw [Proc.bind_ok (Proc.get_run _)]
    exact htakes.announces Mtp.codes_of_info fun handle => .pure htakes.refl _
  rw [opMkdir]
  dsimp only
  by_cases hname : (splitParent path).2.isEmpty
  · rw [if_pos hname]
    exact hk
  rw [if_neg hname, Proc.bind_run]
  rcases hrun : resolved (splitParent path).1 fs with ⟨rc | parent, fs₁⟩
  · dsimp only
    rw [store_resolved hrun]
    exact hk
  · dsimp only
    rw [Proc.bind_ok (tryMtp_run _ _)]
    have hsent := hsend parent (splitParent path).2 fs₁.mtp
    have hk₁ : fs₁.store.HasFile k c := by
      rw [store_resolved hrun]
      exact hk
    have hleft := hsent hk₁
    rcases hfolder : Mtp.sendObject parent (splitParent path).2 [] true fs₁.mtp
      with ⟨e | handle, m⟩
    · rw [hfolder] at hleft
      exact hleft
    · rw [hfolder] at hleft
      exact hleft

/-! ## A close, and a change of the size -/

/-- A call that can send an entry. -/
def Call.delivers : Call → Bool
  | .truncate _ _ => true
  | .flush _ _ => true
  | .release _ _ => true
  | _ => false

/-- Such a call sends an entry, or leaves the device as it is. -/
theorem sends_or_same (hread : fs.mtp.partialRead ∈ Mtp.readsOnly) {call : Call}
    (hdelivers : call.delivers = true) :
    (call.number fs).2.store = fs.store ∨
      ∃ p fs' q fs₁, Sends fs call p fs' q fs₁ ∧ Mtp.SameDevice fs.mtp fs'.mtp := by
  cases call with
  | flush path fi =>
      cases hfi : fhWrites fi with
      | false => exact .inl (congrArg (fun a => a.2.store) (opFlush_reader hfi))
      | true =>
          cases hp : fs.pending path with
          | none => exact .inl (congrArg (fun a => a.2.store) (opFlush_none hfi hp))
          | some p =>
              cases hsent : p.sent with
              | some rc => exact .inl (congrArg (fun a => a.2.store) (opFlush_sent hfi hp hsent))
              | none =>
                  obtain ⟨rc, q, fs₁, hsend, -⟩ := opFlush_unsent hfi hp hsent
                  exact .inr ⟨p, _, q, fs₁, .flush hfi hp hsent hsend, .refl _⟩
  | release path fi =>
      cases hfi : fhWrites fi with
      | false => exact .inl (congrArg (fun a => a.2.store) (opRelease_reader hfi))
      | true =>
          cases hp : fs.pending path with
          | none => exact .inl (congrArg (fun a => a.2.store) (opRelease_none hfi hp))
          | some p =>
              cases hsent : p.sent with
              | some rc =>
                  left
                  show (opRelease path fi fs).2.store = _
                  rw [opRelease_sent hfi hp hsent, store, mtp_dropped]
                  rfl
              | none =>
                  obtain ⟨rc, q, fs₁, hsend, -⟩ := opRelease_unsent hfi hp hsent
                  exact .inr ⟨p, _, q, fs₁, .release hfi hp hsent hsend, .refl _⟩
  | truncate path size =>
      show (opTruncate path size fs).2.store = _ ∨ _
      cases hp : fs.pending path with
      | some p =>
          left
          rw [opTruncate_entry hp]
          by_cases hresizes : fs.host.resizes = true
          · rw [if_pos hresizes]
            rfl
          · rw [if_neg hresizes]
      | none =>
          have hchains := Mtp.reads_unmoved.toChains
          rcases opTruncate_free hchains Mtp.reads_unmoved.list Mtp.reads_unmoved.readAt hp size with
            hkeeps | ⟨handle, entry, fs₁, hreaches, hmore⟩
          · exact .inl (hkeeps.device hread).store
          have hadopt := adoptForWrite_cases hchains Mtp.reads_unmoved.readAt hreaches.free_still
            handle entry (size > 0)
          rcases hmore with ⟨rc, fs₂, hadopts, hrun⟩ | ⟨p, fs₂, hadopts, hp₂, hmore⟩
          · left
            rw [hadopts] at hadopt
            rw [hrun]
            cases hadopt with
            | refused hkeeps =>
                exact (hchains.trans hreaches.keeps.device hkeeps.device hread).store
            | stray hcopy hfills =>
                exact (hchains.trans hreaches.keeps.device hfills.device hread).store
          · have hsame : Mtp.SameDevice fs.mtp fs₂.mtp := by
              rw [hadopts] at hadopt
              cases hadopt with
              | made hfills hdisk hempty =>
                  exact hchains.trans hreaches.keeps.device hfills.device hread
            rcases hmore with ⟨-, hrun⟩ | ⟨hresizes, rc, q, fs₃, hsend, -⟩
            · rw [hrun]
              exact .inl hsame.store
            · exact .inr ⟨_, _, q, fs₃, .truncate hp hreaches.resolved hreaches.found hreaches.file
                hadopts hp₂ hresizes hsend, hsame⟩
  | _ => cases hdelivers

/-- An entry that `op_truncate` makes replaces the file that it found. -/
theorem replaces_of_adopts {handle : UInt32} {entry : Entry} {keep : Bool} {p : Pending}
    (hfree : fs.pending path = none)
    (hadopts : adoptForWrite path handle entry keep fs = (.ok (), fs'))
    (hp : fs'.pending path = some p) : p.replaces = some handle := by
  have hadopt := adoptForWrite_cases Mtp.reads_unmoved.toChains Mtp.reads_unmoved.readAt hfree handle
    entry keep
  rw [hadopts] at hadopt
  cases hadopt with
  | made hfills hdisk hempty =>
      cases (Function.update_self path _ _).symm.trans hp
      rfl

/-- What a send replaces is a file. -/
theorem Sends.replaces_file {call : Call} {p q : Pending} {old : UInt32}
    (hsends : Sends fs call p fs' q fs₁) (hinformed : Informed fs)
    (hsame : Mtp.SameDevice fs.mtp fs'.mtp) (hold : p.replaces = some old) :
    fs'.store.Kind old false := by
  rw [store, hsame.store]
  cases hsends with
  | flush hfi hp hsent hsend => exact hinformed.replaces _ p old hp hold
  | release hfi hp hsent hsend => exact hinformed.replaces _ p old hp hold
  | truncate hfree hresolved hentry hdir hadopts hp hresizes hsend =>
      have hreplaces := replaces_of_adopts (pending_resolved hresolved ▸ hfree) hadopts hp
      cases hreplaces.symm.trans hold
      have hkind := (knows_resolved hinformed.knows hresolved _ _ hentry).2
      rw [hdir, store, (device_resolved hresolved).store] at hkind
      exact hkind

/-! ## A rename -/

section Rename

variable {source target newName : Str} {handle o d taken : UInt32} {s : Store}

/-- The device has an object at the path of a rename, the two folders, and another object at the
new path. -/
structure Onto (fs : Fs Phone) (source target : Str) (handle o d taken : UInt32) : Prop where
  object : handle ≠ root
  other : taken ≠ handle
  named : (splitParent target).2 ≠ []
  atSource : fs.names source = some handle
  oldDir : fs.names (splitParent source).1 = some o
  newDir : fs.names (splitParent target).1 = some d
  atTarget : fs.names target = some taken

/-- The tree shows the ways that a rename walks. -/
structure ShowsRename (fs : Fs Phone) (source target : Str) : Prop where
  atSource : Shown fs source
  oldDir : Shown fs (splitParent source).1
  newDir : Shown fs (splitParent target).1
  atTarget : Shown fs target

/-- The name that the tree holds of an object. -/
def nameOf (fs : Fs Phone) (handle : UInt32) : Str :=
  ((fs.tree.get handle).map Entry.name).getD []

/-- The objects once a rename put its object into the new folder, where it can. -/
def crossed (fs : Fs Phone) (handle o d : UInt32) : Option Store :=
  if d = o then some fs.store
  else if fs.mtp.canMove then fs.store.move handle d
  else none

/-- The device may rename the object to a name, unless the object has it already. -/
def MayName (fs : Fs Phone) (handle : UInt32) (name : Str) : Prop :=
  ∀ x, fs.store.find handle = some x → x.name ≠ name → fs.mtp.canRename = true

/-- The tree has the name of an object that it tells of. -/
theorem nameOf_of_tells {x : Object} (h : Tells fs x) : fs.nameOf x.key = x.name := by
  obtain ⟨e, he, hshows⟩ := h
  rw [nameOf, he]
  exact hshows.name

/-- The walks of a rename, where the tree shows their ways: they find what the device has at the
paths, and the tree has the name of the object. -/
theorem onto_of_walks {fs₂ fs₃ fs₄ : Fs Phone} (hshows : ShowsRename fs source target)
    (hobject : handle ≠ root) (hother : taken ≠ handle) (hnamed : (splitParent target).2 ≠ [])
    (hsource : resolved source fs = (.ok handle, fs₁))
    (hold : resolved (splitParent source).1 fs₁ = (.ok o, fs₂))
    (hnew : resolved (splitParent target).1 fs₂ = (.ok d, fs₃))
    (htarget : (resolve target : Proc Int (Fs Phone) _) fs₃ = (.ok (some taken), fs₄)) :
    Onto fs source target handle o d taken ∧
      ∃ x, fs.store.find handle = some x ∧ fs₄.nameOf handle = x.name := by
  obtain ⟨h₁, hsource', hread⟩ := looked_of_resolved hshows.atSource hsource
  obtain ⟨h₂, hold', -⟩ := looked_of_resolved (h₁.keeps_shown hshows.oldDir) hold
  have h₁₂ := h₁.trans h₂
  obtain ⟨h₃, hnew', -⟩ := looked_of_resolved (h₁₂.keeps_shown hshows.newDir) hnew
  have h₁₃ := h₁₂.trans h₃
  obtain ⟨h₄, hfound⟩ := looked_of_resolve (h₁₃.keeps_shown hshows.atTarget) htarget
  have htarget' := (hfound taken rfl).1
  rw [h₁.names] at hold'
  rw [h₁₂.names] at hnew'
  rw [h₁₃.names] at htarget'
  refine ⟨⟨hobject, hother, hnamed, hsource', hold', hnew', htarget'⟩, ?_⟩
  have hread₁ : ∀ r ∈ fs₁.store.asked root (splitPath source), fs₁.tree.listed r = true := by
    rw [h₁.store]
    exact hread
  rcases tells_of_read (h₁.keeps_shown hshows.atSource) hread₁ ((h₁.names source).trans hsource') with
    hroot | ⟨x, hx, htells⟩
  · exact absurd hroot hobject
  · have hkey := Store.find_key hx
    have htells₄ : Tells fs₄ x := by
      apply ((h₂.trans h₃).trans h₄).tells x _ htells
      rw [hkey]
      exact hx
    refine ⟨x, h₁.store ▸ hx, ?_⟩
    rw [← hkey]
    exact nameOf_of_tells htells₄

/-- Between two states of a rename the objects keep their places, the tree its objects, and the mount
what it knows of the device. -/
structure Placed (fs fs' : Fs Phone) : Prop where
  places : Store.SamePlaces fs.store fs'.store
  entries : fs'.tree.entries = fs.tree.entries
  info : fs'.mtp.info = fs.mtp.info

theorem crossed_placed (hplaces : Store.SamePlaces fs.store fs'.store)
    (hinfo : fs'.mtp.info = fs.mtp.info) (hs : fs'.crossed handle o d = some s) :
    ∃ s₀, fs.crossed handle o d = some s₀ ∧ Store.SamePlaces s₀ s := by
  unfold crossed at hs ⊢
  by_cases hstays : d = o
  · rw [if_pos hstays] at hs ⊢
    cases hs
    exact ⟨fs.store, rfl, hplaces⟩
  · rw [if_neg hstays] at hs ⊢
    rw [Mtp.canMove, hinfo] at hs
    by_cases hcan : fs.mtp.canMove = true
    · rw [if_pos hcan]
      rw [Mtp.canMove] at hcan
      rw [if_pos hcan] at hs
      exact hplaces.move hs
    · rw [Mtp.canMove] at hcan
      rw [if_neg hcan] at hs
      cases hs

theorem hasFile_crossed (hk : fs.store.HasFile k c) (hs : fs.crossed handle o d = some s) :
    s.HasFile k c := by
  unfold crossed at hs
  split at hs
  · cases hs
    exact hk
  · split at hs
    · exact (Store.stays_move hs).hasFile hk
    · cases hs

/-- The object that moved aside is the one that the walk found. -/
theorem clearTarget_removes
    (hrun : clearTarget target newName handle d fs = (.ok (some (some taken)), fs')) :
    ∃ fs₁, (resolve target : Proc Int (Fs Phone) _) fs = (.ok (some taken), fs₁) ∧
      taken ≠ handle ∧ Placed fs₁ fs' := by
  rw [clearTarget] at hrun
  obtain ⟨found, fs₁, hresolve, hrun⟩ := Proc.bind_eq_ok hrun
  cases found with
  | none => cases hrun
  | some t =>
      dsimp only at hrun
      by_cases hself : t = handle
      · rw [if_pos hself] at hrun
        cases hrun
      · rw [if_neg hself] at hrun
        by_cases hroot : t = root
        · rw [if_pos hroot] at hrun
          cases hrun
        · rw [if_neg hroot, Proc.bind_ok asideName_run, Proc.bind_ok (tryMtp_run _ _)] at hrun
          rcases hrename : Mtp.renameObject t (asideOf newName fs₁.spoolCount) fs₁.mtp
            with ⟨e | ⟨⟩, m⟩
          · rw [hrename] at hrun
            cases hrun
          · rw [hrename] at hrun
            cases hrun
            obtain ⟨-, hturned⟩ := Mtp.renameObject_of_ok hrename
            exact ⟨fs₁, hresolve, hself, Mtp.renameObject_placed hrename, rfl, hturned.info⟩

theorem moveAcross_crosses (hd : d ≠ 0xffffffff)
    (hrun : moveAcross handle o d fs = (.ok (), fs')) :
    ∃ s, fs.crossed handle o d = some s ∧ fs'.store = s ∧ fs'.tree = fs.tree ∧
      fs'.mtp.info = fs.mtp.info := by
  rw [moveAcross, Proc.bind_ok (Proc.get_run _)] at hrun
  by_cases hstays : d = o
  · rw [if_neg fun hne => hne hstays] at hrun
    cases hrun
    exact ⟨fs.store, if_pos hstays, rfl, rfl, rfl⟩
  · rw [if_pos hstays] at hrun
    by_cases hcan : fs.mtp.canMove = true
    · rw [if_pos hcan, Proc.bind_ok (tryMtp_run _ _)] at hrun
      rcases hmove : Mtp.moveObject handle d fs.mtp with ⟨e | ⟨⟩, m⟩
      · rw [hmove] at hrun
        cases hrun
      · rw [hmove] at hrun
        cases hrun
        obtain ⟨s, hs, hturned⟩ := Mtp.moveObject_of_ok hd hmove
        refine ⟨s, ?_, hturned.store, rfl, hturned.info⟩
        rw [crossed, if_neg hstays, if_pos hcan]
        exact hs
    · rw [if_neg hcan] at hrun
      cases hrun

theorem renameInPlace_placed {aside : Option UInt32}
    (hrun : renameInPlace handle d newName aside fs = (.ok (), fs')) :
    Placed fs fs' ∧ (fs.nameOf handle ≠ newName → fs.mtp.canRename = true) := by
  rw [renameInPlace, Proc.bind_ok (Proc.get_run _)] at hrun
  dsimp only at hrun
  by_cases hname : fs.nameOf handle = newName
  · rw [nameOf] at hname
    rw [if_neg fun hne => hne hname] at hrun
    cases hrun
    exact ⟨⟨.refl _, rfl, rfl⟩, fun hne => absurd hname hne⟩
  · rw [nameOf] at hname
    rw [if_pos hname] at hrun
    by_cases hcan : fs.mtp.canRename = true
    · rw [if_pos hcan, Proc.bind_ok (tryMtp_run _ _)] at hrun
      rcases hrename : Mtp.renameObject handle newName fs.mtp with ⟨e | ⟨⟩, m⟩
      · rw [hrename] at hrun
        cases aside with
        | none => cases hrun
        | some old => cases hrun
      · rw [hrename] at hrun
        cases hrun
        obtain ⟨-, hturned⟩ := Mtp.renameObject_of_ok hrename
        exact ⟨⟨Mtp.renameObject_placed hrename, rfl, hturned.info⟩, fun _ => hcan⟩
    · rw [if_neg hcan] at hrun
      cases hrun

/-- What a rename deletes at its end holds no file that the rename has to leave. -/
theorem out_of_removed {fs₁ fs₂ fs₃ fs₅ fs₆ fs₇ : Fs Phone} (hknows : KnowsKinds fs)
    (hshows : ShowsRename fs source target) (hk : fs.store.HasFile k c)
    (hother : ∀ handle o d taken, Onto fs source target handle o d taken → k ≠ taken)
    (hempty : ∀ handle o d taken s, Onto fs source target handle o d taken →
      MayName fs handle (splitParent target).2 → fs.crossed handle o d = some s →
        s.HoldsNoFile taken)
    (hroot : handle ≠ root) (hnamed : (splitParent target).2 ≠ [])
    (hsource : resolved source fs = (.ok handle, fs₁))
    (hold : resolved (splitParent source).1 fs₁ = (.ok o, fs₂))
    (hnew : resolved (splitParent target).1 fs₂ = (.ok d, fs₃))
    (h₃ : Mtp.SameDevice fs.mtp fs₃.mtp)
    (hclear : clearTarget target (splitParent target).2 handle d fs₃ = (.ok (some (some taken)), fs₅))
    (hacross : moveAcross handle o d fs₅ = (.ok (), fs₆))
    (hplace : renameInPlace handle d (splitParent target).2 (some taken) fs₆ = (.ok (), fs₇)) :
    k ∉ fs₇.store.objects.below taken := by
  obtain ⟨fs₄, htarget, hne, hcleared⟩ := clearTarget_removes hclear
  obtain ⟨honto, x, hx, hnameOf⟩ :=
    onto_of_walks hshows hroot hne hnamed hsource hold hnew htarget
  have hdevice : Mtp.SameDevice fs.mtp fs₄.mtp := h₃.trans (device_resolve htarget)
  have hd : d ≠ 0xffffffff := found_of_resolved
    (knows_resolved (knows_resolved hknows hsource) hold) hnew
  obtain ⟨s₆, hs₆, hstore₆, htree₆, hinfo₆⟩ := moveAcross_crosses hd hacross
  obtain ⟨hplaced, hcan⟩ := renameInPlace_placed hplace
  have hplaces : Store.SamePlaces fs.store fs₅.store := by
    have hsame : fs₄.store = fs.store := hdevice.store
    exact hsame ▸ hcleared.places
  obtain ⟨s, hs, hsame⟩ := crossed_placed hplaces (hcleared.info.trans hdevice.info) hs₆
  have hname : fs₆.nameOf handle = fs₄.nameOf handle := by
    rw [nameOf, nameOf, htree₆, Tree.get, Tree.get, hcleared.entries]
  have hmay : MayName fs handle (splitParent target).2 := by
    intro y hy hdiffers
    cases hx.symm.trans hy
    have hcan₆ := hcan (by rw [hname, hnameOf]; exact hdiffers)
    rw [Mtp.canRename, hinfo₆, hcleared.info, hdevice.info] at hcan₆
    exact hcan₆
  have hnone := hempty handle o d taken s honto hmay hs
  intro hbelow
  have hsame₇ : Store.SamePlaces s fs₇.store := hsame.trans (hstore₆ ▸ hplaced.places)
  exact hnone k c (hsame₇.symm.below k hbelow) (hother handle o d taken honto)
    (hasFile_crossed hk hs)

/-- **A rename leaves every file** but the one that it renames onto, when a folder that has the new
name holds no file once the object is in its new folder. -/
theorem opRename_spares (hknows : KnowsKinds fs) (hshows : ShowsRename fs source target)
    (hk : fs.store.HasFile k c)
    (hother : ∀ handle o d taken, Onto fs source target handle o d taken → k ≠ taken)
    (hempty : ∀ handle o d taken s, Onto fs source target handle o d taken →
      MayName fs handle (splitParent target).2 → fs.crossed handle o d = some s →
        s.HoldsNoFile taken) :
    (opRename source target fs).2.store.HasFile k c := by
  have htakes := Mtp.takes_holds (P := fun s => s.HasFile k c)
    (Q := fun r => r.code ≠ Op.deleteObject ∧ r.code ≠ Op.sendObject)
    fun p r hr h => Mtp.exec_hasFile p hr h
  have hchains := htakes.toChains
  have hlist := (htakes.asks (fun _ _ => Mtp.codes_of_question) fun _ h => h).list
  have hrename := htakes.renameObject fun _ _ _ => Mtp.codes_of_rename
  have hmove := htakes.moveObject fun _ _ => Mtp.codes_of_move
  rcases opRename_cases source target fs with
    ⟨rc, fs', hrun, hdevice⟩ | ⟨handle, o, d, fs₁, fs₂, fs₃, hroot, hnamed, hsource, hold, hnew, h₃⟩
  · rw [hrun]
    dsimp only
    rw [store, hdevice.store]
    exact hk
  have hk₃ : fs₃.store.HasFile k c := by
    rw [store, h₃.store]
    exact hk
  rw [opRename_relocates hroot hnamed hsource hold hnew, relocate, Proc.bind_run]
  have h₅ := (clearTarget_keeps hchains hlist hrename target (splitParent target).2 handle d
    fs₃).device hk₃
  rcases hclear : clearTarget target (splitParent target).2 handle d fs₃ with ⟨rc | a, fs₅⟩
  · rw [hclear] at h₅
    exact h₅
  rw [hclear] at h₅
  dsimp only
  cases a with
  | none => exact h₅
  | some aside =>
      dsimp only
      rw [Proc.bind_run]
      have h₆ := (moveAcross_keeps hchains hmove handle o d fs₅).device h₅
      rcases hacross : moveAcross handle o d fs₅ with ⟨rc | ⟨⟩, fs₆⟩
      · rw [hacross] at h₆
        exact h₆
      rw [hacross] at h₆
      dsimp only
      rw [Proc.bind_run]
      have h₇ := (renameInPlace_keeps hchains hrename handle d (splitParent target).2 aside
        fs₆).device h₆
      rcases hplace : renameInPlace handle d (splitParent target).2 aside fs₆ with ⟨rc | ⟨⟩, fs₇⟩
      · rw [hplace] at h₇
        exact h₇
      rw [hplace] at h₇
      dsimp only
      cases aside with
      | none => exact h₇
      | some taken =>
          -- From here on the object at the target is another one, and goes.
          have hout := out_of_removed hknows hshows hk hother hempty hroot hnamed hsource hold hnew
            h₃ hclear hacross hplace
          exact Mtp.hasFile_deleteObject h₇ hout

end Rename

/-! ## Every call of a run -/

/-- The object that a call is asked to remove: the one that the device has at the path of
`op_unlink` and of `op_truncate`, the one that an entry replaces, and the file at the new path of
a rename. -/
inductive Asked (fs : Fs Phone) : Call → UInt32 → Prop
  | unlink {path : Str} {h : UInt32} (hpath : fs.names path = some h) : Asked fs (.unlink path) h
  | rename {source target : Str} {taken : UInt32} {c : Content}
      (hpath : fs.names target = some taken) (hfile : fs.store.HasFile taken c) :
      Asked fs (.rename source target) taken
  | flush {path : Str} {fi : Option Nat} {p : Pending} {old : UInt32} (hfi : fhWrites fi = true)
      (hp : fs.pending path = some p) (hsent : p.sent = none) (hold : p.replaces = some old) :
      Asked fs (.flush path fi) old
  | release {path : Str} {fi : Option Nat} {p : Pending} {old : UInt32} (hfi : fhWrites fi = true)
      (hp : fs.pending path = some p) (hsent : p.sent = none) (hold : p.replaces = some old) :
      Asked fs (.release path fi) old
  | truncate {path : Str} {size : Nat} {h : UInt32} (hfree : fs.pending path = none)
      (hpath : fs.names path = some h) : Asked fs (.truncate path size) h

/-- The listings on the ways of the paths of a call that removes something are what the device
holds. -/
def ShowsWays (fs : Fs Phone) : Call → Prop
  | .unlink path => Shown fs path
  | .rmdir path => Shown fs path
  | .truncate path _ => fs.pending path = none → Shown fs path
  | .rename source target => ShowsRename fs source target
  | _ => True

/-- The folder that a call removes holds no file: for `op_rmdir` the folder at the path, and for a
rename whatever has the new name, once the object it renames is in its new folder. -/
def RemovesEmpty (fs : Fs Phone) : Call → Prop
  | .rmdir path => ∀ h, fs.names path = some h → h ≠ root → fs.store.HoldsNoFile h
  | .rename source target => ∀ handle o d taken s, Onto fs source target handle o d taken →
      MayName fs handle (splitParent target).2 → fs.crossed handle o d = some s →
        s.HoldsNoFile taken
  | _ => True

/-- A call that removes nothing else: its ways are shown, and its folder holds no file. -/
structure Careful (fs : Fs Phone) (call : Call) : Prop where
  shown : ShowsWays fs call
  empty : RemovesEmpty fs call

/-- A send is asked for the file that it replaces. -/
theorem Sends.asked {call : Call} {p q : Pending} (hshown : ShowsWays fs call)
    (hsends : Sends fs call p fs' q fs₁) (hold : p.replaces = some k) : Asked fs call k := by
  cases hsends with
  | flush hfi hp hsent hsend => exact .flush hfi hp hsent hold
  | release hfi hp hsent hsend => exact .release hfi hp hsent hold
  | truncate hfree hresolved hentry hdir hadopts hp hresizes hsend =>
      cases (replaces_of_adopts (pending_resolved hresolved ▸ hfree) hadopts hp).symm.trans hold
      exact .truncate hfree (looked_of_resolved (hshown hfree) hresolved).2.1

theorem sender_spares (hread : fs.mtp.partialRead ∈ Mtp.readsOnly) (hinformed : Informed fs)
    {call : Call} (hdelivers : call.delivers = true) (hshown : ShowsWays fs call)
    (hasked : ¬ Asked fs call k)
    (hk : fs.store.HasFile k c) : (call.number fs).2.store.HasFile k c := by
  rcases sends_or_same hread hdelivers with hsame | ⟨p, fs', q, fs₁, hsends, hsame⟩
  · rw [hsame]
    exact hk
  · obtain ⟨rc, n, fs₂, hsend, hrun, hstore, -⟩ := hsends.ends
    rw [hrun, hstore]
    refine sendPending_spares hsend ?_ (fun old => hsends.replaces_file hinformed hsame) ?_
    · rw [store, hsame.store]
      exact hk
    · intro hold
      exact hasked (hsends.asked hshown hold)

/-- **A careful call leaves every file that it was not asked to remove.** -/
theorem number_spares (hread : fs.mtp.partialRead ∈ Mtp.readsOnly) (hinformed : Informed fs)
    {call : Call} (hcareful : Careful fs call) (hasked : ¬ Asked fs call k)
    (hk : fs.store.HasFile k c) : (call.number fs).2.store.HasFile k c := by
  cases hasks : call.asks with
  | true =>
      rw [asking_spares hread hasks]
      exact hk
  | false =>
      cases call with
      | truncate path size => exact sender_spares hread hinformed rfl hcareful.shown hasked hk
      | flush path fi => exact sender_spares hread hinformed rfl hcareful.shown hasked hk
      | release path fi => exact sender_spares hread hinformed rfl hcareful.shown hasked hk
      | rename source target =>
          refine opRename_spares hinformed.knows hcareful.shown hk ?_ hcareful.empty
          intro handle o d taken honto hsame
          subst hsame
          exact hasked (.rename honto.atTarget hk)
      | unlink path =>
          refine removeObject_spares hk fun h fs₁ e hpath _ hentry hdir hbelow => ?_
          have hkind := (knows_resolved hinformed.knows hpath h e hentry).2
          rw [hdir, store_resolved hpath] at hkind
          have hnames := (looked_of_resolved hcareful.shown hpath).2.1
          exact hasked (hkind.below hbelow ▸ .unlink hnames)
      | rmdir path =>
          refine removeObject_spares hk fun h fs₁ e hpath hroot hentry hdir hbelow => ?_
          have hkind := (knows_resolved hinformed.knows hpath h e hentry).2
          rw [hdir, store_resolved hpath] at hkind
          have hnames := (looked_of_resolved hcareful.shown hpath).2.1
          exact hcareful.empty h hnames hroot k c hbelow (hk.ne_of_folder hkind) hk
      | mkdir path => exact opMkdir_spares hk
      | _ => cases hasks

theorem step_spares (hread : fs.mtp.partialRead ∈ Mtp.readsOnly) (hinformed : Informed fs)
    {e : Host × Call} (hcareful : Careful { fs with host := e.1 } e.2)
    (hasked : ¬ Asked { fs with host := e.1 } e.2 k) (hk : fs.store.HasFile k c) :
    (fs.step e).store.HasFile k c := by
  have hinformed' : Informed { fs with host := e.1 } := ⟨hinformed.knows, hinformed.replaces⟩
  exact number_spares (by exact hread) hinformed' hcareful hasked hk

/-- **No call destroys a file that it was not asked to destroy**, in a run of careful calls: each call
leaves every other file with its contents, and so a file that no call of the run is asked for
is there at its end. -/
theorem destroys_only_asked {m : Mtp Phone} (hread : m.partialRead ∈ Mtp.readsOnly) (host : Host)
    {calls : List (Host × Call)}
    (hmeets : Run.Meets step (fun fs e => Careful { fs with host := e.1 } e.2) (start m host)
      calls) :
    (∀ before e rest, calls = before ++ e :: rest → ∀ k c,
      ¬ Asked (reached m host before e.1) e.2 k → (reached m host before e.1).store.HasFile k c →
        ((start m host).run (before ++ [e])).store.HasFile k c) ∧
    ∀ k c, m.session.store.HasFile k c →
      Run.Meets step (fun fs e => ¬ Asked { fs with host := e.1 } e.2 k) (start m host) calls →
        ((start m host).run calls).store.HasFile k c := by
  constructor
  · intro before e rest hsame k c hasked hk
    subst hsame
    have hinformed := (informed_start m host).run before
    have hrun : (start m host).run (before ++ [e]) = ((start m host).run before).step e :=
      Run.after_append step _ _ _
    rw [hrun]
    exact step_spares (run_partialRead hread host before) hinformed
      (Run.Meets.append.mp hmeets).2.1 hasked hk
  · intro k c hk hasked
    have hinv : ∀ fs (e : Host × Call),
        (fs.mtp.partialRead ∈ Mtp.readsOnly ∧ Informed fs ∧ fs.store.HasFile k c) →
          (Careful { fs with host := e.1 } e.2 ∧ ¬ Asked { fs with host := e.1 } e.2 k) →
            (fs.step e).mtp.partialRead ∈ Mtp.readsOnly ∧ Informed (fs.step e) ∧
              (fs.step e).store.HasFile k c := by
      intro fs e hboth hparts
      obtain ⟨hread, hinformed, hk⟩ := hboth
      obtain ⟨hcareful, hasked⟩ := hparts
      exact ⟨step_partialRead hread e, hinformed.step e,
        step_spares hread hinformed hcareful hasked hk⟩
    exact ((hmeets.and hasked).invariant hinv ⟨hread, informed_start m host, hk⟩).2.2

/-! ## Two folders, and a file in one of them -/

/-- A program makes a folder, a file in it, and a second folder. -/
def twoFolders : List (Host × Call) :=
  [(Host.obliging, .mkdir ['/', 'd']), (Host.obliging, .create ['/', 'd', '/', 'a']),
    (Host.obliging, .release ['/', 'd', '/', 'a'] none), (Host.obliging, .mkdir ['/', 'e'])]

/-- The mount after those calls. -/
def filled : Fs Phone := reached emptyMount Host.obliging twoFolders Host.obliging

/-- The file goes with its folder: a removal of the folder takes it, and so does a rename of the
other folder onto that one. -/
theorem folder_takes_its_file :
    (∃ c, filled.store.HasFile 2 c ∧ ¬ Asked filled (.rmdir ['/', 'd']) 2 ∧
      ¬ (filled.step (Host.obliging, .rmdir ['/', 'd'])).store.HasFile 2 c) ∧
    ∃ c, filled.store.HasFile 2 c ∧ ¬ Asked filled (.rename ['/', 'e'] ['/', 'd']) 2 ∧
      ¬ (filled.step (Host.obliging, .rename ['/', 'e'] ['/', 'd'])).store.HasFile 2 c := by
  have hfile : (filled.store.find 2).map Node.folder = some false := by decide +kernel
  obtain ⟨x, hx, hfolder⟩ := Option.map_eq_some_iff.mp hfile
  have hgone : ∀ s : Store, s.find 2 = none → ¬ s.HasFile 2 x.content := by
    intro s hnone hsome
    obtain ⟨y, hy, -⟩ := hsome
    rw [hnone] at hy
    cases hy
  refine ⟨⟨x.content, ⟨x, hx, hfolder, rfl⟩, ?_, hgone _ ?_⟩, x.content, ⟨x, hx, hfolder, rfl⟩,
    ?_, hgone _ ?_⟩
  · intro hasked
    cases hasked
  · decide +kernel
  · intro hasked
    cases hasked with
    | rename hpath hfile =>
        have hfolder : filled.names ['/', 'd'] = some 1 := by decide +kernel
        cases hfolder.symm.trans hpath
  · decide +kernel

/-- A device that moves an object and refuses to give it a new name. -/
def nameless : Policy :=
  { Policy.obliging with
    fault := fun _ _ r => if r.code = Op.setObjectPropValue then
      some (.code Resp.storeFull storeFull_ne_ok) else none }

/-- A mount after a rename that failed half way: the file is in the new folder under its old name,
and the tree still lists it in the old one. -/
def halfMoved : Fs Phone :=
  reached (Mtp.standard (Phone.holding (Mtp.storeOfZeros 3 Mtp.three_fits) nameless)) Host.obliging
    [(Host.obliging, .mkdir ['/', 'd']),
      (Host.obliging, .rename ['/', 'a'] ['/', 'd', '/', 'b'])] Host.obliging

/-- The stale listing names an object that is not at the path, and a removal takes it. -/
theorem stale_way_takes_another :
    halfMoved.names ['/', 'a'] = none ∧ halfMoved.names ['/', 'd', '/', 'a'] = some 1 ∧
      ¬ Asked halfMoved (.unlink ['/', 'a']) 1 ∧
      ∃ c, halfMoved.store.HasFile 1 c ∧
        ¬ (halfMoved.step (Host.obliging, .unlink ['/', 'a'])).store.HasFile 1 c := by
  have hnone : halfMoved.names ['/', 'a'] = none := by decide +kernel
  have hfile : (halfMoved.store.find 1).map Node.folder = some false := by decide +kernel
  obtain ⟨x, hx, hfolder⟩ := Option.map_eq_some_iff.mp hfile
  refine ⟨hnone, by decide +kernel, ?_, x.content, ⟨x, hx, hfolder, rfl⟩, ?_⟩
  · intro hasked
    cases hasked with
    | unlink hpath => cases hnone.symm.trans hpath
  · intro hfile
    obtain ⟨y, hy, -⟩ := hfile
    have hgone : (halfMoved.step (Host.obliging, .unlink ['/', 'a'])).store.find 1 = none := by
      decide +kernel
    cases hgone.symm.trans hy

/-- The empty folder goes, and the file stays. -/
theorem destroys_only_asked_filled : ∃ c, filled.store.HasFile 2 c ∧
    ((start emptyMount Host.obliging).run
      (twoFolders ++ [(Host.obliging, .rmdir ['/', 'e'])])).store.HasFile 2 c := by
  have hfile : (filled.store.find 2).map Node.folder = some false := by decide +kernel
  obtain ⟨x, hx, hfolder⟩ := Option.map_eq_some_iff.mp hfile
  have hhas : filled.store.HasFile 2 x.content := ⟨x, hx, hfolder, rfl⟩
  have hcareful : Careful filled (.rmdir ['/', 'e']) := by
    constructor
    · intro r hr hlisted
      have hasked : filled.store.asked root (splitPath ['/', 'e']) = [root] := by decide +kernel
      have hunread : filled.tree.listed root = false := by decide +kernel
      rw [hasked] at hr
      cases List.mem_singleton.mp hr
      cases hunread.symm.trans hlisted
    · intro h hpath _ k c hk hne
      have hhandle : filled.names ['/', 'e'] = some 3 := by decide +kernel
      cases hhandle.symm.trans hpath
      have hbelow : filled.store.objects.below 3 = [3] := by decide +kernel
      rw [hbelow] at hk
      exact absurd (List.mem_singleton.mp hk) hne
  have hmeets : Run.Meets step (fun fs e => Careful { fs with host := e.1 } e.2)
      (start emptyMount Host.obliging) (twoFolders ++ [(Host.obliging, .rmdir ['/', 'e'])]) :=
    ⟨⟨trivial, trivial⟩, ⟨trivial, trivial⟩, ⟨trivial, trivial⟩, ⟨trivial, trivial⟩, hcareful,
      trivial⟩
  refine ⟨x.content, hhas, (destroys_only_asked (by decide) Host.obliging hmeets).1 twoFolders _ []
    rfl 2 x.content ?_ hhas⟩
  intro hasked
  cases hasked

end Fs

end Bsdroid
