import Bsdroid.Mtpfs.Caching
import Bsdroid.Mtpfs.Changing
import Bsdroid.Mtpfs.SpoolRuns

/-!
# Which files exist

A file exists in two places: as an entry of the files a program writes, and as an object of
the device.  `op_getattr` looks into both, and the other callbacks look into one.
`Fs.Settled` says when they agree nevertheless (`Fs.agrees_where_settled`): the tree may hold any
listing that the path does not come to.
-/

namespace Bsdroid

namespace Fs

variable {fs fs' : Fs Phone} {path target : Str} {d k : UInt32} {x : Object} {e : Entry}

/-! ## What each callback finds -/

theorem opGetattr_pending {p : Pending} (hp : fs.pending path = some p) :
    ∃ st, (opGetattr path fs).1 = .ok st := by
  rw [opGetattr, Proc.bind_ok (Proc.get_run _), hp]
  exact ⟨_, rfl⟩

theorem opGetattr_miss (h : SeesWay fs path) (hp : fs.pending path = none) (hmiss : fs.hit path = none) :
    (opGetattr path fs).1 = .error (-Libc.ENOENT) := by
  obtain ⟨fs', hrun, -⟩ := resolved_of_miss h hmiss
  rw [opGetattr, Proc.bind_ok (Proc.get_run _), hp]
  dsimp only
  rw [Proc.bind_error hrun]

theorem opGetattr_hit (h : SeesWay fs path) (hname : Filename (splitParent path).2)
    (hk : fs.hit path = some k) : ∃ st, (opGetattr path fs).1 = .ok st := by
  cases hp : fs.pending path with
  | some p => exact opGetattr_pending hp
  | none =>
      obtain ⟨fs', d, x, e, hrun, -, hfinds, rfl⟩ := finds_of_hit h hname hk
      rw [opGetattr, Proc.bind_ok (Proc.get_run _), hp]
      dsimp only
      rw [Proc.bind_ok hrun, Proc.bind_ok (Proc.get_run _), if_neg hfinds.ne_root, hfinds.entry]
      dsimp only
      by_cases hdir : e.isDir = true
      · rw [if_pos hdir]
        exact ⟨_, rfl⟩
      · rw [if_neg hdir]
        exact ⟨_, rfl⟩

/-- `op_getattr` finds a file in either place. -/
theorem opGetattr_ok_iff (h : SeesWay fs path) (hname : Filename (splitParent path).2) :
    (∃ st, (opGetattr path fs).1 = .ok st) ↔ (fs.pending path).isSome ∨ (fs.hit path).isSome := by
  constructor
  · intro hsome
    obtain ⟨st, hst⟩ := hsome
    by_contra hno
    rw [not_or, Option.not_isSome_iff_eq_none, Option.not_isSome_iff_eq_none] at hno
    rw [opGetattr_miss h hno.1 hno.2] at hst
    cases hst
  · intro hcases
    rcases hcases with hp | hk
    · obtain ⟨p, hp⟩ := Option.isSome_iff_exists.mp hp
      exact opGetattr_pending hp
    · obtain ⟨k, hk⟩ := Option.isSome_iff_exists.mp hk
      exact opGetattr_hit h hname hk

/-- An `op_open` for reading finds a file on the device alone. -/
theorem opOpen_finds_iff (h : SeesWay fs path) (hname : Filename (splitParent path).2) {flags : Nat}
    (hreads : Oflag.writes flags = false) :
    (opOpen path flags fs).1 ≠ .error (-Libc.ENOENT) ↔ (fs.hit path).isSome := by
  cases hk : fs.hit path with
  | none =>
      obtain ⟨fs', hrun, -⟩ := resolved_of_miss h hk
      rw [opOpen, Proc.bind_error hrun]
      simp
  | some k =>
      obtain ⟨fs', d, x, e, hrun, -, hfinds, rfl⟩ := finds_of_hit h hname hk
      rw [opOpen, Proc.bind_ok hrun, Proc.bind_ok (Proc.get_run _), hfinds.entry]
      dsimp only
      refine ⟨fun _ => rfl, fun _ hfail => ?_⟩
      by_cases hdir : e.isDir = true
      · rw [if_pos hdir] at hfail
        cases hfail
      · rw [if_neg hdir, hreads, if_neg fun h => Bool.false_ne_true h.1] at hfail
        cases hfail

/-- What `op_unlink` does to a path it finds. -/
theorem opUnlink_hit (h : SeesWay fs path) (hname : Filename (splitParent path).2)
    (hk : fs.hit path = some k) :
    ∃ fs' d x e, Looked fs fs' ∧ Finds fs' path d x e ∧ x.key = k ∧
      opUnlink path fs =
        if x.folder then (.error (-Libc.EISDIR), fs')
        else match Mtp.deleteObject k fs'.mtp with
          | (.ok (), m) => (.ok 0, { fs' with mtp := m, tree := fs'.tree.forgetListing d })
          | (.error _, m) => (.error (-Libc.EIO), { fs' with mtp := m }) := by
  obtain ⟨fs', d, x, e, hrun, hlooked, hfinds, rfl⟩ := finds_of_hit h hname hk
  refine ⟨fs', d, x, e, hlooked, hfinds, rfl, ?_⟩
  rw [opUnlink, removeObject, Proc.bind_ok hrun, if_neg hfinds.ne_root,
    Proc.bind_ok (Proc.get_run _), hfinds.entry]
  dsimp only
  rw [hfinds.shows.isDir]
  by_cases hdir : x.folder = true
  · rw [hdir, if_pos (by decide), if_pos rfl]
    rfl
  · rw [Bool.not_eq_true] at hdir
    rw [hdir, if_neg (by decide), if_neg (by decide), Proc.bind_ok (tryMtp_run _ _)]
    rcases hdelete : Mtp.deleteObject x.key fs'.mtp with ⟨err | u, m⟩
    · rfl
    · dsimp only
      rw [Proc.bind_ok (forgetListing_run _ _), hfinds.parent]
      rfl

/-- `op_unlink` finds a file on the device alone. -/
theorem opUnlink_finds_iff (h : SeesWay fs path) (hname : Filename (splitParent path).2) :
    (opUnlink path fs).1 ≠ .error (-Libc.ENOENT) ↔ (fs.hit path).isSome := by
  cases hk : fs.hit path with
  | none =>
      obtain ⟨fs', hrun, -⟩ := resolved_of_miss h hk
      rw [opUnlink, removeObject, Proc.bind_error hrun]
      simp
  | some k =>
      obtain ⟨fs', d, x, e, -, -, -, hrun⟩ := opUnlink_hit h hname hk
      refine ⟨fun _ => rfl, fun _ hfail => ?_⟩
      rw [hrun] at hfail
      by_cases hdir : x.folder = true
      · rw [if_pos hdir] at hfail
        cases hfail
      · rw [if_neg hdir] at hfail
        rcases hdelete : Mtp.deleteObject k fs'.mtp with ⟨err | u, m⟩
        · rw [hdelete] at hfail
          cases hfail
        · rw [hdelete] at hfail
          cases hfail

/-- A step that never says that a path is not there. -/
def Present {α : Type} (x : Proc Int (Fs Phone) α) : Prop :=
  Proc.Triple (fun _ => True) x (fun _ _ => True) fun rc _ => rc ≠ -Libc.ENOENT

section Present

variable {α β : Type}

/-- Such a step fails in another way. -/
theorem Present.ne {x : Proc Int (Fs Phone) α} (hx : Present x) (fs : Fs Phone) :
    (x fs).1 ≠ .error (-Libc.ENOENT) :=
  fun hfail => hx.error trivial (Prod.ext hfail rfl) rfl

theorem Present.bind {x : Proc Int (Fs Phone) α} {f : α → Proc Int (Fs Phone) β} (hx : Present x)
    (hf : ∀ a, Present (f a)) : Present (x >>= f) :=
  Proc.Triple.bind hx fun a => (hf a)

theorem Present.pure (a : α) : Present (pure a) := Proc.Triple.pure fun _ _ => trivial

theorem Present.fail {rc : Int} (hrc : rc ≠ -Libc.ENOENT) :
    Present (Proc.fail rc : Proc Int (Fs Phone) α) := Proc.Triple.fail fun _ _ => hrc

theorem Present.get : Present (Proc.get : Proc Int (Fs Phone) _) := fun _ _ => trivial

theorem Present.tryMtp (x : Proc Error (Mtp Phone) α) : Present (tryMtp x) := fun _ _ => trivial

theorem Present.forgetListing (q : UInt32) : Present (forgetListing q) := fun _ _ => trivial

theorem Present.resolve (path : Str) : Present (resolve path) := by
  have hrounds : ∀ rounds, Present (resolveIn path rounds) := by
    intro rounds
    induction rounds with
    | zero => exact .pure _
    | succ rounds ih =>
        refine .bind .get fun fs => ?_
        split
        · exact .pure _
        · exact .pure _
        · refine .bind (.tryMtp _) fun answer => ?_
          split
          · exact .bind (fun _ _ => trivial) fun _ => ih
          · exact .pure _
  exact hrounds maxWalk

theorem clearTarget_present (target newName : Str) (handle newParent : UInt32) :
    Present (clearTarget target newName handle newParent) := by
  refine .bind (.resolve target) fun taken => ?_
  split
  · exact .pure _
  · split
    · exact .pure _
    · split
      · exact .fail (by decide)
      · refine .bind (fun _ _ => trivial) fun aside => .bind (.tryMtp _) fun answer => ?_
        split
        · exact .fail (by decide)
        · exact .bind (.forgetListing _) fun _ => .pure _

theorem moveAcross_present (handle oldParent newParent : UInt32) :
    Present (moveAcross handle oldParent newParent) := by
  refine .bind .get fun fs => ?_
  split
  · split
    · refine .bind (.tryMtp _) fun answer => ?_
      split
      · exact .pure _
      · exact .fail (by decide)
    · exact .fail (by decide)
  · exact .pure _

theorem renameInPlace_present (handle newParent : UInt32) (newName : Str)
    (aside : Option UInt32) : Present (renameInPlace handle newParent newName aside) := by
  refine .bind .get fun fs => ?_
  dsimp only
  split
  · split
    · refine .bind (.tryMtp _) fun answer => ?_
      split
      · exact .pure _
      · have hlast : Present (do
            forgetListing newParent
            Proc.fail (-Libc.EIO) : Proc Int (Fs Phone) Unit) :=
          .bind (.forgetListing _) fun _ => .fail (by decide)
        split
        · exact .bind (.tryMtp _) fun _ => hlast
        · exact hlast
    · exact .fail (by decide)
  · exact .pure _

theorem dropAside_present (aside : Option UInt32) : Present (dropAside aside) := by
  unfold dropAside
  split
  · exact .bind (.tryMtp _) fun _ => .pure _
  · exact .pure _

end Present

/-- After the walks to its source, a rename finds the folder of the new path. -/
def FindsFolder (fs : Fs Phone) (path target : Str) : Prop :=
  ∀ h fs₁ o fs₂, resolved path fs = (.ok h, fs₁) →
    resolved (splitParent path).1 fs₁ = (.ok o, fs₂) →
      ∃ q fs₃, resolved (splitParent target).1 fs₂ = (.ok q, fs₃)

/-- `op_rename` finds a file on the device alone, for every target in a folder it finds. -/
theorem opRename_finds_iff (h : SeesWay fs path) (hname : Filename (splitParent path).2)
    (htarget : FindsFolder fs path target) :
    (opRename path target fs).1 ≠ .error (-Libc.ENOENT) ↔ (fs.hit path).isSome := by
  cases hk : fs.hit path with
  | none =>
      obtain ⟨fs', hrun, -⟩ := resolved_of_miss h hk
      rw [opRename, Proc.bind_error hrun]
      simp
  | some k =>
      obtain ⟨fs₁, d, x, e, hrun, hlooked, hfinds, rfl⟩ := finds_of_hit h hname hk
      obtain ⟨fs₂, hrun₂, -⟩ := resolved_of_hit ((hlooked.way h).folder hname) hfinds.folder
      obtain ⟨q, fs₃, hrun₃⟩ := htarget _ _ _ _ hrun hrun₂
      refine ⟨fun _ => rfl, fun _ => ?_⟩
      rw [opRename, Proc.bind_ok hrun, if_neg hfinds.ne_root]
      dsimp only
      split
      · intro hfail
        cases hfail
      · rw [Proc.bind_ok hrun₂, Proc.bind_ok hrun₃]
        apply Present.ne
        refine .bind (clearTarget_present _ _ _ _) fun aside => ?_
        split
        · exact .pure _
        · refine .bind (moveAcross_present _ _ _) fun _ => ?_
          refine .bind (renameInPlace_present _ _ _ _) fun _ => ?_
          refine .bind (dropAside_present _) fun _ => ?_
          exact .bind (.forgetListing _) fun _ => .bind (.forgetListing _) fun _ => .pure _

/-- The names of a folder, as the tree has them where it holds the listing. -/
theorem names_shown {es : List Entry} {xs : List Object} (h : List.Forall₂ Entry.Shows es xs) :
    es.map (fun e => shownName e.name) = xs.map fun x => shownName x.name := by
  induction h with
  | nil => rfl
  | cons hshows _ ih => rw [List.map_cons, List.map_cons, hshows.name, ih]

theorem children_shown (h : Shown fs path) (hname : Filename (splitParent path).2)
    (hd : fs.names (splitParent path).1 = some d) (hlisted : fs.tree.listed d = true) :
    ∃ es, fs.tree.children d = some es ∧ es.map (fun e => shownName e.name) =
      (fs.store.children d).map fun x => shownName x.name := by
  have hway : d ∈ fs.store.asked root (splitPath path) := by
    rw [asked_path hname hd]
    exact List.mem_append_right _ List.mem_cons_self
  obtain ⟨es, hes, hshows⟩ := (h d hway hlisted).children hlisted
  exact ⟨es, hes, names_shown hshows⟩

/-- `op_readdir` lists the objects of the folder of a path. -/
theorem opReaddir_hit (h : SeesWay fs path) (hname : Filename (splitParent path).2)
    (hd : fs.hit (splitParent path).1 = some d) :
    (opReaddir (splitParent path).1 fs).1 =
      .ok (['.'] :: ['.', '.'] :: (fs.store.children d).map fun x => shownName x.name) := by
  obtain ⟨fs₁, hrun, hlooked, -⟩ := resolved_of_hit (h.folder hname) hd
  have hnames := (names_of_hit hd).2
  have hlists : fs.store.Lists d := Store.lists_of_walk (.inl rfl) hnames
  have hway := hlooked.way h
  rw [opReaddir, Proc.bind_ok hrun, Proc.bind_ok (Proc.get_run _), Tree.isListed]
  by_cases hlisted : fs₁.tree.listed d = true
  · rw [if_pos hlisted]
    obtain ⟨es, hes, hsame⟩ :=
      children_shown hway.shown hname ((hlooked.names _).trans hnames) hlisted
    have hall := namesOf_run hes
    rw [hsame, hlooked.store] at hall
    exact congrArg Prod.fst hall
  · rw [if_neg hlisted]
    obtain ⟨es, m, -, hread, hlooked₂⟩ :=
      list_looks (E := Int) hway.answers (hlooked.store ▸ hlists)
    have hboth := hlooked.trans hlooked₂
    obtain ⟨es', hes', hsame⟩ := children_shown (hlooked₂.way hway).shown hname
      ((hboth.names _).trans hnames) (Function.update_self ..)
    have hall := namesOf_run hes'
    rw [hsame, hboth.store] at hall
    rw [Proc.bind_ok hread]
    dsimp only
    rw [Proc.bind_ok (setChildren_run _ _ _)]
    exact congrArg Prod.fst hall

/-- The folder of a path that the mount finds. -/
theorem hit_folder (hname : Filename (splitParent path).2) (hk : fs.hit path = some k) :
    ∃ d x, fs.hit (splitParent path).1 = some d ∧
      fs.store.child d (splitParent path).2 = some x ∧ x.key = k := by
  obtain ⟨hunread, hnames⟩ := names_of_hit hk
  rw [names_path hname] at hnames
  obtain ⟨d, hd, hx⟩ := Option.bind_eq_some_iff.mp hnames
  obtain ⟨x, hx, hkey⟩ := Option.map_eq_some_iff.mp hx
  refine ⟨d, x, ?_, hx, hkey⟩
  have hless : (fs.unread (splitParent path).1).length ≤ (fs.unread path).length := by
    rw [unread, unread, asked_path hname hd, List.filter_append, List.length_append]
    exact Nat.le_add_right _ _
  rw [hit, if_pos (Nat.lt_of_le_of_lt hless hunread), hd]

/-- `op_readdir` of its folder lists a file the mount finds, and may list a name that is
shown for another. -/
theorem opReaddir_lists_iff (h : SeesWay fs path) (hname : Filename (splitParent path).2) :
    (∃ names, (opReaddir (splitParent path).1 fs).1 = .ok names ∧ (splitParent path).2 ∈ names) ↔
      ∃ d, fs.hit (splitParent path).1 = some d ∧
        ∃ x ∈ fs.store.children d, shownName x.name = (splitParent path).2 := by
  constructor
  · intro hsome
    obtain ⟨names, hrun, hmem⟩ := hsome
    cases hd : fs.hit (splitParent path).1 with
    | none =>
        obtain ⟨fs', hmiss, -⟩ := resolved_of_miss (h.folder hname) hd
        rw [opReaddir, Proc.bind_error hmiss] at hrun
        cases hrun
    | some d =>
        rw [opReaddir_hit h hname hd] at hrun
        cases hrun
        refine ⟨d, rfl, ?_⟩
        rcases List.mem_cons.mp hmem with hhere | hmem
        · exact absurd hhere hname.here
        rcases List.mem_cons.mp hmem with hup | hmem
        · exact absurd hup hname.up
        exact List.mem_map.mp hmem
  · intro hsome
    obtain ⟨d, hd, x, hx, hshown⟩ := hsome
    exact ⟨_, opReaddir_hit h hname hd, List.mem_cons_of_mem _ (List.mem_cons_of_mem _
      (List.mem_map.mpr ⟨x, hx, hshown⟩))⟩

theorem listed_of_hit (hname : Filename (splitParent path).2) (hk : fs.hit path = some k) :
    ∃ d, fs.hit (splitParent path).1 = some d ∧
      ∃ x ∈ fs.store.children d, shownName x.name = (splitParent path).2 := by
  obtain ⟨d, x, hd, hx, -⟩ := hit_folder hname hk
  obtain ⟨hmem, hsame⟩ := Store.mem_of_child hx
  refine ⟨d, hd, x, hmem, ?_⟩
  rw [hsame]
  exact shownName_eq (splitParent_name path) hname.ended

/-! ## After a removal -/

/-- A device that deletes every object it is asked to delete. -/
def Deletes (fs : Fs Phone) : Prop :=
  ∀ log s k, fs.mtp.session.policy.fault log s (Mtp.deleteRequest k) = none

/-- The mount after it removed the file at a path: it shows the way of the path, and at most the
folder of the path is unread on it. -/
structure Unlinked (fs fs' : Fs Phone) (path : Str) (d : UInt32) (x : Object) : Prop where
  sees : SeesWay fs' path
  pending : fs'.pending = fs.pending
  names : fs'.names path = ((fs.store.remove x.key).child d (splitParent path).2).map Node.key
  unread : (fs'.unread path).length ≤ 1
  child : fs.store.child d (splitParent path).2 = some x
  file : x.folder = false

/-- The device removes the file that the mount found. -/
theorem unlinked_of_removed (h : SeesWay fs path) (hname : Filename (splitParent path).2)
    (hfinds : Finds fs path d x e) (hfile : x.folder = false) {m : Mtp Phone}
    (hturned : Mtp.Turned fs.mtp m (fs.store.remove x.key)) :
    Unlinked fs { fs with mtp := m, tree := fs.tree.forgetListing d } path d x := by
  have hwalk := (names_of_hit hfinds.folder).2
  have hparent := fs.store.parent_of_mem_children (Store.mem_of_child hfinds.object).1
  have hne : d ≠ x.key := hparent ▸ fs.store.objects.parent_ne_key (Store.mem_of_find hfinds.find)
  obtain ⟨hwalk', hasked⟩ := Store.walk_remove hfinds.find hfile (.inl rfl)
    (Ne.symm hfinds.ne_root) hne hwalk
  have hstore : Fs.store { fs with mtp := m, tree := fs.tree.forgetListing d } =
      fs.store.remove x.key := hturned.store
  -- A walk of the path comes to the same folders.
  have hway : (fs.store.remove x.key).asked root (splitPath path) =
      fs.store.asked root (splitPath path) := by
    rw [splitPath_eq hname, Store.asked_snoc hwalk', hasked, Store.asked_snoc hwalk]
  refine ⟨⟨?_, hturned.policy ▸ h.answers⟩, rfl, ?_, ?_, hfinds.object, hfile⟩
  · intro r hr hlisted
    rw [hstore] at hr ⊢
    have hlists := Store.lists_of_asked (.inl rfl) hr
    rw [hway] at hr
    rw [← hparent] at hlisted ⊢
    obtain ⟨hne', hbefore, -⟩ := Tree.listed_forgetListing hlisted
    exact (h.shown r hr hbefore).remove hfinds.find hne' hlists
  · rw [names_path hname, Fs.names, hstore, hwalk']
    rfl
  · have hread : (fs.store.asked root (splitPath (splitParent path).1)).filter
        (fun r => !(fs.tree.forgetListing d).listed r) = [] := by
      refine List.filter_eq_nil_iff.mpr fun r hr => ?_
      have hnodup := @Store.nodup_asked fs.store root (splitPath path)
      rw [asked_path hname hwalk] at hnodup
      have hrd : r ≠ d := by
        intro hrd
        subst hrd
        exact (List.nodup_append.mp hnodup).2.2 r hr r List.mem_cons_self rfl
      have hlisted : fs.tree.listed r = true := by
        apply hfinds.listed r
        rw [asked_path hname hwalk]
        exact List.mem_append_left _ hr
      rw [Tree.forgetListing]
      dsimp only
      rw [Function.update_of_ne hrd, hlisted]
      decide
    rw [Fs.unread, hstore, hway, asked_path hname hwalk, List.filter_append, hread]
    exact List.length_filter_le _ _

/-- What a mount says of a path does not change while it reads. -/
theorem Unlinked.of_looked {fs₁ : Fs Phone} (hlooked : Looked fs fs₁)
    (h : Unlinked fs₁ fs' path d x) : Unlinked fs fs' path d x where
  sees := h.sees
  pending := h.pending.trans hlooked.pending
  names := by rw [h.names, hlooked.store]
  unread := h.unread
  child := hlooked.store ▸ h.child
  file := h.file

/-- An `op_unlink` that answers zero removed a file. -/
theorem opUnlink_removes (h : SeesWay fs path) (hname : Filename (splitParent path).2)
    (hrun : opUnlink path fs = (.ok 0, fs')) :
    ∃ d x, fs.hit path = some x.key ∧ fs.hit (splitParent path).1 = some d ∧
      Unlinked fs fs' path d x := by
  have hk : (fs.hit path).isSome := by
    apply (opUnlink_finds_iff h hname).mp
    rw [hrun]
    intro hfail
    cases hfail
  obtain ⟨k, hk⟩ := Option.isSome_iff_exists.mp hk
  obtain ⟨fs₁, d, x, e, hlooked, hfinds, rfl, hunlink⟩ := opUnlink_hit h hname hk
  obtain ⟨d', x', hd, hx, -⟩ := hit_folder hname hk
  cases hfinds.folder.symm.trans (hlooked.hit hd)
  refine ⟨d, x, hk, hd, ?_⟩
  by_cases hdir : x.folder = true
  · rw [if_pos hdir, hrun] at hunlink
    cases hunlink
  · rw [Bool.not_eq_true] at hdir
    rw [if_neg (by rw [hdir]; decide), hrun] at hunlink
    cases hfault : fs₁.mtp.session.policy.fault fs₁.mtp.session.log fs₁.mtp.session.store
        (Mtp.deleteRequest x.key) with
    | some f =>
        obtain ⟨err, m, hdelete, -⟩ := Mtp.deleteObject_faulted hfault
        rw [hdelete] at hunlink
        cases hunlink
    | none =>
        obtain ⟨m, hdelete, hturned⟩ :=
          Mtp.deleteObject_ok hfault (by rw [← Fs.store, hfinds.find]; rfl)
        rw [hdelete] at hunlink
        cases hunlink
        exact (unlinked_of_removed (hlooked.way h) hname hfinds hdir hturned).of_looked hlooked

/-- A device that deletes what it is asked to delete removes each file that the mount finds. -/
theorem opUnlink_works (h : SeesWay fs path) (hdeletes : Deletes fs)
    (hname : Filename (splitParent path).2) (hk : fs.hit path = some x.key)
    (hx : fs.store.find x.key = some x) (hfile : x.folder = false) :
    ∃ fs', opUnlink path fs = (.ok 0, fs') := by
  obtain ⟨fs₁, d, y, e, hlooked, hfinds, hkey, hunlink⟩ := opUnlink_hit h hname hk
  have hsame : y = x := by
    have hfind := hfinds.find
    rw [hlooked.store, hkey, hx] at hfind
    exact (Option.some.inj hfind).symm
  subst hsame
  rw [hfile, if_neg (by decide)] at hunlink
  have hfault : fs₁.mtp.session.policy.fault fs₁.mtp.session.log fs₁.mtp.session.store
      (Mtp.deleteRequest y.key) = none := by
    have hpolicy : fs₁.mtp.session.policy = fs.mtp.session.policy := hlooked.device.policy
    rw [hpolicy]
    exact hdeletes _ _ _
  obtain ⟨m, hdelete, -⟩ := Mtp.deleteObject_ok hfault (by rw [← Fs.store, hfinds.find]; rfl)
  rw [hdelete] at hunlink
  exact ⟨_, hunlink⟩

/-! ## When the callbacks agree -/

/-- **The callbacks agree** about whether there is a file at a path. -/
structure Agrees (fs : Fs Phone) (path : Str) : Prop where
  opens : ∀ flags, Oflag.writes flags = false →
    ((∃ st, (opGetattr path fs).1 = .ok st) ↔ (opOpen path flags fs).1 ≠ .error (-Libc.ENOENT))
  unlinks : (∃ st, (opGetattr path fs).1 = .ok st) ↔
    (opUnlink path fs).1 ≠ .error (-Libc.ENOENT)
  renames : ∀ target, FindsFolder fs path target →
    ((∃ st, (opGetattr path fs).1 = .ok st) ↔
      (opRename path target fs).1 ≠ .error (-Libc.ENOENT))
  lists : (∃ st, (opGetattr path fs).1 = .ok st) ↔
    ∃ names, (opReaddir (splitParent path).1 fs).1 = .ok names ∧ (splitParent path).2 ∈ names
  removes : ∀ fs', opUnlink path fs = (.ok 0, fs') →
    (opGetattr path fs').1 = .error (-Libc.ENOENT)

/-- The tree shows the way of a path, no program writes a file there, no other object of its folder
has its name, and a name that `op_readdir` shows there is the name of an object the mount finds. -/
structure Settled (fs : Fs Phone) (path : Str) : Prop where
  way : Shown fs path
  unwritten : (fs.pending path).isSome →
    ∃ x, fs.hit path = some x.key ∧ fs.store.find x.key = some x ∧ x.folder = true
  alone : (fs.hit path).isSome → ∀ d x, fs.hit (splitParent path).1 = some d →
    fs.store.child d (splitParent path).2 = some x → x.folder = false →
      ∀ y ∈ fs.store.children d, y.name = (splitParent path).2 → y = x
  shown : ∀ d, fs.hit (splitParent path).1 = some d →
    (∃ x ∈ fs.store.children d, shownName x.name = (splitParent path).2) → (fs.hit path).isSome

/-- An object the device removes is not found again, when no other has its name. -/
theorem Unlinked.miss_iff (h : Unlinked fs fs' path d x) :
    fs'.hit path = none ↔
      ∀ y ∈ fs.store.children d, y.name = (splitParent path).2 → y = x := by
  have hx := (fs.store.objects.mem_children.mp (Store.mem_of_child h.child).1).1
  have hempty := fs.store.objects.children_of_file hx h.file
  have hkept : ∀ y ∈ fs.store.children d,
      y ∈ (fs.store.remove x.key).children d ↔ y.key ≠ x.key := by
    intro y hy
    obtain ⟨hmem, hparent⟩ := fs.store.objects.mem_children.mp hy
    refine ((fs.store.remove x.key).objects.mem_children.trans
      (and_congr_left' fs.store.objects.mem_remove)).trans ?_
    refine ⟨fun hin hkey => hin.1.2 (hkey ▸ fs.store.objects.mem_below_self _), fun hne => ?_⟩
    exact ⟨⟨hmem, fun hbelow => hne (fs.store.objects.below_of_childless hempty _ hbelow)⟩, hparent⟩
  rw [hit, if_pos (Nat.lt_of_le_of_lt h.unread (by decide)), h.names, Option.map_eq_none_iff,
    Store.child_eq_none]
  constructor
  · intro hnone y hy hname'
    by_contra hne
    have hkey : y.key ≠ x.key := fun hkey =>
      hne (fs.store.objects.eq_of_key (fs.store.objects.mem_children.mp hy).1 hx hkey)
    exact hnone y ((hkept y hy).mpr hkey) hname'
  · intro halone y hy hname'
    have hmem : y ∈ fs.store.children d := by
      obtain ⟨hmem, hparent⟩ := (fs.store.remove x.key).objects.mem_children.mp hy
      exact fs.store.objects.mem_children.mpr
        ⟨(fs.store.objects.mem_remove.mp hmem).1, hparent⟩
    exact (hkept y hmem).mp hy (congrArg Node.key (halone y hmem hname'))

theorem settled_of_agrees (h : SeesWay fs path) (hdeletes : Deletes fs)
    (hname : Filename (splitParent path).2) (hagrees : Agrees fs path) : Settled fs path := by
  have hfound : (∃ st, (opGetattr path fs).1 = .ok st) → (fs.hit path).isSome := fun hst =>
    (opUnlink_finds_iff h hname).mp (hagrees.unlinks.mp hst)
  refine ⟨h.shown, fun hp => ?_, fun hk d x hd hx hfile => ?_, fun d hd hshown => ?_⟩
  · obtain ⟨p, hp⟩ := Option.isSome_iff_exists.mp hp
    obtain ⟨k, hk⟩ := Option.isSome_iff_exists.mp (hfound (opGetattr_pending hp))
    obtain ⟨d, x, hd, hx, rfl⟩ := hit_folder hname hk
    have hfind := Store.find_of_child hx
    refine ⟨x, hk, hfind, ?_⟩
    -- A file would go, and the entry of its path would stay.
    by_contra hdir
    rw [Bool.not_eq_true] at hdir
    obtain ⟨fs', hrun⟩ := opUnlink_works h hdeletes hname hk hfind hdir
    obtain ⟨d', x', -, -, hunlinked⟩ := opUnlink_removes h hname hrun
    have hgone := hagrees.removes fs' hrun
    obtain ⟨st, hst⟩ := opGetattr_pending (hunlinked.pending ▸ hp)
    rw [hst] at hgone
    cases hgone
  · obtain ⟨k, hk⟩ := Option.isSome_iff_exists.mp hk
    obtain ⟨d', x', hd', hx', rfl⟩ := hit_folder hname hk
    cases hd.symm.trans hd'
    cases hx.symm.trans hx'
    obtain ⟨fs', hrun⟩ := opUnlink_works h hdeletes hname hk (Store.find_of_child hx) hfile
    obtain ⟨d', x', hk', hd', hunlinked⟩ := opUnlink_removes h hname hrun
    cases hd.symm.trans hd'
    cases hx.symm.trans hunlinked.child
    have hgone := hagrees.removes fs' hrun
    apply hunlinked.miss_iff.mp
    by_contra hfound'
    obtain ⟨k', hk'⟩ := Option.ne_none_iff_exists'.mp hfound'
    obtain ⟨st, hst⟩ := opGetattr_hit hunlinked.sees hname hk'
    rw [hst] at hgone
    cases hgone
  · exact hfound (hagrees.lists.mpr ((opReaddir_lists_iff h hname).mpr ⟨d, hd, hshown⟩))

theorem agrees_of_settled (hanswers : fs.mtp.session.policy.Answers)
    (hname : Filename (splitParent path).2) (hsettled : Settled fs path) : Agrees fs path := by
  have h : SeesWay fs path := ⟨hsettled.way, hanswers⟩
  have hfound : (∃ st, (opGetattr path fs).1 = .ok st) ↔ (fs.hit path).isSome := by
    rw [opGetattr_ok_iff h hname]
    constructor
    · intro hthere
      rcases hthere with hp | hk
      · obtain ⟨x, hx, -⟩ := hsettled.unwritten hp
        rw [hx]
        rfl
      · exact hk
    · exact .inr
  refine ⟨fun flags hreads => ?_, ?_, fun target htarget => ?_, ?_, fun fs' hrun => ?_⟩
  · exact hfound.trans (opOpen_finds_iff h hname hreads).symm
  · exact hfound.trans (opUnlink_finds_iff h hname).symm
  · exact hfound.trans (opRename_finds_iff h hname htarget).symm
  · rw [hfound, opReaddir_lists_iff h hname]
    refine ⟨fun hk => ?_, fun ⟨d, hd, hshown⟩ => hsettled.shown d hd hshown⟩
    obtain ⟨k, hk⟩ := Option.isSome_iff_exists.mp hk
    exact listed_of_hit hname hk
  · obtain ⟨d, x, hk, hd, hunlinked⟩ := opUnlink_removes h hname hrun
    apply opGetattr_miss hunlinked.sees
    · rw [hunlinked.pending]
      by_contra hp
      obtain ⟨y, hy, hfind, hfolder⟩ := hsettled.unwritten (Option.ne_none_iff_isSome.mp hp)
      have hkey : x.key = y.key := Option.some.inj (hk.symm.trans hy)
      rw [← hkey, Store.find_of_child hunlinked.child] at hfind
      cases hfind
      cases hfolder.symm.trans hunlinked.file
    · apply hunlinked.miss_iff.mpr
      exact hsettled.alone (by rw [hk]; rfl) d x hd hunlinked.child hunlinked.file

/-- **The callbacks agree about settled paths**, whatever the tree holds elsewhere and whatever
programs write; and where the tree shows the way, on a device that deletes, about no others. -/
theorem agrees_where_settled (hanswers : fs.mtp.session.policy.Answers)
    (hname : Filename (splitParent path).2) :
    (Settled fs path → Agrees fs path) ∧
      (Shown fs path → Deletes fs → (Agrees fs path ↔ Settled fs path)) := by
  refine ⟨agrees_of_settled hanswers hname, fun hway hdeletes => ⟨?_, ?_⟩⟩
  · exact settled_of_agrees ⟨hway, hanswers⟩ hdeletes hname
  · exact agrees_of_settled hanswers hname

/-- A mount that read its root, while a program makes another file there. -/
def writesBeside : Fs Phone :=
  oneFile.run [(Host.obliging, .getattr ['/', 'a']), (Host.obliging, .create ['/', 'b'])]

theorem agrees_writesBeside : (writesBeside.pending ['/', 'b']).isSome ∧
    writesBeside.tree.listed root = true ∧ Agrees writesBeside ['/', 'a'] := by
  have hname : Filename (splitParent ['/', 'a']).2 := by
    refine ⟨?_, ?_, ?_, ?_⟩
    all_goals decide
  have hanswers : writesBeside.mtp.session.policy.Answers := by
    have hpolicy : writesBeside.mtp.session.policy = Policy.obliging := by rfl
    rw [hpolicy]
    exact fun _ _ _ _ => rfl
  have honly : writesBeside.store.children root = [Mtp.zeros 1 ['a'] 3] := by decide +kernel
  have hentry : writesBeside.tree.entries 1 = some (Mtp.zeros 1 ['a'] 3).entry := by
    decide +kernel
  refine ⟨by decide +kernel, by decide +kernel,
    (agrees_where_settled hanswers hname).1 ⟨?_, ?_, ?_, ?_⟩⟩
  · intro r hr _
    have hasked : writesBeside.store.asked root (splitPath ['/', 'a']) = [root] := by
      decide +kernel
    rw [hasked] at hr
    cases List.mem_singleton.mp hr
    refine ⟨by decide +kernel, fun x hx => ?_⟩
    rw [honly] at hx
    cases List.mem_singleton.mp hx
    exact ⟨_, hentry, Object.entry_shows _⟩
  · intro hp
    have hnone : (writesBeside.pending ['/', 'a']).isSome = false := by decide +kernel
    cases hp.symm.trans hnone
  · intro _ d x hd hx _ y hy _
    have hroot : writesBeside.hit (splitParent ['/', 'a']).1 = some root := by decide +kernel
    cases hroot.symm.trans hd
    have hx' := (Store.mem_of_child hx).1
    rw [honly] at hx' hy
    exact (List.mem_singleton.mp hy).trans (List.mem_singleton.mp hx').symm
  · intro _ _ _
    decide +kernel

/-- A file that a program just made. -/
def justMade : Fs Phone :=
  (start emptyMount Host.obliging).run [(Host.obliging, .create ['/', 'a'])]

/-- `op_getattr` finds a file that a program just made, and `op_open` does not. -/
theorem created_not_opened : ¬ Agrees justMade ['/', 'a'] := by
  intro h
  have hthere : (justMade.pending ['/', 'a']).isSome := by decide +kernel
  have hmiss : (opOpen ['/', 'a'] 0 justMade).1 = .error (-Libc.ENOENT) := by decide +kernel
  obtain ⟨p, hp⟩ := Option.isSome_iff_exists.mp hthere
  exact (h.opens 0 rfl).mp (opGetattr_pending hp) hmiss

end Fs

end Bsdroid
