import Bsdroid.Cellphone.Names
import Bsdroid.Mtpfs.Changing
import Bsdroid.Mtpfs.Coherent

/-!
# A rename, step by step

`op_rename` moves the object that holds the new name aside, moves the object to the new
folder, gives it the new name, and removes the object that it replaces.  Each step depends
on what the device holds at that point.

A device that refuses names only because they are taken does the whole rename exactly when
the way is `Clear` (`Fs.rename_works`).
-/

namespace Bsdroid

/-! ## A device that refuses names that are taken -/

/-- A device refuses a rename and a move only where another object of the folder holds the
name, and refuses nothing else. -/
structure Policy.RefusesOnlyTaken (policy : Policy) : Prop where
  renames : ∀ log s h name f, policy.fault log s (Mtp.renameRequest h name) = some f →
    f.Idle ∧ ∃ x, s.find h = some x ∧ s.Taken x.parent h (Utf16.fit 254 name)
  moves : ∀ log s storage h p f, s.Lists p →
    policy.fault log s (Mtp.moveRequest storage h p) = some f →
      f.Idle ∧ ∃ x, s.find h = some x ∧ s.Taken p h x.name
  others : ∀ log s r, r.code ≠ Op.setObjectPropValue → r.code ≠ Op.moveObject →
    policy.fault log s r = none

/-- A device refuses each rename and each move onto a name that another object of the folder
holds. -/
structure Policy.RefusesTaken (policy : Policy) : Prop where
  renames : ∀ log s h name x, s.find h = some x → s.Taken x.parent h (Utf16.fit 254 name) →
    policy.fault log s (Mtp.renameRequest h name) ≠ none
  moves : ∀ log s storage h p x, s.find h = some x → s.Taken p h x.name →
    policy.fault log s (Mtp.moveRequest storage h p) ≠ none

theorem Policy.RefusesOnlyTaken.answers {policy : Policy} (h : policy.RefusesOnlyTaken) :
    policy.Answers := by
  intro log s r hr
  refine h.others log s r ?_ ?_
  · intro hcode
    rw [hcode] at hr
    revert hr
    decide
  · intro hcode
    rw [hcode] at hr
    revert hr
    decide

namespace Fs

variable {fs fs' fs₀ : Fs Phone} {path source target newName : Str} {d k o : UInt32}
  {x y : Object} {s s' : Store}

/-! ## The steps -/

theorem clearTarget_free (h : Sees fs) (hmiss : fs.hit target = none) :
    ∃ fs', clearTarget target newName k d fs = (.ok (some none), fs') ∧ Looked fs fs' := by
  obtain ⟨fs', hrun, hlooked, -⟩ := @resolve_eq _ Int _ (h.way target)
  rw [hit] at hmiss
  rw [hmiss] at hrun
  exact ⟨fs', by rw [clearTarget, Proc.bind_ok hrun]; rfl, hlooked⟩

/-- The object that holds the new name moves aside. -/
theorem clearTarget_taken (h : Sees fs) {t : UInt32} (hhit : fs.hit target = some t)
    (htk : t ≠ k) (hroot : t ≠ root) :
    ∃ fs', Looked fs fs' ∧ clearTarget target newName k d fs =
      match Mtp.renameObject t (asideOf newName fs.spoolCount) fs'.mtp with
      | (.ok (), m) => (.ok (some (some t)), { fs' with
          mtp := m
          spoolCount := fs.spoolCount + 1
          tree := fs'.tree.forgetListing d })
      | (.error _, m) =>
          (.error (-Libc.EIO), { fs' with mtp := m, spoolCount := fs.spoolCount + 1 }) := by
  obtain ⟨fs', hrun, hlooked, -⟩ := @resolve_eq _ Int _ (h.way target)
  have hcount := hlooked.count
  rw [hit] at hhit
  rw [hhit] at hrun
  refine ⟨fs', hlooked, ?_⟩
  have haside : (asideName newName : Proc Int (Fs Phone) Str) fs' =
      (.ok (asideOf newName fs.spoolCount), { fs' with spoolCount := fs.spoolCount + 1 }) := by
    rw [← hcount]
    rfl
  rw [clearTarget, Proc.bind_ok hrun]
  dsimp only
  rw [if_neg htk, if_neg hroot, Proc.bind_ok haside, Proc.bind_ok (tryMtp_run _ _)]
  dsimp only
  rcases Mtp.renameObject t (asideOf newName fs.spoolCount) fs'.mtp with ⟨e | u, m⟩
  · rfl
  · rfl

/-- The object stays in its folder, or moves to another. -/
theorem moveAcross_stays : moveAcross k d d fs = (.ok (), fs) := by
  rw [moveAcross, Proc.bind_ok (Proc.get_run _), if_neg fun h => h rfl]
  rfl

theorem moveAcross_moves (hne : d ≠ o) (hcan : Mtp.canMove fs.mtp = true) :
    moveAcross k o d fs =
      match Mtp.moveObject k d fs.mtp with
      | (.ok (), m) => (.ok (), { fs with mtp := m })
      | (.error _, m) => (.error (-Libc.EIO), { fs with mtp := m }) := by
  rw [moveAcross, Proc.bind_ok (Proc.get_run _), if_pos hne, if_pos hcan,
    Proc.bind_ok (tryMtp_run _ _)]
  rcases Mtp.moveObject k d fs.mtp with ⟨e | u, m⟩
  · rfl
  · rfl

/-- The object keeps its name, or gets another. -/
theorem renameInPlace_keeps_name {aside : Option UInt32} {e : Entry}
    (hentry : fs.tree.get k = some e) (hname : e.name = newName) :
    renameInPlace k d newName aside fs = (.ok (), fs) := by
  rw [renameInPlace, Proc.bind_ok (Proc.get_run _), hentry]
  dsimp only [Option.map_some, Option.getD_some]
  rw [if_neg fun h => h hname]
  rfl

theorem renameInPlace_renames {aside : Option UInt32} {e : Entry}
    (hentry : fs.tree.get k = some e) (hname : e.name ≠ newName)
    (hcan : Mtp.canRename fs.mtp = true) :
    (∃ m, Mtp.renameObject k newName fs.mtp = (.ok (), m) ∧
      renameInPlace k d newName aside fs = (.ok (), { fs with mtp := m })) ∨
    (∃ err m fs', Mtp.renameObject k newName fs.mtp = (.error err, m) ∧
      renameInPlace k d newName aside fs = (.error (-Libc.EIO), fs')) := by
  rw [renameInPlace, Proc.bind_ok (Proc.get_run _), hentry]
  dsimp only [Option.map_some, Option.getD_some]
  rw [if_pos hname, if_pos hcan, Proc.bind_ok (tryMtp_run _ _)]
  rcases Mtp.renameObject k newName fs.mtp with ⟨err | u, m⟩
  · right
    cases aside with
    | none => exact ⟨err, m, _, rfl, rfl⟩
    | some old => exact ⟨err, m, _, rfl, rfl⟩
  · exact .inl ⟨m, rfl, rfl⟩

/-! ## Part way through a rename -/

/-- Part way through a rename the device holds `s`, and the tree still tells the name the
object had. -/
structure Stage (fs₀ fs : Fs Phone) (x : Object) (s : Store) : Prop where
  phone : Mtp.SamePhone fs₀.mtp fs.mtp
  store : fs.store = s
  entry : ∃ e, fs.tree.get x.key = some e ∧ e.name = x.name

section Stage

variable (honly : fs₀.mtp.session.policy.RefusesOnlyTaken) (hstage : Stage fs₀ fs x s)
include hstage

theorem Stage.policy : fs.mtp.session.policy = fs₀.mtp.session.policy := hstage.phone.policy

/-- The device keeps everything but its objects in a change of them. -/
theorem Stage.turned {m : Mtp Phone} (hturned : Mtp.Turned fs.mtp m s') {t : Tree}
    (htree : t.entries = fs.tree.entries) {count : Nat} :
    Stage fs₀ { fs with mtp := m, tree := t, spoolCount := count } x s' := by
  obtain ⟨e, hentry, hname⟩ := hstage.entry
  refine ⟨hstage.phone.trans hturned.toSamePhone, hturned.store, e, ?_, hname⟩
  show t.entries x.key = some e
  rw [htree]
  exact hentry

include honly in
/-- A rename that the device does not refuse. -/
theorem Stage.renameObject {h : UInt32} {name : Str} {z : Object} (hz : s.find h = some z)
    (hfree : ¬ s.Taken z.parent h (Utf16.fit 254 name)) :
    ∃ m, Mtp.renameObject h name fs.mtp = (.ok (), m) ∧
      Mtp.Turned fs.mtp m (s.rename h name) := by
  have hstore : fs.mtp.session.store = s := hstage.store
  have hfault : fs.mtp.session.policy.fault fs.mtp.session.log fs.mtp.session.store
      (Mtp.renameRequest h name) = none := by
    rw [hstage.policy, hstore]
    by_contra hsome
    obtain ⟨f, hf⟩ := Option.ne_none_iff_exists'.mp hsome
    obtain ⟨-, z', hz', htaken⟩ := honly.renames _ _ _ _ _ hf
    cases hz.symm.trans hz'
    exact hfree htaken
  obtain ⟨m, hrun, hturned⟩ := Mtp.renameObject_ok hfault (by rw [hstore, hz]; rfl)
  exact ⟨m, hrun, hstore ▸ hturned⟩

include honly in
/-- A move that the device does not refuse. -/
theorem Stage.moveObject {z : Object} (hz : s.find x.key = some z) (hd : s.Lists d)
    (hmove : s.move x.key d = some s') (hfree : ¬ s.Taken d x.key z.name) :
    ∃ m, Mtp.moveObject x.key d fs.mtp = (.ok (), m) ∧ Mtp.Turned fs.mtp m s' := by
  have hstore : fs.mtp.session.store = s := hstage.store
  have hfault : fs.mtp.session.policy.fault fs.mtp.session.log fs.mtp.session.store
      (Mtp.moveRequest fs.mtp.storage x.key d) = none := by
    rw [hstage.policy, hstore]
    by_contra hsome
    obtain ⟨f, hf⟩ := Option.ne_none_iff_exists'.mp hsome
    obtain ⟨-, z', hz', htaken⟩ := honly.moves _ _ _ _ _ _ hd hf
    cases hz.symm.trans hz'
    exact hfree htaken
  exact Mtp.moveObject_ok hfault (Mtp.Store.Lists.ne_all hd) (hstore.symm ▸ hmove)

include honly in
/-- A removal, which this device never refuses. -/
theorem Stage.deleteObject {h : UInt32} {z : Object} (hz : s.find h = some z) :
    ∃ m, Mtp.deleteObject h fs.mtp = (.ok (), m) ∧ Mtp.Turned fs.mtp m (s.remove h) := by
  have hstore : fs.mtp.session.store = s := hstage.store
  have hfault : fs.mtp.session.policy.fault fs.mtp.session.log fs.mtp.session.store
      (Mtp.deleteRequest h) = none := by
    rw [hstage.policy]
    refine honly.others _ _ _ ?_ ?_
    · show Op.deleteObject ≠ Op.setObjectPropValue
      decide
    · show Op.deleteObject ≠ Op.moveObject
      decide
  obtain ⟨m, hrun, hturned⟩ := Mtp.deleteObject_ok hfault (by rw [hstore, hz]; rfl)
  exact ⟨m, hrun, hstore ▸ hturned⟩

end Stage

/-! ## The walks of a rename -/

/-- What a rename does after its walks. -/
def relocate (target newName : Str) (k o d : UInt32) : Proc Int (Fs Phone) Int := do
  match ← clearTarget target newName k d with
  | none => pure 0
  | some aside => do
      moveAcross k o d
      renameInPlace k d newName aside
      dropAside aside
      forgetListing o
      forgetListing d
      pure 0

/-- A rename whose walks find an object and both folders. -/
theorem opRename_relocates {handle : UInt32} {fs₁ fs₂ fs₃ : Fs Phone} (hobject : handle ≠ root)
    (hnamed : (splitParent target).2 ≠ []) (hsource : resolved source fs = (.ok handle, fs₁))
    (hold : resolved (splitParent source).1 fs₁ = (.ok o, fs₂))
    (hnew : resolved (splitParent target).1 fs₂ = (.ok d, fs₃)) :
    opRename source target fs = relocate target (splitParent target).2 handle o d fs₃ := by
  rw [opRename, Proc.bind_ok hsource, if_neg hobject]
  dsimp only
  rw [if_neg (by rw [List.isEmpty_iff]; exact hnamed), Proc.bind_ok hold, Proc.bind_ok hnew]
  rfl

/-- A rename ends with its walks, and the device is as it was, or its walks find an object and both
folders. -/
theorem opRename_cases (source target : Str) (fs : Fs Phone) :
    (∃ rc fs', opRename source target fs = (.error rc, fs') ∧ Mtp.SameDevice fs.mtp fs'.mtp) ∨
      ∃ handle o d fs₁ fs₂ fs₃, handle ≠ root ∧ (splitParent target).2 ≠ [] ∧
        resolved source fs = (.ok handle, fs₁) ∧
        resolved (splitParent source).1 fs₁ = (.ok o, fs₂) ∧
        resolved (splitParent target).1 fs₂ = (.ok d, fs₃) ∧ Mtp.SameDevice fs.mtp fs₃.mtp := by
  rcases hsource : resolved source fs with ⟨rc | handle, fs₁⟩
  · exact .inl ⟨rc, fs₁, by rw [opRename, Proc.bind_error hsource], device_resolved hsource⟩
  have h₁ := device_resolved hsource
  by_cases hroot : handle = root
  · exact .inl ⟨-Libc.EIO, fs₁, by rw [opRename, Proc.bind_ok hsource, if_pos hroot]; rfl, h₁⟩
  by_cases hnamed : (splitParent target).2.isEmpty
  · refine .inl ⟨-Libc.EIO, fs₁, ?_, h₁⟩
    rw [opRename, Proc.bind_ok hsource, if_neg hroot]
    dsimp only
    rw [if_pos hnamed]
    rfl
  rcases hold : resolved (splitParent source).1 fs₁ with ⟨rc | o, fs₂⟩
  · refine .inl ⟨rc, fs₂, ?_, h₁.trans (device_resolved hold)⟩
    rw [opRename, Proc.bind_ok hsource, if_neg hroot]
    dsimp only
    rw [if_neg hnamed, Proc.bind_error hold]
  have h₂ := h₁.trans (device_resolved hold)
  rcases hnew : resolved (splitParent target).1 fs₂ with ⟨rc | d, fs₃⟩
  · refine .inl ⟨rc, fs₃, ?_, h₂.trans (device_resolved hnew)⟩
    rw [opRename, Proc.bind_ok hsource, if_neg hroot]
    dsimp only
    rw [if_neg hnamed, Proc.bind_ok hold, Proc.bind_error hnew]
  exact .inr ⟨handle, o, d, fs₁, fs₂, fs₃, hroot, fun hnil => hnamed (List.isEmpty_iff.mpr hnil),
    rfl, hold, hnew, h₂.trans (device_resolved hnew)⟩

/-- The folders on the way of the new path that are still unread after the walk of the old
path. -/
def unreadAfter (fs : Fs Phone) (source path : Str) : List UInt32 :=
  (fs.unread path).filter fun r => r ∉ fs.store.asked root (splitPath source)

/-- The walks to the object and to its folder. -/
theorem rename_walks (h : Sees fs) (hname : Filename (splitParent source).2)
    (hk : fs.hit source = some k) :
    ∃ fs₁ fs₂ o x, resolved source fs = (.ok k, fs₁) ∧
      resolved (splitParent source).1 fs₁ = (.ok o, fs₂) ∧ Looked fs fs₂ ∧
      fs.store.child o (splitParent source).2 = some x ∧ x.key = k ∧
      fs₂.tree.listed o = true ∧ ∀ path, fs₂.unread path = fs.unreadAfter source path := by
  obtain ⟨fs₁, o, x, e, hrun, hlooked, hfinds, rfl⟩ := finds_of_hit (h.way source) hname hk
  have h₁ := hlooked.sees h
  obtain ⟨fs₂, hrun₂, hlooked₂, -⟩ := resolved_of_hit (h₁.way _) hfinds.folder
  have hstore : fs₁.store = fs.store := hlooked.store
  have hasked := asked_path hname (names_of_hit hfinds.folder).2
  have hlisted : ∀ r ∈ fs.store.asked root (splitPath source), fs₂.tree.listed r = true :=
    fun r hr => hlooked₂.listed r (hfinds.listed r (hstore ▸ hr))
  refine ⟨fs₁, fs₂, o, x, hrun, hrun₂, hlooked.trans hlooked₂, hstore ▸ hfinds.object, rfl, ?_,
    fun path => ?_⟩
  · refine hlisted o ?_
    rw [← hstore, hasked]
    exact List.mem_append_right _ List.mem_cons_self
  · rw [unreadAfter, unread, unread, (hlooked.trans hlooked₂).store, List.filter_filter]
    refine List.filter_congr fun r _ => ?_
    by_cases hr : r ∈ fs.store.asked root (splitPath source)
    · rw [hlisted r hr]
      simp [hr]
    · have hsame : fs₂.tree.listed r = fs.tree.listed r := by
        by_contra hne
        have hread : fs₂.tree.listed r = true := by
          by_contra hno
          rw [Bool.not_eq_true] at hno
          cases hold : fs.tree.listed r with
          | false => exact hne (hno.trans hold.symm)
          | true =>
              rw [(hlooked.trans hlooked₂).listed r hold] at hno
              cases hno
        rcases resolved_reads (h₁.way _) hrun₂ hread with hread | hread
        · rcases resolved_reads (h.way _) hrun hread with hread' | hread'
          · rw [hread', (hlooked.trans hlooked₂).listed r hread'] at hne
            exact hne rfl
          · exact hr hread'
        · refine hr ?_
          rw [← hstore, hasked]
          exact List.mem_append_left _ hread
      rw [hsame]
      simp [hr]

/-- What a walk to a target finds, once its folder was walked to. -/
theorem hit_target (hname : Filename (splitParent target).2)
    (hd : fs.names (splitParent target).1 = some d)
    (hread : fs.unread (splitParent target).1 = []) :
    fs.hit target = (fs.store.child d (splitParent target).2).map Node.key := by
  have hless : (fs.unread target).length ≤ 1 := by
    rw [unread] at hread
    rw [unread, asked_path hname hd, List.filter_append, hread]
    exact List.length_filter_le _ _
  rw [hit, if_pos (Nat.lt_of_le_of_lt hless (by decide)), names_path hname, hd]
  rfl

/-- A rename up to its first change. -/
theorem opRename_walked (h : Sees fs) (hsource : Filename (splitParent source).2)
    (htarget : Filename (splitParent target).2) (hk : fs.hit source = some k)
    (hd : fs.names (splitParent target).1 = some d)
    (hnear : (fs.unreadAfter source (splitParent target).1).length < maxWalk) :
    ∃ fs₃ o x, Looked fs fs₃ ∧ fs.store.child o (splitParent source).2 = some x ∧ x.key = k ∧
      fs₃.tree.listed o = true ∧
      fs₃.hit target = (fs.store.child d (splitParent target).2).map Node.key ∧
      opRename source target fs = relocate target (splitParent target).2 k o d fs₃ := by
  obtain ⟨fs₁, fs₂, o, x, hrun₁, hrun₂, hlooked, hx, rfl, hlisted, hunread⟩ :=
    rename_walks h hsource hk
  have hhit : fs₂.hit (splitParent target).1 = some d := by
    rw [hit, hunread, if_pos hnear, hlooked.names, hd]
  obtain ⟨fs₃, hrun₃, hlooked₃, hread⟩ := resolved_of_hit ((hlooked.sees h).way _) hhit
  have hall := hlooked.trans hlooked₃
  refine ⟨fs₃, o, x, hall, hx, rfl, hlooked₃.listed o hlisted, ?_, ?_⟩
  · rw [hit_target htarget ((hall.names _).trans hd) hread, hall.store]
  · have hroot : x.key ≠ root :=
      fs.store.objects.rootless x (Store.mem_of_find (Store.find_of_child hx))
    exact opRename_relocates hroot htarget.nonempty hrun₁ hrun₂ hrun₃

/-- A rename whose first walk, or the walk to the new folder, finds nothing. -/
theorem opRename_lost (h : Sees fs) (hsource : Filename (splitParent source).2)
    (htarget : Filename (splitParent target).2)
    (hfar : fs.hit source = none ∨
      maxWalk ≤ (fs.unreadAfter source (splitParent target).1).length) :
    (opRename source target fs).1 = .error (-Libc.ENOENT) := by
  cases hk : fs.hit source with
  | none =>
      obtain ⟨fs', hrun, -⟩ := resolved_of_miss (h.way source) hk
      rw [opRename, Proc.bind_error hrun]
  | some k =>
      obtain ⟨fs₁, fs₂, o, x, hrun₁, hrun₂, hlooked, hx, rfl, -, hunread⟩ :=
        rename_walks h hsource hk
      have hmiss : fs₂.hit (splitParent target).1 = none := by
        rw [hit, hunread, if_neg]
        rcases hfar with hnone | hfar
        · rw [hnone] at hk
          cases hk
        · exact Nat.not_lt_of_le hfar
      obtain ⟨fs₃, hrun₃, -⟩ := resolved_of_miss ((hlooked.sees h).way _) hmiss
      have hroot : x.key ≠ root :=
        fs.store.objects.rootless x (Store.mem_of_find (Store.find_of_child hx))
      rw [opRename, Proc.bind_ok hrun₁, if_neg hroot]
      dsimp only
      rw [if_neg (by rw [List.isEmpty_iff]; exact htarget.nonempty), Proc.bind_ok hrun₂,
        Proc.bind_error hrun₃]

/-! ## The changes of a rename -/

end Fs

namespace Store

/-- The store once the object that holds the new name moved aside. -/
def cleared (s : Store) (taken : Option Object) (aside : Str) : Store :=
  match taken with
  | none => s
  | some y => s.rename y.key aside

/-- The store once the object that moved aside is gone. -/
def dropped (s : Store) (taken : Option Object) : Store :=
  match taken with
  | none => s
  | some y => s.remove y.key

variable {s s' : Store} {x y z : Object} {k d : UInt32} {name aside : Str}
  {taken : Option Object}

theorem find_cleared : (s.cleared taken aside).find k = (s.find k).map fun z =>
    if taken.map Node.key = some k then { z with name := Utf16.fit 254 aside } else z := by
  cases taken with
  | none =>
      rw [cleared]
      simp
  | some y =>
      rw [cleared, find_rename]
      simp [eq_comm]

theorem find_dropped (hfile : ∀ y, taken = some y → s.children y.key = []) :
    (s.dropped taken).find k = if taken.map Node.key = some k then none else s.find k := by
  cases taken with
  | none =>
      rw [dropped]
      simp
  | some y =>
      have hbelow : k ∈ s.objects.below y.key ↔ y.key = k :=
        ⟨fun h => (s.objects.below_of_childless (hfile y rfl) k h).symm,
          fun h => h ▸ s.objects.mem_below_self _⟩
      rw [dropped, find_remove]
      simp [hbelow]

end Store

namespace Fs

variable {fs fs' fs₀ : Fs Phone} {path source target newName : Str} {d k o : UInt32}
  {x y : Object} {s s' : Store} {taken : Option Object}

theorem stage_of_looked (h : Sees fs) (hlooked : Looked fs fs')
    (hx : fs.store.find x.key = some x) (hlisted : fs.tree.listed x.parent = true) :
    Stage fs fs' x fs.store := by
  refine ⟨hlooked.device.samePhone, hlooked.store, ?_⟩
  have hmem : x ∈ fs.store.children x.parent := Store.mem_children.mpr ⟨hx, rfl⟩
  have hlists := Store.lists_of_houses (Store.houses_of_mem_children hmem)
  have hholds := (hlooked.sees h).coherent x.parent (hlooked.listed _ hlisted)
    (hlooked.store ▸ hlists)
  obtain ⟨e, hentry, hshows⟩ := hholds.entries x (hlooked.store ▸ hmem)
  exact ⟨e, hentry, hshows.name⟩

/-- The first change: the name becomes free. -/
theorem clearTarget_works (h : Sees fs) (honly : fs.mtp.session.policy.RefusesOnlyTaken)
    (hx : fs.store.find x.key = some x) (hlisted : fs.tree.listed x.parent = true)
    (hhit : fs.hit target = taken.map Node.key)
    (htaken : ∀ y, taken = some y → fs.store.find y.key = some y ∧ y.key ≠ x.key ∧
      ¬ fs.store.Taken y.parent y.key (Utf16.fit 254 (asideOf newName fs.spoolCount))) :
    ∃ fs', clearTarget target newName x.key d fs = (.ok (some (taken.map Node.key)), fs') ∧
      Stage fs fs' x (fs.store.cleared taken (asideOf newName fs.spoolCount)) := by
  cases taken with
  | none =>
      obtain ⟨fs', hrun, hlooked⟩ := @clearTarget_free _ _ newName d x.key h hhit
      exact ⟨fs', hrun, stage_of_looked h hlooked hx hlisted⟩
  | some y =>
      obtain ⟨hy, hne, hfree⟩ := htaken y rfl
      have hroot : y.key ≠ root := fs.store.objects.rootless y (Store.mem_of_find hy)
      obtain ⟨fs', hlooked, hrun⟩ := @clearTarget_taken _ _ newName d x.key h _ hhit hne hroot
      have hstage := stage_of_looked h hlooked hx hlisted
      obtain ⟨m, hdone, hturned⟩ := hstage.renameObject honly hy hfree
      rw [hdone] at hrun
      have htree : (fs'.tree.forgetListing d).entries = fs'.tree.entries := rfl
      exact ⟨_, hrun, hstage.turned hturned htree⟩

/-- The second change: the object is in the new folder. -/
theorem moveAcross_works (honly : fs₀.mtp.session.policy.RefusesOnlyTaken)
    (hcan : Mtp.canMove fs₀.mtp = true) (hstage : Stage fs₀ fs x s) {z : Object}
    (hz : s.find x.key = some z) (hfile : z.folder = false) (hd : s.objects.Houses d)
    (hfree : d ≠ z.parent → ¬ s.Taken d x.key z.name) :
    ∃ fs' s', moveAcross x.key z.parent d fs = (.ok (), fs') ∧ Stage fs₀ fs' x s' ∧
      ∀ k, s'.find k = (s.find k).map fun w => if k = x.key then { w with parent := d } else w := by
  by_cases hsame : d = z.parent
  · refine ⟨fs, s, hsame ▸ moveAcross_stays, hstage, fun k => ?_⟩
    by_cases hk : k = x.key
    · rw [hk, hz, Option.map_some, if_pos rfl, hsame]
    · simp [hk]
  · obtain ⟨s', hmove⟩ := Store.exists_move hz hfile hd
    obtain ⟨m, hdone, hturned⟩ := hstage.moveObject honly hz (Store.lists_of_houses hd) hmove
      (hfree hsame)
    have hcan' : Mtp.canMove fs.mtp = true := by
      rw [Mtp.canMove, hstage.phone.info]
      exact hcan
    have hrun := @moveAcross_moves _ _ x.key _ hsame hcan'
    rw [hdone] at hrun
    exact ⟨_, s', hrun, hstage.turned hturned rfl, fun k => Store.find_move hmove⟩

/-- The third change: the object has the new name. -/
theorem renameInPlace_works (honly : fs₀.mtp.session.policy.RefusesOnlyTaken)
    (hcan : Mtp.canRename fs₀.mtp = true) (hstage : Stage fs₀ fs x s) {z : Object}
    (hz : s.find x.key = some z) (hname : z.name = x.name)
    (hfits : (Utf16.encode newName).length ≤ 254) {aside : Option UInt32}
    (hfree : x.name ≠ newName → ¬ s.Taken z.parent x.key newName) :
    ∃ fs' s', renameInPlace x.key d newName aside fs = (.ok (), fs') ∧ Stage fs₀ fs' x s' ∧
      ∀ k, s'.find k = (s.find k).map fun w => if k = x.key then { w with name := newName } else w := by
  obtain ⟨e, hentry, hold⟩ := hstage.entry
  by_cases hsame : x.name = newName
  · refine ⟨fs, s, renameInPlace_keeps_name hentry (hold.trans hsame), hstage, fun k => ?_⟩
    by_cases hk : k = x.key
    · rw [hk, hz, Option.map_some, if_pos rfl, ← hsame, ← hname]
    · simp [hk]
  · have hfit : Utf16.fit 254 newName = newName := Utf16.fit_eq_self hfits
    obtain ⟨m, hdone, hturned⟩ :=
      hstage.renameObject honly hz (by rw [hfit]; exact hfree hsame)
    have hcan' : Mtp.canRename fs.mtp = true := by
      rw [Mtp.canRename, hstage.phone.info]
      exact hcan
    rcases @renameInPlace_renames _ newName d _ aside _ hentry (fun h => hsame (hold.symm.trans h))
      hcan' with ⟨m', hdone', hrun⟩ | ⟨err, m', fs', hdone', -⟩
    · cases hdone.symm.trans hdone'
      refine ⟨_, _, hrun, hstage.turned hturned rfl, fun k => ?_⟩
      rw [Store.find_rename, hfit]
    · cases hdone.symm.trans hdone'

/-- The last change: the object that held the name is gone. -/
theorem dropAside_works (honly : fs₀.mtp.session.policy.RefusesOnlyTaken)
    (hstage : Stage fs₀ fs x s) (htaken : ∀ y, taken = some y → (s.find y.key).isSome) :
    ∃ fs', dropAside (taken.map Node.key) fs = (.ok (), fs') ∧ Stage fs₀ fs' x (s.dropped taken) := by
  cases taken with
  | none => exact ⟨fs, rfl, hstage⟩
  | some y =>
      obtain ⟨z, hz⟩ := Option.isSome_iff_exists.mp (htaken y rfl)
      obtain ⟨m, hdone, hturned⟩ := hstage.deleteObject honly hz
      refine ⟨{ fs with mtp := m }, ?_, hstage.turned hturned rfl⟩
      rw [Option.map_some, dropAside, Proc.bind_ok (tryMtp_run _ _), hdone]
      rfl

/-- The name the object that is replaced gets for a while, as it arrives at the device. -/
def asideCut (fs : Fs Phone) (newName : Str) : Str :=
  Utf16.fit 254 (asideOf newName fs.spoolCount)

/-- Nothing is in the way of a file on the device: the new name arrives whole, the name
aside is free and is not the new name, and a file that moves to another folder meets no
object there with its old name. -/
structure Free (s : Store) (x : Object) (d : UInt32) (newName cut : Str) : Prop where
  fits : (Utf16.encode newName).length ≤ 254
  aside : ∀ y, s.child d newName = some y → cut ≠ newName ∧ ¬ s.Taken d y.key cut
  across : x.parent ≠ d →
    (∀ z ∈ s.children d, s.child d newName ≠ some z → z.name ≠ x.name) ∧
      ∀ y, s.child d newName = some y → cut ≠ x.name

section Relocate

variable {z : Object} {aside cut : Str} {s₁ s₂ s₃ : Store}

/-- The object that has the new name. -/
theorem taken_of_key (hk : (s.child d newName).map Node.key = some k) :
    ∃ y, s.child d newName = some y ∧ y.key = k :=
  Option.map_eq_some_iff.mp hk

theorem houses_cleared (hd : s.objects.Houses d) :
    (s.cleared (s.child d newName) aside).objects.Houses d := by
  refine Store.houses_iff.mpr ((Store.houses_iff.mp hd).imp_right ?_)
  intro hsome
  obtain ⟨f, hf, hfolder⟩ := hsome
  rw [Store.find_cleared, hf, Option.map_some]
  refine ⟨_, rfl, ?_⟩
  split <;> exact hfolder

variable (hfree : Free s x d newName (Utf16.fit 254 aside))
include hfree

/-- The file can move to the new folder. -/
theorem Free.moves (hcross : x.parent ≠ d) :
    ¬ (s.cleared (s.child d newName) aside).Taken d x.key x.name := by
  intro htaken
  obtain ⟨k, w, hw, hparent, -, hname⟩ := Store.taken_iff.mp htaken
  obtain ⟨hbeside, hcut⟩ := hfree.across hcross
  rw [Store.find_cleared] at hw
  obtain ⟨w₀, hw₀, rfl⟩ := Option.map_eq_some_iff.mp hw
  by_cases hmoved : (s.child d newName).map Node.key = some k
  · rw [if_pos hmoved] at hname
    obtain ⟨y, hy, -⟩ := taken_of_key hmoved
    exact hcut y hy hname
  · rw [if_neg hmoved] at hname hparent
    obtain rfl := Store.find_key hw₀
    refine hbeside w₀ (Store.mem_children.mpr ⟨hw₀, hparent⟩) (fun hy => hmoved ?_) hname
    rw [hy, Option.map_some]

/-- The file can get the new name there. -/
theorem Free.renames (hdistinct : s.Distinct)
    (hfind : ∀ k, s₂.find k = ((s.cleared (s.child d newName) aside).find k).map fun w =>
      if k = x.key then { w with parent := d } else w) : ¬ s₂.Taken d x.key newName := by
  intro htaken
  obtain ⟨k, w, hw, hparent, hk, hname⟩ := Store.taken_iff.mp htaken
  rw [hfind, Store.find_cleared] at hw
  obtain ⟨w₁, hw₁, rfl⟩ := Option.map_eq_some_iff.mp hw
  obtain ⟨w₀, hw₀, rfl⟩ := Option.map_eq_some_iff.mp hw₁
  rw [if_neg hk] at hname hparent
  by_cases hmoved : (s.child d newName).map Node.key = some k
  · rw [if_pos hmoved] at hname
    obtain ⟨y, hy, -⟩ := taken_of_key hmoved
    exact (hfree.aside y hy).1 hname
  · rw [if_neg hmoved] at hname hparent
    obtain rfl := Store.find_key hw₀
    rw [hdistinct.child_eq_some.mpr ⟨hw₀, hparent, hname⟩, Option.map_some] at hmoved
    exact hmoved rfl

omit hfree

/-- The objects after the move and the rename. -/
theorem find_renamed
    (hfind₂ : ∀ k, s₂.find k = ((s.cleared (s.child d newName) aside).find k).map fun w =>
      if k = x.key then { w with parent := d } else w)
    (hfind₃ : ∀ k, s₃.find k = (s₂.find k).map fun w =>
      if k = x.key then { w with name := newName } else w) {k : UInt32} (hk : k ≠ x.key) :
    s₃.find k = (s.find k).map fun z => if (s.child d newName).map Node.key = some k then
      { z with name := Utf16.fit 254 aside } else z := by
  rw [hfind₃, hfind₂, Store.find_cleared, Option.map_map, Option.map_map]
  congr 1
  funext z
  simp [hk]

variable (htaken : ∀ y, s.child d newName = some y → y.folder = false ∧ y.key ≠ x.key)
include htaken

theorem find_cleared_self (hx : s.find x.key = some x) :
    (s.cleared (s.child d newName) aside).find x.key = some x := by
  have hne : (s.child d newName).map Node.key ≠ some x.key := by
    intro hk
    obtain ⟨y, hy, hkey⟩ := taken_of_key hk
    exact (htaken y hy).2 hkey
  rw [Store.find_cleared, hx, Option.map_some, if_neg hne]

/-- The object that has the new name is a file until it goes. -/
theorem file_renamed
    (hfind : ∀ k, k ≠ x.key → s₃.find k = (s.find k).map fun z =>
      if (s.child d newName).map Node.key = some k then { z with name := cut } else z)
    (hy : s.child d newName = some y) : ∃ z, s₃.find y.key = some z ∧ z.folder = false := by
  rw [hfind y.key (htaken y hy).2, Store.find_of_child hy, Option.map_some]
  refine ⟨_, rfl, ?_⟩
  split <;> exact (htaken y hy).1

/-- **What the four changes come to.** -/
theorem relocated_of_finds (hself : s₃.find x.key = some { x with parent := d, name := newName })
    (hfind : ∀ k, k ≠ x.key → s₃.find k = (s.find k).map fun z =>
      if (s.child d newName).map Node.key = some k then { z with name := cut } else z) :
    Store.Relocated s (s₃.dropped (s.child d newName)) x d newName := by
  have hempty : ∀ y, s.child d newName = some y → s₃.children y.key = [] := by
    intro y hy
    obtain ⟨z, hz, hfile'⟩ := file_renamed htaken hfind hy
    rw [← Store.find_key hz]
    exact s₃.objects.children_of_file (Store.mem_of_find hz) hfile'
  refine ⟨?_, fun y hy => ?_, fun k hk hother => ?_⟩
  · rw [Store.find_dropped hempty, if_neg, hself]
    intro hk
    obtain ⟨y, hy, hkey⟩ := taken_of_key hk
    exact (htaken y hy).2 hkey
  · rw [Store.find_dropped hempty, if_pos]
    rw [hy, Option.map_some]
  · have hnot : (s.child d newName).map Node.key ≠ some k := by
      intro hmoved
      obtain ⟨y, hy, hkey⟩ := taken_of_key hmoved
      exact hother y hy hkey.symm
    rw [Store.find_dropped hempty, if_neg hnot, hfind k hk]
    simp [hnot]

end Relocate

/-- **The changes of a rename, when nothing is in the way.** -/
theorem relocate_works (h : Sees fs) (hdistinct : fs.store.Distinct)
    (hx : fs.store.find x.key = some x) (hfile : x.folder = false)
    (hlisted : fs.tree.listed x.parent = true) (hd : fs.store.objects.Houses d)
    (hhit : fs.hit target = (fs.store.child d newName).map Node.key)
    (htaken : ∀ y, fs.store.child d newName = some y → y.folder = false ∧ y.key ≠ x.key)
    (honly : fs.mtp.session.policy.RefusesOnlyTaken) (hmove : Mtp.canMove fs.mtp = true)
    (hrename : Mtp.canRename fs.mtp = true)
    (hfree : Free fs.store x d newName (fs.asideCut newName)) :
    ∃ fs', relocate target newName x.key x.parent d fs = (.ok 0, fs') ∧
      Store.Relocated fs.store fs'.store x d newName := by
  -- The name becomes free.
  obtain ⟨fs₁, hrun₁, hstage₁⟩ := @clearTarget_works fs target newName d x _ h honly hx hlisted
    hhit fun y hy => by
      have hparent := (Store.mem_children.mp (Store.mem_of_child hy).1).2
      exact ⟨Store.find_of_child hy, (htaken y hy).2, hparent ▸ (hfree.aside y hy).2⟩
  have hx₁ := @find_cleared_self newName d x fs.store (asideOf newName fs.spoolCount) htaken hx
  have hd₁ := @houses_cleared newName d fs.store (asideOf newName fs.spoolCount) hd
  -- The object is in the new folder, and gets its name there.
  obtain ⟨fs₂, s₂, hrun₂, hstage₂, hfind₂⟩ := moveAcross_works honly hmove hstage₁ hx₁ hfile hd₁
    fun hcross => hfree.moves (Ne.symm hcross)
  have hx₂ : s₂.find x.key = some { x with parent := d } := by
    rw [hfind₂, hx₁, Option.map_some, if_pos rfl]
  obtain ⟨fs₃, s₃, hrun₃, hstage₃, hfind₃⟩ := @renameInPlace_works fs₂ fs newName d x s₂ honly
    hrename hstage₂ _ hx₂ rfl hfree.fits ((fs.store.child d newName).map Node.key)
    fun _ => hfree.renames hdistinct hfind₂
  have hfind := @find_renamed newName d x fs.store _ _ _ hfind₂ hfind₃
  -- The object that held the name is gone.
  obtain ⟨fs₄, hrun₄, hstage₄⟩ := dropAside_works honly hstage₃ fun y hy => by
    obtain ⟨z, hz, -⟩ := file_renamed htaken (fun k hk => hfind hk) hy
    rw [hz]
    rfl
  refine ⟨{ fs₄ with tree := (fs₄.tree.forgetListing x.parent).forgetListing d }, ?_, ?_⟩
  · rw [relocate, Proc.bind_ok hrun₁]
    dsimp only
    rw [Proc.bind_ok hrun₂, Proc.bind_ok hrun₃, Proc.bind_ok hrun₄,
      Proc.bind_ok (forgetListing_run _ _), Proc.bind_ok (forgetListing_run _ _)]
    rfl
  · show Store.Relocated fs.store fs₄.store x d newName
    rw [hstage₄.store]
    refine relocated_of_finds htaken ?_ fun k hk => hfind hk
    rw [hfind₃, hx₂, Option.map_some, if_pos rfl]

/-! ## What is in the way -/

section Refused

variable (hevery : fs₀.mtp.session.policy.RefusesTaken) (hstage : Stage fs₀ fs x s)
  {z : Object}
include hevery hstage

theorem Stage.renameObject_refused {h : UInt32} {name : Str} (hz : s.find h = some z)
    (htaken : s.Taken z.parent h (Utf16.fit 254 name)) :
    ∃ e m, Mtp.renameObject h name fs.mtp = (.error e, m) := by
  have hstore : fs.mtp.session.store = s := hstage.store
  have hfault := hevery.renames fs.mtp.session.log s h name z hz htaken
  obtain ⟨f, hf⟩ := Option.ne_none_iff_exists'.mp hfault
  rw [← hstage.policy, ← hstore] at hf
  obtain ⟨e, m, hrun, -⟩ := Mtp.renameObject_faulted hf
  exact ⟨e, m, hrun⟩

theorem moveAcross_refused (hcan : Mtp.canMove fs₀.mtp = true) (hne : d ≠ o)
    (hz : s.find x.key = some z) (htaken : s.Taken d x.key z.name) :
    ∃ fs', moveAcross x.key o d fs = (.error (-Libc.EIO), fs') := by
  have hstore : fs.mtp.session.store = s := hstage.store
  have hfault := hevery.moves fs.mtp.session.log s fs.mtp.storage x.key d z hz htaken
  obtain ⟨f, hf⟩ := Option.ne_none_iff_exists'.mp hfault
  rw [← hstage.policy, ← hstore] at hf
  obtain ⟨e, m, hrun, -⟩ := Mtp.moveObject_faulted hf
  have hcan' : Mtp.canMove fs.mtp = true := by
    rw [Mtp.canMove, hstage.phone.info]
    exact hcan
  have hmove := @moveAcross_moves _ _ x.key _ hne hcan'
  rw [hrun] at hmove
  exact ⟨_, hmove⟩

theorem renameInPlace_refused (hcan : Mtp.canRename fs₀.mtp = true) {aside : Option UInt32}
    (hne : x.name ≠ newName) (hz : s.find x.key = some z)
    (htaken : s.Taken z.parent x.key (Utf16.fit 254 newName)) :
    ∃ fs', renameInPlace x.key d newName aside fs = (.error (-Libc.EIO), fs') := by
  obtain ⟨e, m, hrefused⟩ := hstage.renameObject_refused hevery hz htaken
  obtain ⟨entry, hentry, hold⟩ := hstage.entry
  have hcan' : Mtp.canRename fs.mtp = true := by
    rw [Mtp.canRename, hstage.phone.info]
    exact hcan
  rcases @renameInPlace_renames _ newName d _ aside _ hentry (fun h => hne (hold.symm.trans h))
    hcan' with ⟨m', hdone, -⟩ | ⟨err, m', fs', -, hrun⟩
  · cases hrefused.symm.trans hdone
  · exact ⟨fs', hrun⟩

end Refused

/-- **What a rename that worked found free.** -/
theorem free_of_relocate (h : Sees fs) (hx : fs.store.find x.key = some x)
    (hfile : x.folder = false) (hlisted : fs.tree.listed x.parent = true)
    (hd : fs.store.objects.Houses d)
    (hhit : fs.hit target = (fs.store.child d newName).map Node.key)
    (htaken : ∀ y, fs.store.child d newName = some y → y.folder = false ∧ y.key ≠ x.key)
    (hapart : fs.store.child d newName ≠ none → x.parent ≠ d ∨ x.name ≠ newName)
    (honly : fs.mtp.session.policy.RefusesOnlyTaken)
    (hevery : fs.mtp.session.policy.RefusesTaken) (hmove : Mtp.canMove fs.mtp = true)
    (hrename : Mtp.canRename fs.mtp = true) (hfits : (Utf16.encode newName).length ≤ 254)
    (hrun : relocate target newName x.key x.parent d fs = (.ok 0, fs')) :
    Free fs.store x d newName (fs.asideCut newName) := by
  have hstage : Stage fs fs x fs.store := stage_of_looked h (.refl fs) hx hlisted
  rw [relocate] at hrun
  -- The object that has the new name moved aside.
  have hfree : ∀ y, fs.store.child d newName = some y →
      ¬ fs.store.Taken d y.key (fs.asideCut newName) := by
    intro y hy hin
    have hparent := (Store.mem_children.mp (Store.mem_of_child hy).1).2
    obtain ⟨hfile', hne⟩ := htaken y hy
    have hfind := Store.find_of_child hy
    have hroot : y.key ≠ root := fs.store.objects.rootless y (Store.mem_of_find hfind)
    rw [hy] at hhit
    obtain ⟨fs₁, hlooked, hclear⟩ := @clearTarget_taken _ _ newName d x.key h _ hhit hne hroot
    obtain ⟨e, m, hrefused⟩ := (stage_of_looked h hlooked hx hlisted).renameObject_refused hevery
      hfind (hparent.symm ▸ hin)
    rw [hrefused] at hclear
    rw [Proc.bind_error hclear] at hrun
    cases hrun
  obtain ⟨fs₁, hrun₁, hstage₁⟩ := @clearTarget_works fs target newName d x _ h honly hx hlisted
    hhit fun y hy => by
      have hparent := (Store.mem_children.mp (Store.mem_of_child hy).1).2
      exact ⟨Store.find_of_child hy, (htaken y hy).2, hparent ▸ hfree y hy⟩
  rw [Proc.bind_ok hrun₁] at hrun
  dsimp only at hrun
  have hx₁ := @find_cleared_self newName d x fs.store (asideOf newName fs.spoolCount) htaken hx
  -- The object moved to the new folder.
  have hmoves : x.parent ≠ d → ¬ (fs.store.cleared (fs.store.child d newName)
      (asideOf newName fs.spoolCount)).Taken d x.key x.name := by
    intro hcross hin
    obtain ⟨fs₂, hrefused⟩ := moveAcross_refused hevery hstage₁ hmove (Ne.symm hcross) hx₁ hin
    rw [Proc.bind_error hrefused] at hrun
    cases hrun
  have hstay : ∀ y, fs.store.child d newName = some y →
      (fs.store.cleared (fs.store.child d newName) (asideOf newName fs.spoolCount)).find y.key =
        some { y with name := fs.asideCut newName } := by
    intro y hy
    rw [Store.find_cleared, Store.find_of_child hy, hy, Option.map_some, Option.map_some, if_pos rfl,
      asideCut]
  have hacross : x.parent ≠ d →
      (∀ z ∈ fs.store.children d, fs.store.child d newName ≠ some z → z.name ≠ x.name) ∧
        ∀ y, fs.store.child d newName = some y → fs.asideCut newName ≠ x.name := by
    intro hcross
    refine ⟨fun z hz hother hname => hmoves hcross ?_, fun y hy hname => hmoves hcross ?_⟩
    · obtain ⟨hfind, hparent⟩ := Store.mem_children.mp hz
      refine Store.taken_iff.mpr ⟨z.key, z, ?_, hparent, ?_, hname⟩
      · rw [Store.find_cleared, hfind, Option.map_some, if_neg]
        intro hkey
        obtain ⟨y, hy, hsame⟩ := taken_of_key hkey
        have hfind' := Store.find_of_child hy
        rw [hsame, hfind] at hfind'
        cases hfind'
        exact hother hy
      · intro hkey
        rw [hkey, hx] at hfind
        cases hfind
        exact hcross hparent
    · have hparent := (Store.mem_children.mp (Store.mem_of_child hy).1).2
      exact Store.taken_iff.mpr ⟨y.key, _, hstay y hy, hparent, (htaken y hy).2, hname⟩
  refine ⟨hfits, fun y hy => ⟨fun hcut => ?_, hfree y hy⟩, hacross⟩
  -- The name aside is the new name, so the object cannot get it.
  have hd₁ := @houses_cleared newName d fs.store (asideOf newName fs.spoolCount) hd
  obtain ⟨fs₂, s₂, hrun₂, hstage₂, hfind₂⟩ := moveAcross_works honly hmove hstage₁ hx₁ hfile hd₁
    fun hcross => hmoves (Ne.symm hcross)
  rw [Proc.bind_ok hrun₂] at hrun
  have hname : x.name ≠ newName := by
    intro hname
    rcases hapart (by rw [hy]; exact Option.some_ne_none _) with hcross | hne
    · exact (hacross hcross).2 y hy (hcut.trans hname.symm)
    · exact hne hname
  have hx₂ : s₂.find x.key = some { x with parent := d } := by
    rw [hfind₂, hx₁, Option.map_some, if_pos rfl]
  have hin : s₂.Taken d x.key (Utf16.fit 254 newName) := by
    have hparent := (Store.mem_children.mp (Store.mem_of_child hy).1).2
    refine Store.taken_iff.mpr ⟨y.key, { y with name := fs.asideCut newName }, ?_, hparent,
      (htaken y hy).2, ?_⟩
    · rw [hfind₂, hstay y hy, Option.map_some, if_neg (htaken y hy).2]
    · rw [Utf16.fit_eq_self hfits]
      exact hcut
  obtain ⟨fs₃, hrefused⟩ := @renameInPlace_refused _ _ newName d _ _ hevery hstage₂ _ hrename
    ((fs.store.child d newName).map Node.key) hname hx₂ hin
  rw [Proc.bind_error hrefused] at hrun
  cases hrun

end Fs

end Bsdroid
