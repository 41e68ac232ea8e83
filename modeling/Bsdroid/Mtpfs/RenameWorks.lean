import Bsdroid.Mtpfs.Renaming

/-!
# When a rename does what `rename(2)` says

On a device that refuses a rename or a move only where the name is taken, `op_rename` of a
file does what `rename(2)` says exactly when nothing is in its way (`Fs.rename_works_iff`).
What is in the way is a name that is free at the end and taken on the way there: the object
keeps its old name while it moves to the new folder.
-/

namespace Bsdroid

/-! ## A device that guards its names -/

/-- Says whether a request puts an object onto a name that another object of the folder
holds. -/
def Phone.collides (s : Store) (r : Request) : Bool :=
  match r.params with
  | [h, code] =>
      match Phone.received r with
      | .ok payload =>
          match (Reader.readString "prop_str" payload).1, s.find h with
          | .ok name, some x =>
              r.code = Op.setObjectPropValue ∧ code = Property.objectFileName.toUInt32 ∧
                s.Taken x.parent h name
          | _, _ => false
      | .error _ => false
  | [h, _, arg] =>
      match s.find h with
      | some x => r.code = Op.moveObject ∧ s.Taken (Phone.folderOf arg) h x.name
      | none => false
  | _ => false

theorem invalidObjectHandle_ne_ok : Resp.invalidObjectHandle ≠ Resp.ok := by decide

/-- A device that refuses names that are taken, and does everything else. -/
def Policy.guarding : Policy :=
  { Policy.obliging with
    fault := fun _ s r =>
      if Phone.collides s r then some (.code Resp.invalidObjectHandle invalidObjectHandle_ne_ok)
      else none }

namespace Phone

variable {s : Store} {h p storage : UInt32} {name : Str}

/-- A new name collides when another object of the folder has it, as the wire cuts it. -/
theorem collides_rename : collides s (Mtp.renameRequest h name) = true ↔
    ∃ x, s.find h = some x ∧ s.Taken x.parent h (Utf16.fit 254 name) := by
  have hreceived : received (Mtp.renameRequest h name) = .ok (pushString name) :=
    Mtp.received_bytes _ _ _ (Mtp.length_pushString_le name)
  have hread : (Reader.readString "prop_str" (pushString name)).1 = .ok (Utf16.fit 254 name) := by
    have hread := Reader.readString_pushString "prop_str" name []
    rw [List.append_nil] at hread
    rw [hread]
  show (match received (Mtp.renameRequest h name) with
    | .ok payload =>
        match (Reader.readString "prop_str" payload).1, s.find h with
        | .ok name, some x => decide (Op.setObjectPropValue = Op.setObjectPropValue ∧
            Property.objectFileName.toUInt32 = Property.objectFileName.toUInt32 ∧
              s.Taken x.parent h name)
        | _, _ => false
    | .error _ => false) = true ↔ _
  rw [hreceived]
  dsimp only
  rw [hread]
  cases hx : s.find h with
  | none => simp
  | some x => simp

/-- A move collides when the new folder has an object of the name. -/
theorem collides_move (hp : s.Lists p) : collides s (Mtp.moveRequest storage h p) = true ↔
    ∃ x, s.find h = some x ∧ s.Taken p h x.name := by
  have hfolder : folderOf (Mtp.parentArg p) = p := Mtp.folderOf_parentArg (Mtp.Store.Lists.ne_all hp)
  show (match s.find h with
    | some x => decide (Op.moveObject = Op.moveObject ∧
        s.Taken (folderOf (Mtp.parentArg p)) h x.name)
    | none => false) = true ↔ _
  rw [hfolder]
  cases hx : s.find h with
  | none => simp
  | some x => simp

end Phone

theorem Policy.guarding_fault {log : List Request} {s : Store} {r : Request} :
    Policy.guarding.fault log s r = if Phone.collides s r then
      some (.code Resp.invalidObjectHandle invalidObjectHandle_ne_ok) else none := rfl

/-- A device that guards names refuses without effect, and only what collides. -/
theorem Policy.guarding_refuses {log : List Request} {s : Store} {r : Request} {f : Fault}
    (hf : Policy.guarding.fault log s r = some f) : f.Idle ∧ Phone.collides s r = true := by
  rw [guarding_fault] at hf
  by_cases hcollides : Phone.collides s r = true
  · rw [if_pos hcollides] at hf
    cases hf
    exact ⟨trivial, hcollides⟩
  · rw [if_neg hcollides] at hf
    cases hf

theorem Policy.guarding_only : Policy.guarding.RefusesOnlyTaken where
  renames log s h name f hf :=
    (Policy.guarding_refuses hf).imp_right Phone.collides_rename.mp
  moves log s storage h p f hp hf :=
    (Policy.guarding_refuses hf).imp_right (Phone.collides_move hp).mp
  others log s r hrename hmove := by
    rw [Policy.guarding_fault]
    refine if_neg fun hcollides => ?_
    unfold Phone.collides at hcollides
    split at hcollides
    · split at hcollides
      · split at hcollides
        · exact hrename (of_decide_eq_true hcollides).1
        · cases hcollides
      · cases hcollides
    · split at hcollides
      · exact hmove (of_decide_eq_true hcollides).1
      · cases hcollides
    · cases hcollides

namespace Fs

variable {fs fs' : Fs Phone} {source target : Str} {d : UInt32} {x y : Object}

/-- **What `rename(2)` asks for**: the object is at the new path with its contents, nothing
is at the old path, the object that was at the new path is gone, and every other object is
where it was. -/
structure Renamed (fs fs' : Fs Phone) (source target : Str) (x : Object) (d : UInt32) : Prop where
  store : Store.Relocated fs.store fs'.store x d (splitParent target).2
  there : fs'.names target = some x.key
  nothing : fs'.names source = none

/-- Nothing is in the way of a rename: the walks find the file and the new folder, and the
device can make each change on the way. -/
structure Clear (fs : Fs Phone) (source target : Str) (x : Object) (d : UInt32) : Prop where
  near : (fs.unread source).length < maxWalk
  folder : (fs.unreadAfter source (splitParent target).1).length < maxWalk
  free : Free fs.store x d (splitParent target).2 (fs.asideCut (splitParent target).2)

section

variable (hcoherent : fs.tree.Coherent fs.store) (hdistinct : fs.store.Distinct)
  (honly : fs.mtp.session.policy.RefusesOnlyTaken) (hmove : Mtp.canMove fs.mtp = true)
  (hrename : Mtp.canRename fs.mtp = true)
  (hsource : Filename (splitParent source).2) (htarget : Filename (splitParent target).2)
  (hx : fs.store.find x.key = some x) (hfile : x.folder = false)
  (hat : fs.names source = some x.key) (hd : fs.names (splitParent target).1 = some d)
  (hfolder : fs.store.objects.Houses d)
  (htaken : ∀ y, fs.store.child d (splitParent target).2 = some y →
    y.folder = false ∧ y.key ≠ x.key)
include hsource hx hat

/-- The folder of the file, and its name there. -/
theorem place_of_names : fs.names (splitParent source).1 = some x.parent ∧
    fs.store.child x.parent (splitParent source).2 = some x ∧ x.name = (splitParent source).2 := by
  rw [names_path hsource] at hat
  obtain ⟨o, ho, hchild⟩ := Option.bind_eq_some_iff.mp hat
  obtain ⟨x', hchild, hkey⟩ := Option.map_eq_some_iff.mp hchild
  have hfind := Store.find_of_child hchild
  rw [hkey, hx] at hfind
  cases hfind
  obtain ⟨hmem, hname⟩ := Store.mem_of_child hchild
  obtain ⟨-, rfl⟩ := Store.mem_children.mp hmem
  exact ⟨ho, hchild, hname⟩

include hcoherent hdistinct honly hmove hrename htarget hfile hd hfolder htaken

/-- **A rename does what `rename(2)` says** when nothing is in its way, on every device that
refuses names only because they are taken.  On a device that refuses every name that is
taken it does so exactly then. -/
theorem rename_works_iff :
    (Clear fs source target x d →
      ∃ fs', opRename source target fs = (.ok 0, fs') ∧ Renamed fs fs' source target x d) ∧
    (fs.mtp.session.policy.RefusesTaken →
      (∃ fs', opRename source target fs = (.ok 0, fs') ∧ Renamed fs fs' source target x d) →
        Clear fs source target x d) := by
  have hsees : Sees fs := ⟨hcoherent, honly.answers⟩
  obtain ⟨ho, hchild, hname⟩ := place_of_names hsource hx hat
  have hother : fs.store.child d (splitParent target).2 ≠ some x := fun h =>
    (htaken x h).2 rfl
  -- The state in which the changes begin.
  have hbegin : (fs.unread source).length < maxWalk →
      (fs.unreadAfter source (splitParent target).1).length < maxWalk →
      ∃ fs₃, Looked fs fs₃ ∧ fs₃.tree.listed x.parent = true ∧
        fs₃.hit target = (fs.store.child d (splitParent target).2).map Node.key ∧
        opRename source target fs = relocate target (splitParent target).2 x.key x.parent d fs₃ := by
    intro hnear hnear'
    have hhit : fs.hit source = some x.key := by rw [hit, if_pos hnear, hat]
    obtain ⟨fs₃, o, x', hlooked, hx', hkey, hlisted, hhit', hrun⟩ :=
      opRename_walked hsees hsource htarget hhit hd hnear'
    have hfind := Store.find_of_child hx'
    rw [hkey, hx] at hfind
    cases hfind
    obtain ⟨-, rfl⟩ := Store.mem_children.mp (Store.mem_of_child hx').1
    exact ⟨fs₃, hlooked, hlisted, hhit', hrun⟩
  -- The mount sees the same device after its walks.
  have hsame : ∀ {fs₃ : Fs Phone}, Looked fs fs₃ →
      fs₃.mtp.session.policy = fs.mtp.session.policy ∧ Mtp.canMove fs₃.mtp = true ∧
        Mtp.canRename fs₃.mtp = true ∧ ∀ name, fs₃.asideCut name = fs.asideCut name := by
    intro fs₃ hlooked
    refine ⟨hlooked.device.policy, ?_, ?_, fun name => ?_⟩
    · rw [Mtp.canMove, hlooked.device.info]
      exact hmove
    · rw [Mtp.canRename, hlooked.device.info]
      exact hrename
    · rw [asideCut, asideCut, hlooked.count]
  constructor
  · intro hboth
    obtain ⟨hnear, hnear', hfree⟩ := hboth
    obtain ⟨fs₃, hlooked, hlisted, hhit, hrun⟩ := hbegin hnear hnear'
    obtain ⟨hpolicy, hmove₃, hrename₃, hcut⟩ := hsame hlooked
    have hstore := hlooked.store
    obtain ⟨fs', hdone, hrelocated⟩ := relocate_works (hlooked.sees hsees) (hstore ▸ hdistinct)
      (hstore ▸ hx) hfile hlisted (hstore ▸ hfolder) (hstore ▸ hhit) (hstore ▸ htaken)
      (hpolicy ▸ honly) hmove₃ hrename₃ (hstore ▸ hcut _ ▸ hfree)
    rw [hstore] at hrelocated
    have hgone := fun y hy => (htaken y hy).1
    refine ⟨fs', hrun.trans hdone, hrelocated, ?_, ?_⟩
    · rw [names, splitPath_eq htarget]
      exact hrelocated.walk_target hdistinct hx hfile hgone hfolder hd
    · rw [names, splitPath_eq hsource, ← hname]
      exact hrelocated.walk_source hdistinct hx hfile hgone hother ho
  · intro hevery hgiven
    obtain ⟨fs', hrun, hrenamed⟩ := hgiven
    have hlost : ∀ {n : Except Int Int × Fs Phone}, n.1 = .error (-Libc.ENOENT) →
        n ≠ (.ok 0, fs') := by
      intro n hn heq
      subst heq
      cases hn
    have hnear : (fs.unread source).length < maxWalk := by
      by_contra hfar
      refine hlost (opRename_lost hsees hsource htarget (.inl ?_)) hrun
      rw [hit, if_neg hfar]
    have hnear' : (fs.unreadAfter source (splitParent target).1).length < maxWalk := by
      by_contra hfar
      exact hlost (opRename_lost hsees hsource htarget (.inr (Nat.le_of_not_lt hfar))) hrun
    obtain ⟨fs₃, hlooked, hlisted, hhit, hbegins⟩ := hbegin hnear hnear'
    obtain ⟨hpolicy, hmove₃, hrename₃, hcut⟩ := hsame hlooked
    have hstore := hlooked.store
    refine ⟨hnear, hnear', ?_⟩
    have hfits : (Utf16.encode (splitParent target).2).length ≤ 254 := by
      have hthere := hrenamed.there
      rw [names_path htarget] at hthere
      obtain ⟨q, -, hchild⟩ := Option.bind_eq_some_iff.mp hthere
      obtain ⟨z, hz, -⟩ := Option.map_eq_some_iff.mp hchild
      rw [← (Store.mem_of_child hz).2]
      exact (fs'.store.sound z (Store.mem_of_find (Store.find_of_child hz))).named
    have hfree := free_of_relocate (hlooked.sees hsees) (hstore ▸ hx) hfile hlisted
      (hstore ▸ hfolder) (hstore ▸ hhit) (hstore ▸ htaken) (fun hsome => ?_) (hpolicy ▸ honly)
      (hpolicy ▸ hevery) hmove₃ hrename₃ hfits (hbegins ▸ hrun)
    · rw [hstore, hcut] at hfree
      exact hfree
    · by_contra hno
      rw [not_or, not_not, not_not] at hno
      refine hother (hdistinct.child_eq_some.mpr ⟨hx, hno.1, hno.2⟩)

end

/-! ## A file that moves onto a name of the new folder -/

theorem no_bytes_wait (_ : true = false) : ([] : Bytes) = [] := rfl

/-- The content of a folder, and of a file without bytes. -/
def noBytes : Content := ⟨Format.undefined, Format.undefined_ne_association, [], true, no_bytes_wait⟩

/-- The folder `d` and the file `a`, and another file `a` in the folder. -/
def twoNamesakes : List Object :=
  [⟨1, root, ['d'], true, noBytes⟩, ⟨2, root, ['a'], false, noBytes⟩,
    ⟨3, 1, ['a'], false, noBytes⟩]

theorem nodup_twoNamesakes : (twoNamesakes.map Node.key).Nodup := by decide

theorem rootless_twoNamesakes : ∀ x ∈ twoNamesakes, x.key ≠ root := by decide

theorem housed_twoNamesakes : ∀ x ∈ twoNamesakes,
    x.parent = root ∨ ∃ f ∈ twoNamesakes, f.key = x.parent ∧ f.folder = true := by decide

theorem grounded_twoNamesakes : ∀ x ∈ twoNamesakes,
    x.parent = root ∨ x.parent.toNat < x.key.toNat := by decide

theorem sound_twoNamesakes : ∀ x ∈ twoNamesakes, Object.Sound x := by
  have hall : ∀ x ∈ twoNamesakes,
      x.key ≠ 0xffffffff ∧ (Utf16.encode x.name).length ≤ 254 ∧ x.size < 2 ^ 64 := by decide
  exact fun x hx => ⟨(hall x hx).1, (hall x hx).2.1, (hall x hx).2.2⟩

/-- A device that guards its names, with these objects. -/
def namesakes : Store where
  objects := {
    nodes := twoNamesakes
    nodup := nodup_twoNamesakes
    rootless := rootless_twoNamesakes
    housed := housed_twoNamesakes
    grounded := ⟨UInt32.toNat, grounded_twoNamesakes⟩ }
  used := twoNamesakes.map Node.key
  covers _ hx := List.mem_map_of_mem hx
  sound := sound_twoNamesakes

/-- The two objects of one name are in two folders. -/
theorem distinct_namesakes : namesakes.Distinct := by
  have hall : ∀ x ∈ twoNamesakes, ∀ y ∈ twoNamesakes,
      x.parent = y.parent → x.name = y.name → x.key = y.key := by decide
  refine Store.distinct_iff.mpr fun k k' x y hx hy hparent hname => ?_
  obtain ⟨hmem, rfl⟩ := Store.find_eq_some.mp hx
  obtain ⟨hmem', rfl⟩ := Store.find_eq_some.mp hy
  exact hall x hmem y hmem' hparent hname

/-- A mount of that device. -/
def guarded : Fs Phone :=
  start (Mtp.standard (Phone.holding namesakes Policy.guarding)) Host.obliging

/-- The file `a` of the root. -/
def fileA : Object := ⟨2, root, ['a'], false, noBytes⟩

theorem rename_onto_namesake :
    ∃ fs', opRename ['/', 'a'] ['/', 'd', '/', 'a'] guarded = (.ok 0, fs') ∧
      Renamed guarded fs' ['/', 'a'] ['/', 'd', '/', 'a'] fileA 1 := by
  have hname : Filename ['a'] := by
    refine ⟨?_, ?_, ?_, ?_⟩
    all_goals decide
  have honly : ∀ z ∈ guarded.store.children 1, z = ⟨3, 1, ['a'], false, noBytes⟩ := by
    decide +kernel
  have htaken : guarded.store.child 1 ['a'] = some ⟨3, 1, ['a'], false, noBytes⟩ := by
    decide +kernel
  have hsource : (splitParent ['/', 'a']).2 = ['a'] := by decide
  have htarget : (splitParent ['/', 'd', '/', 'a']).2 = ['a'] := by decide
  have hcut : guarded.asideCut ['a'] ≠ ['a'] := by decide +kernel
  have hcoherent : guarded.tree.Coherent guarded.store := fun _ hq => nomatch hq
  have hdistinct : guarded.store.Distinct := distinct_namesakes
  have honly' : guarded.mtp.session.policy.RefusesOnlyTaken := Policy.guarding_only
  refine (rename_works_iff hcoherent hdistinct honly' (by decide) (by decide) (hsource ▸ hname)
    (htarget ▸ hname) ?_ rfl ?_ ?_ ?_ ?_).1 ⟨?_, ?_, ?_⟩
  · decide +kernel
  · decide +kernel
  · decide +kernel
  · decide +kernel
  · rw [htarget]
    intro y hy
    cases htaken.symm.trans hy
    exact ⟨rfl, by decide⟩
  · decide +kernel
  · decide +kernel
  · rw [htarget]
    refine ⟨by decide, fun y hy => ⟨hcut, ?_⟩, fun _ => ⟨fun z hz hother => ?_, fun _ _ => hcut⟩⟩
    · intro hsome
      obtain ⟨z, hz, hne, -⟩ := hsome
      cases htaken.symm.trans hy
      rw [honly z hz] at hne
      exact hne rfl
    · rw [honly z hz] at hother
      exact absurd htaken hother

/-- A rename of `/a` to `/d/b` fails: on its way the object would be a second `/d/a`. -/
theorem rename_past_namesake :
    guarded.mtp.session.policy.RefusesOnlyTaken ∧ guarded.store.Distinct ∧
      Mtp.canMove guarded.mtp = true ∧ Mtp.canRename guarded.mtp = true ∧
      guarded.names ['/', 'a'] = some 2 ∧ guarded.names ['/', 'd'] = some 1 ∧
      guarded.names ['/', 'd', '/', 'b'] = none ∧
      (opRename ['/', 'a'] ['/', 'd', '/', 'b'] guarded).1 = .error (-Libc.EIO) := by
  refine ⟨Policy.guarding_only, distinct_namesakes, rfl, rfl, ?_, ?_, ?_, ?_⟩
  all_goals decide +kernel

end Fs

end Bsdroid
