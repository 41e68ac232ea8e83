import Bsdroid.Cellphone.Changes

/-!
# Where the objects are

Two stores have the same places when each handle has an object in both or in neither, in
the same folder and of the same kind.  Names and contents can differ.  What is below a
folder, and which moves are possible, is then the same.
-/

namespace Bsdroid

namespace Store

variable {s s' s'' t t' : Store} {h k p : UInt32}

/-- The folder of an object, and whether it is one. -/
def placeOf (s : Store) (h : UInt32) : Option (UInt32 × Bool) :=
  (s.find h).map fun x => (x.parent, x.folder)

/-- Each handle has its place in both stores. -/
def SamePlaces (s s' : Store) : Prop := ∀ h, s'.placeOf h = s.placeOf h

/-- A store has its own places. -/
theorem SamePlaces.refl (s : Store) : SamePlaces s s := fun _ => rfl

theorem SamePlaces.symm (hsame : SamePlaces s s') : SamePlaces s' s := fun h => (hsame h).symm

theorem SamePlaces.trans (hsame : SamePlaces s s') (hsame' : SamePlaces s' s'') :
    SamePlaces s s'' := fun h => (hsame' h).trans (hsame h)

/-- A new name leaves each object in its folder. -/
theorem samePlaces_rename (h : UInt32) (name : Str) : SamePlaces s (s.rename h name) := by
  intro k
  rw [placeOf, placeOf, find_rename, Option.map_map]
  congr 1
  funext x
  by_cases hk : k = h
  · simp only [Function.comp_apply, hk, if_true]
  · simp only [Function.comp_apply, hk, if_false]

/-- An object of one store is in the same folder of the other, and of the same kind. -/
theorem SamePlaces.find (hsame : SamePlaces s s') {x : Object} (hx : s.find h = some x) :
    ∃ y, s'.find h = some y ∧ y.parent = x.parent ∧ y.folder = x.folder := by
  have hplace := hsame h
  rw [placeOf, placeOf, hx, Option.map_some] at hplace
  obtain ⟨y, hy, hpair⟩ := Option.map_eq_some_iff.mp hplace
  rw [Prod.mk.injEq] at hpair
  exact ⟨y, hy, hpair.1, hpair.2⟩

theorem SamePlaces.node (hsame : SamePlaces s s') {x : Object} (hx : x ∈ s.objects.nodes) :
    ∃ y ∈ s'.objects.nodes, y.key = x.key ∧ y.parent = x.parent ∧ y.folder = x.folder := by
  have hfind : s.find x.key = some x := s.objects.find_eq_some.mpr ⟨hx, rfl⟩
  obtain ⟨y, hy, hparent, hfolder⟩ := hsame.find hfind
  exact ⟨y, mem_of_find hy, find_key hy, hparent, hfolder⟩

/-- **The same objects are below a folder.** -/
theorem SamePlaces.below (hsame : SamePlaces s s') :
    ∀ j ∈ s.objects.below k, j ∈ s'.objects.below k := by
  refine s.objects.below_mono fun x hx => ?_
  obtain ⟨y, hy, hkey, hparent, -⟩ := hsame.node hx
  exact ⟨y, hy, hkey, hparent⟩

/-- What can hold objects in one store can hold them in the other. -/
theorem SamePlaces.houses (hsame : SamePlaces s s') (hp : s.objects.Houses p) :
    s'.objects.Houses p := by
  refine hp.imp_right ?_
  rintro ⟨f, hf, hkey, hfolder⟩
  obtain ⟨g, hg, hgkey, -, hgfolder⟩ := hsame.node hf
  exact ⟨g, hg, hgkey.trans hkey, hgfolder.trans hfolder⟩

/-- When a device can move an object. -/
theorem move_isSome : (∃ t, s.move k p = some t) ↔
    s.objects.Houses p ∧ p ∉ s.objects.below k ∧ ∃ x ∈ s.objects.nodes, x.key = k := by
  constructor
  · rintro ⟨t, hmove⟩
    obtain ⟨hp, hbelow, hk, -⟩ := s.objects.move_eq_some (move_eq_some hmove).1
    exact ⟨hp, hbelow, hk⟩
  · intro hcan
    unfold move
    split
    · rename_i hnone
      unfold Forest.move at hnone
      rw [dif_pos hcan] at hnone
      cases hnone
    · exact ⟨_, rfl⟩

/-- The same move in both leaves the same places. -/
theorem SamePlaces.moved (hsame : SamePlaces s s') (hmove : s.move k p = some t)
    (hmove' : s'.move k p = some t') : SamePlaces t t' := by
  intro j
  have hplace := hsame j
  rw [placeOf, placeOf] at hplace ⊢
  rw [find_move hmove, find_move hmove', Option.map_map, Option.map_map]
  by_cases hj : j = k
  · have hfolder := congrArg (Option.map fun place : UInt32 × Bool => (p, place.2)) hplace
    rw [Option.map_map, Option.map_map] at hfolder
    simp only [hj, if_true]
    rw [hj] at hfolder
    exact hfolder
  · simp only [hj, if_false]
    exact hplace

/-- **A move is possible in both stores**, and leads to the same places. -/
theorem SamePlaces.move (hsame : SamePlaces s s') (hmove : s'.move k p = some t') :
    ∃ t, s.move k p = some t ∧ SamePlaces t t' := by
  obtain ⟨hp, hbelow, x, hx, rfl⟩ := move_isSome.mp ⟨t', hmove⟩
  have hcan : ∃ t, s.move x.key p = some t := by
    obtain ⟨y, hy, hkey, -, -⟩ := hsame.symm.node hx
    refine move_isSome.mpr ⟨hsame.symm.houses hp, fun hin => hbelow (hsame.below p hin), y, hy, hkey⟩
  obtain ⟨t, ht⟩ := hcan
  exact ⟨t, ht, hsame.moved ht hmove⟩

end Store

end Bsdroid
