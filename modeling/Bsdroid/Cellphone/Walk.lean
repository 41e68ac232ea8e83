import Bsdroid.Cellphone.Changes

/-!
# Walks through the folders of a store

A path names an object of the store by the names on the way from the root.  `walk`
follows them, and `asked` lists the folders it looks into, no folder twice.  Where two
objects of a folder share a name, the walk takes the first.
-/

namespace Bsdroid

namespace Store

/-- The first object of a folder with a name. -/
def child (s : Store) (q : UInt32) (name : Str) : Option Object :=
  (s.children q).find? fun x => x.name = name

/-- The handle that some names lead to, from a folder. -/
def walk (s : Store) : UInt32 → List Str → Option UInt32
  | q, [] => some q
  | q, part :: rest =>
      match s.child q part with
      | some x => s.walk x.key rest
      | none => none

/-- The folders a walk looks into. -/
def asked (s : Store) : UInt32 → List Str → List UInt32
  | _, [] => []
  | q, part :: rest =>
      q :: match s.child q part with
        | some x => s.asked x.key rest
        | none => []

variable {s s' : Store} {q r : UInt32} {name part : Str} {parts : List Str} {x : Object}

theorem mem_of_child (h : s.child q name = some x) : x ∈ s.children q ∧ x.name = name := by
  have hname := List.find?_some h
  exact ⟨List.mem_of_find?_eq_some h, of_decide_eq_true hname⟩

/-- A folder has no object of a name. -/
theorem child_eq_none : s.child q name = none ↔ ∀ x ∈ s.children q, x.name ≠ name := by
  rw [child, List.find?_eq_none]
  exact forall₂_congr fun x _ => by rw [decide_eq_true_eq]

theorem find_of_child (h : s.child q name = some x) : s.find x.key = some x :=
  s.objects.find_eq_some.mpr ⟨(s.objects.mem_children.mp (mem_of_child h).1).1, rfl⟩

theorem lists_of_child (h : s.child q name = some x) : s.Lists x.key :=
  .inr (by rw [find_of_child h]; rfl)

@[simp] theorem walk_nil : s.walk q [] = some q := rfl

theorem walk_cons : s.walk q (part :: parts) = (s.child q part).bind fun x => s.walk x.key parts := by
  rw [walk]
  cases s.child q part with
  | none => rfl
  | some x => rfl

/-- A walk through a path is one through its front and then one through its back. -/
theorem walk_append (front back : List Str) :
    s.walk q (front ++ back) = (s.walk q front).bind fun d => s.walk d back := by
  induction front generalizing q with
  | nil => rfl
  | cons part front ih =>
      rw [List.cons_append, walk_cons, walk_cons]
      cases s.child q part with
      | none => rfl
      | some x => exact ih

/-- It comes to the folders of the front, and from where that leads to those of the back. -/
theorem asked_append (front back : List Str) :
    s.asked q (front ++ back) =
      s.asked q front ++ match s.walk q front with
        | some d => s.asked d back
        | none => [] := by
  induction front generalizing q with
  | nil => rfl
  | cons part front ih =>
      rw [List.cons_append, asked, asked, walk]
      cases s.child q part with
      | none => rfl
      | some x =>
          dsimp only
          rw [ih, List.cons_append]

/-- A walk to an object of a folder. -/
theorem walk_snoc (parts : List Str) (name : Str) :
    s.walk q (parts ++ [name]) =
      (s.walk q parts).bind fun d => (s.child d name).map Node.key := by
  rw [walk_append]
  congr 1
  funext d
  rw [walk_cons]
  cases s.child d name with
  | none => rfl
  | some x => rfl

theorem asked_snoc {d : UInt32} (h : s.walk q parts = some d) (name : Str) :
    s.asked q (parts ++ [name]) = s.asked q parts ++ [d] := by
  rw [asked_append, h]
  dsimp only
  rw [asked]
  cases s.child d name with
  | none => rfl
  | some x => rfl

/-- A walk that starts at a handle of the device stays on the device. -/
theorem lists_of_walk (hq : s.Lists q) (h : s.walk q parts = some r) : s.Lists r := by
  induction parts generalizing q with
  | nil =>
      cases h
      exact hq
  | cons part parts ih =>
      rw [walk] at h
      cases hchild : s.child q part with
      | none =>
          rw [hchild] at h
          cases h
      | some x =>
          rw [hchild] at h
          exact ih (lists_of_child hchild) h

/-- A walk comes to objects that the device has. -/
theorem lists_of_asked (hq : s.Lists q) (h : r ∈ s.asked q parts) : s.Lists r := by
  induction parts generalizing q with
  | nil => cases h
  | cons part parts ih =>
      rw [asked] at h
      rcases List.mem_cons.mp h with rfl | h
      · exact hq
      · cases hchild : s.child q part with
        | none =>
            rw [hchild] at h
            cases h
        | some x =>
            rw [hchild] at h
            exact ih (lists_of_child hchild) h

/-- A walk that looks into a folder with nothing in it finds nothing. -/
theorem walk_of_childless (h : r ∈ s.asked q parts) (hempty : s.children r = []) :
    s.walk q parts = none := by
  induction parts generalizing q with
  | nil => cases h
  | cons part parts ih =>
      rw [asked] at h
      rw [walk]
      cases hchild : s.child q part with
      | none => rfl
      | some x =>
          rw [hchild] at h
          rcases List.mem_cons.mp h with rfl | h
          · have hx := (mem_of_child hchild).1
            rw [hempty] at hx
            exact absurd hx List.not_mem_nil
          · exact ih h

/-- **No folder twice.**  Each folder of a walk lies below the one before. -/
theorem nodup_asked : (s.asked q parts).Nodup := by
  obtain ⟨rank, hrank⟩ := s.objects.grounded
  have hbelow : ∀ {parts : List Str} {q : UInt32}, q ≠ root →
      (∀ r ∈ s.asked q parts, r ≠ root ∧ rank q ≤ rank r) ∧ (s.asked q parts).Nodup := by
    intro parts
    induction parts with
    | nil => exact fun _ => ⟨fun r hr => (nomatch hr), List.nodup_nil⟩
    | cons part parts ih =>
        intro q hq
        rw [asked]
        cases hchild : s.child q part with
        | none =>
            refine ⟨fun r hr => ?_, List.nodup_singleton q⟩
            rw [List.mem_singleton.mp hr]
            exact ⟨hq, Nat.le_refl _⟩
        | some x =>
            obtain ⟨hmem, hparent⟩ := s.objects.mem_children.mp (mem_of_child hchild).1
            have hlt : rank q < rank x.key := by
              rcases hrank x hmem with hroot | hlt
              · exact absurd (hparent.symm.trans hroot) hq
              · exact hparent ▸ hlt
            obtain ⟨hall, hnodup⟩ := ih (s.objects.rootless x hmem)
            refine ⟨fun r hr => ?_, List.nodup_cons.mpr ⟨fun hr => ?_, hnodup⟩⟩
            · rcases List.mem_cons.mp hr with rfl | hr
              · exact ⟨hq, Nat.le_refl _⟩
              · exact ⟨(hall r hr).1, Nat.le_trans (Nat.le_of_lt hlt) (hall r hr).2⟩
            · exact Nat.not_lt_of_le (hall q hr).2 hlt
  by_cases hq : q = root
  · subst hq
    cases parts with
    | nil => exact List.nodup_nil
    | cons part parts =>
        rw [asked]
        cases hchild : s.child root part with
        | none => exact List.nodup_singleton root
        | some x =>
            have hkey := s.objects.rootless x (s.objects.mem_children.mp (mem_of_child hchild).1).1
            obtain ⟨hall, hnodup⟩ := @hbelow parts x.key hkey
            exact List.nodup_cons.mpr ⟨fun hr => (hall root hr).1 rfl, hnodup⟩
  · exact (hbelow hq).2

/-! ## An object goes -/

variable {h d : UInt32}

/-- The root is not below any object. -/
theorem root_not_below (hh : h ≠ root) : root ∉ s.objects.below h := by
  suffices hall : ∀ k ∈ s.objects.below h, k ≠ root from fun hroot => hall root hroot rfl
  refine s.objects.below_induction hh fun y hy _ => s.objects.rootless y hy

/-- A folder that stays loses the object that goes, and no other. -/
theorem children_remove (hh : h ≠ root) (hq : (s.remove h).Lists q) :
    (s.remove h).children q = (s.children q).filter fun x => x.key ≠ h := by
  have hout : q ∉ s.objects.below h := by
    rcases hq with rfl | hq
    · exact root_not_below hh
    · intro hbelow
      rw [find_remove, if_pos hbelow] at hq
      cases hq
  simp only [children, remove, Forest.children, Forest.remove, List.filter_filter]
  refine List.filter_congr fun x hx => ?_
  by_cases hparent : x.parent = q
  · have hbelow : x.key ∈ s.objects.below h ↔ x.key = h := by
      refine ⟨fun hbelow => ?_, fun hkey => hkey ▸ s.objects.mem_below_self _⟩
      by_contra hne
      exact hout (hparent ▸ s.objects.parent_mem_below hx hbelow hne)
    simp [hparent, hbelow]
  · simp [hparent]

/-- The first object of a folder with a name is still the first, when another goes. -/
theorem child_remove (hh : h ≠ root) (hq : (s.remove h).Lists q) (hchild : s.child q name = some x)
    (hx : x.key ≠ h) : (s.remove h).child q name = some x := by
  have hfirst : ∀ xs : List Object, xs.find? (fun y => y.name = name) = some x →
      (xs.filter fun y => y.key ≠ h).find? (fun y => y.name = name) = some x := by
    intro xs
    induction xs with
    | nil => exact id
    | cons y xs ih =>
        intro hfind
        by_cases hname : y.name = name
        · rw [List.find?_cons_of_pos (by rw [decide_eq_true_eq]; exact hname)] at hfind
          cases hfind
          rw [List.filter_cons_of_pos (by rw [decide_eq_true_eq]; exact hx),
            List.find?_cons_of_pos (by rw [decide_eq_true_eq]; exact hname)]
        · rw [List.find?_cons_of_neg (by rw [decide_eq_true_eq]; exact hname)] at hfind
          rw [List.filter_cons]
          split
          · rw [List.find?_cons_of_neg (by rw [decide_eq_true_eq]; exact hname)]
            exact ih hfind
          · exact ih hfind
  rw [child, children_remove hh hq]
  exact hfirst _ hchild

/-- A walk that does not end at a file is the same walk without the file. -/
theorem walk_remove {y : Object} (hy : s.find h = some y) (hfile : y.folder = false)
    (hq : s.Lists q) (hqh : q ≠ h) (hdh : d ≠ h) (hwalk : s.walk q parts = some d) :
    (s.remove h).walk q parts = some d ∧ (s.remove h).asked q parts = s.asked q parts := by
  have hkey := find_key hy
  have hh : h ≠ root := hkey ▸ s.objects.rootless y (mem_of_find hy)
  have hempty : s.children h = [] := hkey ▸ s.objects.children_of_file (mem_of_find hy) hfile
  induction parts generalizing q with
  | nil => exact ⟨hwalk, rfl⟩
  | cons part parts ih =>
      have hkept : (s.remove h).Lists q := by
        refine hq.imp_right fun hfind => ?_
        rw [find_remove, if_neg fun hbelow => hqh (s.objects.below_of_childless hempty q hbelow)]
        exact hfind
      cases hchild : s.child q part with
      | none =>
          rw [walk, hchild] at hwalk
          cases hwalk
      | some x =>
          rw [walk, hchild] at hwalk
          have hx : x.key ≠ h := by
            intro hx
            -- A walk goes no further than a file.
            cases parts with
            | nil =>
                cases hwalk
                exact hdh hx
            | cons part' parts =>
                dsimp only at hwalk
                rw [hx, walk, child, hempty] at hwalk
                cases hwalk
          obtain ⟨hwalk', hasked⟩ := ih (lists_of_child hchild) hx hwalk
          rw [walk, asked, asked, child_remove hh hkept hchild hx, hchild]
          exact ⟨hwalk', congrArg (q :: ·) hasked⟩

end Store

end Bsdroid
