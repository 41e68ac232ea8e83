import Bsdroid.Cellphone.Walk

/-!
# Names in a folder

A device may let two objects of a folder share a name.  `Store.Distinct` says that none do,
and a path then names at most one object.
-/

namespace Bsdroid

namespace Store

/-- Each folder holds distinct names. -/
def Distinct (s : Store) : Prop := ∀ q, ((s.children q).map Node.name).Nodup

/-- An object of a folder other than `h` holds a name. -/
def Taken (s : Store) (p h : UInt32) (name : Str) : Prop :=
  ∃ y ∈ s.children p, y.key ≠ h ∧ y.name = name

instance (s : Store) (p h : UInt32) (name : Str) : Decidable (s.Taken p h name) :=
  inferInstanceAs (Decidable (∃ y ∈ s.children p, y.key ≠ h ∧ y.name = name))

variable {s s' : Store} {q d k p : UInt32} {name part : Str} {parts : List Str} {x y z : Object}

theorem find_eq_some : s.find k = some x ↔ x ∈ s.objects.nodes ∧ x.key = k :=
  s.objects.find_eq_some

theorem mem_children : x ∈ s.children q ↔ s.find x.key = some x ∧ x.parent = q := by
  rw [children, s.objects.mem_children, find_eq_some]
  exact ⟨fun h => ⟨⟨h.1, rfl⟩, h.2⟩, fun h => ⟨h.1.1, h.2⟩⟩

/-- A name is taken in a folder by another object that has it there. -/
theorem taken_iff {h : UInt32} :
    s.Taken p h name ↔ ∃ k x, s.find k = some x ∧ x.parent = p ∧ k ≠ h ∧ x.name = name := by
  constructor
  · rintro ⟨y, hy, hne, hname⟩
    obtain ⟨hfind, hparent⟩ := mem_children.mp hy
    exact ⟨y.key, y, hfind, hparent, hne, hname⟩
  · rintro ⟨k, x, hfind, hparent, hne, hname⟩
    obtain rfl := find_key hfind
    exact ⟨x, mem_children.mpr ⟨hfind, hparent⟩, hne, hname⟩

/-- Distinct names, object by object: one name in one folder is one object. -/
theorem distinct_iff :
    s.Distinct ↔ ∀ k k' x x', s.find k = some x → s.find k' = some x' →
      x.parent = x'.parent → x.name = x'.name → k = k' := by
  constructor
  · intro h k k' x x' hx hx' hparent hname
    obtain rfl := find_key hx
    obtain rfl := find_key hx'
    have hmem := mem_children.mpr ⟨hx, rfl⟩
    have hmem' := mem_children.mpr ⟨hx', hparent.symm⟩
    rw [List.inj_on_of_nodup_map (h x.parent) hmem hmem' hname]
  · intro h q
    have hnodup : (s.children q).Nodup := (s.objects.nodup.of_map _).filter _
    refine hnodup.map_on fun x hx y hy hname => ?_
    obtain ⟨hfind, hparent⟩ := mem_children.mp hx
    obtain ⟨hfind', hparent'⟩ := mem_children.mp hy
    have hkey := h _ _ x y hfind hfind' (hparent.trans hparent'.symm) hname
    exact s.objects.eq_of_key (mem_of_find hfind) (mem_of_find hfind') hkey

/-- With distinct names the object of a folder with a name is the only one. -/
theorem Distinct.child_eq_some (h : s.Distinct) :
    s.child q name = some x ↔ s.find x.key = some x ∧ x.parent = q ∧ x.name = name := by
  constructor
  · intro hchild
    obtain ⟨hmem, hname⟩ := mem_of_child hchild
    obtain ⟨hfind, hparent⟩ := mem_children.mp hmem
    exact ⟨hfind, hparent, hname⟩
  · rintro ⟨hfind, hparent, hname⟩
    cases hchild : s.child q name with
    | none => exact absurd hname (child_eq_none.mp hchild x (mem_children.mpr ⟨hfind, hparent⟩))
    | some y =>
        obtain ⟨hmem, hname'⟩ := mem_of_child hchild
        obtain ⟨hfind', hparent'⟩ := mem_children.mp hmem
        have hkey := distinct_iff.mp h _ _ y x hfind' hfind (hparent'.trans hparent.symm)
          (hname'.trans hname.symm)
        rw [s.objects.eq_of_key (mem_of_find hfind') (mem_of_find hfind) hkey]

/-- An object of a folder is in a folder. -/
theorem folder_of_child (h : s.child k name = some y) (hx : s.find k = some x) :
    x.folder = true := by
  by_contra hfile
  rw [Bool.not_eq_true] at hfile
  have hempty := s.objects.children_of_file (mem_of_find hx) hfile
  have hmem := (mem_of_child h).1
  rw [← find_key hx, children, hempty] at hmem
  cases hmem

/-- A walk to a folder is the same walk in a store that keeps the folders in their places. -/
theorem walk_of_folders_kept (hdistinct : s'.Distinct)
    (hkept : ∀ k x, s.find k = some x → x.folder = true →
      ∃ x', s'.find k = some x' ∧ x'.parent = x.parent ∧ x'.name = x.name)
    (hd : ∀ x, s.find d = some x → x.folder = true) (hwalk : s.walk q parts = some d) :
    s'.walk q parts = some d := by
  induction parts generalizing q with
  | nil => exact hwalk
  | cons part parts ih =>
      cases hchild : s.child q part with
      | none =>
          rw [walk, hchild] at hwalk
          cases hwalk
      | some x =>
          rw [walk, hchild] at hwalk
          have hfind := find_of_child hchild
          have hfolder : x.folder = true := by
            cases parts with
            | nil =>
                cases hwalk
                exact hd x hfind
            | cons part' parts =>
                cases hnext : s.child x.key part' with
                | none =>
                    dsimp only at hwalk
                    rw [walk, hnext] at hwalk
                    cases hwalk
                | some y => exact folder_of_child hnext hfind
          obtain ⟨x', hx', hparent, hname⟩ := hkept x.key x hfind hfolder
          obtain ⟨hmem, hpart⟩ := mem_of_child hchild
          have hkey := find_key hx'
          have hchild' : s'.child q part = some x' := by
            refine hdistinct.child_eq_some.mpr ⟨hkey.symm ▸ hx', ?_, hname.trans hpart⟩
            exact hparent.trans (mem_children.mp hmem).2
          rw [walk, hchild']
          dsimp only
          rw [hkey]
          exact ih hwalk

/-- What can hold objects is the root or a folder that the device has. -/
theorem houses_iff :
    s.objects.Houses d ↔ d = root ∨ ∃ x, s.find d = some x ∧ x.folder = true := by
  refine or_congr_right ⟨?_, ?_⟩
  · rintro ⟨f, hf, hkey, hfolder⟩
    exact ⟨f, find_eq_some.mpr ⟨hf, hkey⟩, hfolder⟩
  · rintro ⟨f, hf, hfolder⟩
    exact ⟨f, mem_of_find hf, find_key hf, hfolder⟩

theorem lists_of_houses (hd : s.objects.Houses d) : s.Lists d := by
  refine (houses_iff.mp hd).imp_right ?_
  rintro ⟨x, hx, -⟩
  rw [hx]
  rfl

theorem houses_of_mem_children (hx : x ∈ s.children q) : s.objects.Houses q := by
  obtain ⟨hfind, rfl⟩ := mem_children.mp hx
  exact s.objects.housed x (mem_of_find hfind)

/-! ## A file moves -/

/-- The device can move a file into any folder that it has. -/
theorem exists_move (hx : s.find k = some x) (hfile : x.folder = false) (hd : s.objects.Houses d) :
    ∃ s', s.move k d = some s' := by
  have hempty := s.objects.children_of_file (mem_of_find hx) hfile
  rw [find_key hx] at hempty
  have hout : d ∉ s.objects.below k := by
    intro hbelow
    have hdk := s.objects.below_of_childless hempty d hbelow
    rcases hd with hroot | ⟨f, hf, hkey, hfolder⟩
    · exact s.objects.rootless x (mem_of_find hx) ((find_key hx).trans (hdk.symm.trans hroot))
    · have hsame : f = x :=
        s.objects.eq_of_key hf (mem_of_find hx) (hkey.trans (hdk.trans (find_key hx).symm))
      rw [hsame, hfile] at hfolder
      cases hfolder
  have hmove : (s.objects.move k d).isSome := by
    rw [Forest.move, dif_pos ⟨hd, hout, x, mem_of_find hx, find_key hx⟩]
    rfl
  unfold move
  split
  · rename_i hnone
    rw [hnone] at hmove
    cases hmove
  · exact ⟨_, rfl⟩

/-- A file has another place and another name, the file that had them is gone, and every
other object is what it was. -/
structure Relocated (s s' : Store) (x : Object) (d : UInt32) (name : Str) : Prop where
  moved : s'.find x.key = some { x with parent := d, name := name }
  gone : ∀ y, s.child d name = some y → s'.find y.key = none
  others : ∀ k, k ≠ x.key → (∀ y, s.child d name = some y → k ≠ y.key) → s'.find k = s.find k

namespace Relocated

variable (h : Relocated s s' x d name)
include h

/-- An object beside the file is one that was there. -/
theorem find_other (hk : k ≠ x.key) (hz : s'.find k = some z) :
    s.find k = some z ∧ ∀ y, s.child d name = some y → k ≠ y.key := by
  have hne : ∀ y, s.child d name = some y → k ≠ y.key := by
    rintro y hy rfl
    rw [h.gone y hy] at hz
    cases hz
  exact ⟨h.others k hk hne ▸ hz, hne⟩

variable (hs : s.Distinct)
include hs

theorem distinct : s'.Distinct := by
  have hbeside : ∀ k z, k ≠ x.key → s'.find k = some z → z.parent = d → z.name ≠ name := by
    intro k z hk hz hparent hname
    obtain ⟨hfind, hne⟩ := h.find_other hk hz
    obtain rfl := find_key hfind
    exact hne z (hs.child_eq_some.mpr ⟨hfind, hparent, hname⟩) rfl
  refine distinct_iff.mpr fun k k' z z' hz hz' hparent hname => ?_
  by_cases hk : k = x.key
  · by_cases hk' : k' = x.key
    · exact hk.trans hk'.symm
    · rw [hk, h.moved] at hz
      cases hz
      exact absurd hname.symm (hbeside k' z' hk' hz' hparent.symm)
  · by_cases hk' : k' = x.key
    · rw [hk', h.moved] at hz'
      cases hz'
      exact absurd hname (hbeside k z hk hz hparent)
    · exact distinct_iff.mp hs k k' z z' (h.find_other hk hz).1 (h.find_other hk' hz').1
        hparent hname

variable (hx : s.find x.key = some x) (hfile : x.folder = false)
  (hgone : ∀ y, s.child d name = some y → y.folder = false)
include hx hfile hgone

/-- The change of a file leaves the ways of the folders. -/
theorem walk_folder (hq : s.objects.Houses q) (hwalk : s.walk root parts = some q) :
    s'.walk root parts = some q := by
  refine walk_of_folders_kept (h.distinct hs) (fun k z hz hfolder => ?_) (fun z hz => ?_) hwalk
  · refine ⟨z, ?_, rfl, rfl⟩
    rw [h.others k, hz]
    · rintro rfl
      rw [hx] at hz
      cases hz
      rw [hfile] at hfolder
      cases hfolder
    · intro y hy hk
      rw [hk, find_of_child hy] at hz
      cases hz
      rw [hgone _ hy] at hfolder
      cases hfolder
  · rcases hq with rfl | ⟨f, hf, rfl, hfolder⟩
    · exact absurd (find_key hz) (s.objects.rootless z (mem_of_find hz))
    · rw [s.objects.eq_of_key (mem_of_find hz) hf (find_key hz)]
      exact hfolder

/-- The file is at its new place. -/
theorem walk_target (hd : s.objects.Houses d) (hwalk : s.walk root parts = some d) :
    s'.walk root (parts ++ [name]) = some x.key := by
  rw [walk_snoc, h.walk_folder hs hx hfile hgone hd hwalk]
  have hchild : s'.child d name = some { x with parent := d, name := name } :=
    (h.distinct hs).child_eq_some.mpr ⟨h.moved, rfl, rfl⟩
  rw [Option.bind_some, hchild]
  rfl

/-- Nothing is at its old place. -/
theorem walk_source (hne : s.child d name ≠ some x) (hwalk : s.walk root parts = some x.parent) :
    s'.walk root (parts ++ [x.name]) = none := by
  have hold := s.objects.housed x (mem_of_find hx)
  rw [walk_snoc, h.walk_folder hs hx hfile hgone hold hwalk, Option.bind_some,
    Option.map_eq_none_iff]
  by_contra hsome
  obtain ⟨z, hz⟩ := Option.ne_none_iff_exists'.mp hsome
  obtain ⟨hfind, hparent, hname⟩ := (h.distinct hs).child_eq_some.mp hz
  by_cases hk : z.key = x.key
  · rw [hk, h.moved] at hfind
    cases hfind
    exact hne (hs.child_eq_some.mpr ⟨hx, hparent.symm, hname.symm⟩)
  · have hsame := distinct_iff.mp hs z.key x.key z x (h.find_other hk hfind).1 hx hparent hname
    exact hk hsame

end Relocated

end Store

end Bsdroid
