import Mathlib.Data.List.Basic
import Mathlib.Data.List.Nodup
import Mathlib.Data.List.Perm.Subperm

/-!
# Forests of named nodes

A forest is a flat list of nodes, each with a key and the key of its parent.
The invariant travels with the list: keys are distinct, no node has the key of
the root, every parent is the root or a node that is a folder, and a rank falls
on the way to the root, so that no node is above itself.  Names need not be
distinct.

The operations are the ones a store of folders and files has: `rename`,
`write`, `move`, `insert` and `remove`.  `remove` takes everything below the
node with it, and `below` computes that set by closing a list of keys under
children.  Each operation comes with the one fact its callers need most: which
listings (`children`) it leaves alone.
-/

/-- One node of a forest. -/
structure Node (H N C : Type) where
  key : H
  parent : H
  name : N
  folder : Bool
  content : C
deriving DecidableEq, Repr

/-- A forest below `root`. -/
structure Forest (H N C : Type) (root : H) where
  nodes : List (Node H N C)
  nodup : (nodes.map Node.key).Nodup
  rootless : ∀ x ∈ nodes, x.key ≠ root
  housed : ∀ x ∈ nodes, x.parent = root ∨ ∃ f ∈ nodes, f.key = x.parent ∧ f.folder = true
  grounded : ∃ rank : H → Nat, ∀ x ∈ nodes, x.parent = root ∨ rank x.parent < rank x.key

namespace Forest

variable {H N C : Type} [DecidableEq H] {root : H}

variable (F : Forest H N C root)

/-- The node with a key. -/
def find (k : H) : Option (Node H N C) := F.nodes.find? fun x => x.key = k

/-- The nodes a folder holds, in the order of the list. -/
def children (p : H) : List (Node H N C) := F.nodes.filter fun x => x.parent = p

/-- A key a node may have as its parent. -/
def Houses (p : H) : Prop := p = root ∨ ∃ f ∈ F.nodes, f.key = p ∧ f.folder = true

instance (p : H) : Decidable (F.Houses p) := inferInstanceAs (Decidable (_ ∨ _))

theorem mem_children {p : H} {x : Node H N C} :
    x ∈ F.children p ↔ x ∈ F.nodes ∧ x.parent = p := by
  simp [children]

omit [DecidableEq H] in
/-- Two nodes with one key are one node. -/
theorem eq_of_key {x y : Node H N C} (hx : x ∈ F.nodes) (hy : y ∈ F.nodes)
    (h : x.key = y.key) : x = y :=
  List.inj_on_of_nodup_map F.nodup hx hy h

theorem find_eq_some {k : H} {x : Node H N C} :
    F.find k = some x ↔ x ∈ F.nodes ∧ x.key = k := by
  constructor
  · intro h
    exact ⟨List.mem_of_find?_eq_some h, by simpa using List.find?_some h⟩
  · intro hboth
    obtain ⟨hx, rfl⟩ := hboth
    obtain ⟨y, hy⟩ : ∃ y, F.find x.key = some y := by
      rw [← Option.isSome_iff_exists, find, List.find?_isSome]
      exact ⟨x, hx, by simp⟩
    have hkey : y.key = x.key := by simpa using List.find?_some hy
    rw [hy, F.eq_of_key (List.mem_of_find?_eq_some hy) hx hkey]

theorem find_eq_none {k : H} : F.find k = none ↔ ∀ x ∈ F.nodes, x.key ≠ k := by
  simp [find]

omit [DecidableEq H] in
/-- No node is its own folder. -/
theorem parent_ne_key {x : Node H N C} (hx : x ∈ F.nodes) : x.parent ≠ x.key := by
  intro h
  obtain ⟨rank, hrank⟩ := F.grounded
  rcases hrank x hx with hroot | hlt
  · exact F.rootless x hx (h ▸ hroot)
  · rw [h] at hlt
    exact Nat.lt_irrefl _ hlt

/-- A node that is no folder has no children. -/
theorem children_of_file {x : Node H N C} (hx : x ∈ F.nodes) (hfile : x.folder = false) :
    F.children x.key = [] := by
  apply List.filter_eq_nil_iff.mpr
  intro y hy
  have hne : y.parent ≠ x.key := by
    intro hp
    rcases F.housed y hy with hroot | ⟨f, hf, hkey, hfolder⟩
    · exact F.rootless x hx (hp ▸ hroot)
    · rw [F.eq_of_key hf hx (hkey.trans hp), hfile] at hfolder
      exact Bool.noConfusion hfolder
  simpa using hne

/-! ## Changes that keep every key and every parent -/

/-- Applies a change to the node with one key. -/
def adjust (k : H) (f : Node H N C → Node H N C) : List (Node H N C) :=
  F.nodes.map fun x => if x.key = k then f x else x

theorem mem_adjust {k : H} {f : Node H N C → Node H N C} {y : Node H N C} :
    y ∈ F.adjust k f ↔ ∃ x ∈ F.nodes, (if x.key = k then f x else x) = y := by
  simp [adjust]

section

variable {k : H} {f : Node H N C → Node H N C} (hkey : ∀ x, (f x).key = x.key)

include hkey

theorem nodup_adjust : ((F.adjust k f).map Node.key).Nodup := by
  have hsame : (F.adjust k f).map Node.key = F.nodes.map Node.key := by
    rw [adjust, List.map_map]
    apply List.map_congr_left
    intro x _
    by_cases h : x.key = k <;> simp [h, hkey]
  rw [hsame]
  exact F.nodup

theorem rootless_adjust : ∀ y ∈ F.adjust k f, y.key ≠ root := by
  intro y hy
  obtain ⟨x, hx, rfl⟩ := F.mem_adjust.mp hy
  have hno := F.rootless x hx
  split
  · rw [hkey]; exact hno
  · exact hno

/-- A key that houses nodes still does after a change that keeps folders. -/
theorem houses_adjust (hfolder : ∀ x, (f x).folder = x.folder) {q : H}
    (hq : F.Houses q) :
    q = root ∨ ∃ y ∈ F.adjust k f, y.key = q ∧ y.folder = true := by
  refine hq.imp_right ?_
  intro hsome
  obtain ⟨x, hx, hxq, hxf⟩ := hsome
  refine ⟨_, F.mem_adjust.mpr ⟨x, hx, rfl⟩, ?_, ?_⟩
  · split
    · rw [hkey]; exact hxq
    · exact hxq
  · split
    · rw [hfolder]; exact hxf
    · exact hxf

theorem grounded_adjust (hparent : ∀ x, (f x).parent = x.parent) :
    ∃ rank : H → Nat, ∀ y ∈ F.adjust k f, y.parent = root ∨ rank y.parent < rank y.key := by
  obtain ⟨rank, hrank⟩ := F.grounded
  refine ⟨rank, ?_⟩
  intro y hy
  obtain ⟨x, hx, rfl⟩ := F.mem_adjust.mp hy
  split
  · rw [hkey, hparent]
    exact hrank x hx
  · exact hrank x hx

theorem housed_adjust (hfolder : ∀ x, (f x).folder = x.folder)
    (hparent : ∀ x ∈ F.nodes, x.key = k → F.Houses (f x).parent) :
    ∀ y ∈ F.adjust k f, y.parent = root ∨
      ∃ g ∈ F.adjust k f, g.key = y.parent ∧ g.folder = true := by
  intro y hy
  obtain ⟨x, hx, rfl⟩ := F.mem_adjust.mp hy
  apply F.houses_adjust hkey hfolder
  split
  · rename_i hk
    exact hparent x hx hk
  · exact F.housed x hx

end

/-- Gives the node with a key another name. -/
def rename (k : H) (n : N) : Forest H N C root where
  nodes := F.adjust k fun x => { x with name := n }
  nodup := F.nodup_adjust fun _ => rfl
  rootless := F.rootless_adjust fun _ => rfl
  housed := F.housed_adjust (fun _ => rfl) (fun _ => rfl) fun x hx _ => F.housed x hx
  grounded := F.grounded_adjust (fun _ => rfl) fun _ => rfl

/-- Gives the node with a key another content. -/
def write (k : H) (c : C) : Forest H N C root where
  nodes := F.adjust k fun x => { x with content := c }
  nodup := F.nodup_adjust fun _ => rfl
  rootless := F.rootless_adjust fun _ => rfl
  housed := F.housed_adjust (fun _ => rfl) (fun _ => rfl) fun x hx _ => F.housed x hx
  grounded := F.grounded_adjust (fun _ => rfl) fun _ => rfl

/-! ## Everything below a node -/

/-- Closes a list of keys under children.  `fuel` counts the rounds, and each
round that goes on takes at least one node out of `rest`. -/
def close : Nat → List (Node H N C) → List H → List H
  | 0, _, dead => dead
  | fuel + 1, rest, dead =>
      let fresh := rest.filter fun x => x.parent ∈ dead
      if fresh = [] then dead
      else close fuel (rest.filter fun x => x.parent ∉ dead) (dead ++ fresh.map Node.key)

/-- The key of a node and the keys of everything it holds, at any depth. -/
def below (k : H) : List H := close F.nodes.length F.nodes [k]

theorem subset_close (fuel : Nat) (rest : List (Node H N C)) (dead : List H) :
    dead ⊆ close fuel rest dead := by
  induction fuel generalizing rest dead with
  | zero => exact List.Subset.refl _
  | succ fuel ih =>
      unfold close
      dsimp only
      split
      · exact List.Subset.refl _
      · exact List.Subset.trans (List.subset_append_left _ _) (ih _ _)

/-- The closure holds nothing but what the children rule forces. -/
theorem close_minimal {P : H → Prop} {fuel : Nat} {rest : List (Node H N C)}
    {dead : List H} (hdead : ∀ h ∈ dead, P h)
    (hrule : ∀ x ∈ rest, P x.parent → P x.key) :
    ∀ h ∈ close fuel rest dead, P h := by
  induction fuel generalizing rest dead with
  | zero => exact hdead
  | succ fuel ih =>
      unfold close
      dsimp only
      split
      · exact hdead
      · apply ih
        · intro h hh
          rcases List.mem_append.mp hh with hold | hnew
          · exact hdead h hold
          · obtain ⟨x, hx, rfl⟩ := List.mem_map.mp hnew
            obtain ⟨hmem, hp⟩ := List.mem_filter.mp hx
            exact hrule x hmem (hdead _ (by simpa using hp))
        · intro x hx
          exact hrule x (List.mem_filter.mp hx).1

/-- With a round for each node the closure is closed: what is not waiting in
`rest` is dead already, and at the end nothing in `rest` hangs on a dead key. -/
theorem close_closed {all rest : List (Node H N C)} {fuel : Nat} {dead : List H}
    (hfuel : rest.length ≤ fuel) (hrest : ∀ x ∈ all, x ∈ rest ∨ x.key ∈ dead) :
    ∀ x ∈ all, x.parent ∈ close fuel rest dead → x.key ∈ close fuel rest dead := by
  induction fuel generalizing rest dead with
  | zero =>
      intro x hx _
      have hnil : rest = [] := List.length_eq_zero_iff.mp (by omega)
      rcases hrest x hx with h | h
      · simp [hnil] at h
      · exact h
  | succ fuel ih =>
      unfold close
      dsimp only
      split
      · rename_i hfresh
        intro x hx hp
        rcases hrest x hx with h | h
        · have hno := List.filter_eq_nil_iff.mp hfresh x h
          exact absurd hp (by simpa using hno)
        · exact h
      · rename_i hfresh
        apply ih
        · have hpos : 0 < (rest.filter fun x => x.parent ∈ dead).length :=
            List.length_pos_iff.mpr hfresh
          have hsum := List.length_eq_length_filter_add
            (l := rest) (f := fun x => decide (x.parent ∈ dead))
          have hneg : (rest.filter fun x => decide (x.parent ∉ dead)).length =
              (rest.filter fun x => !decide (x.parent ∈ dead)).length := by
            congr 1
            apply List.filter_congr
            simp
          omega
        · intro x hx
          rcases hrest x hx with h | h
          · by_cases hp : x.parent ∈ dead
            · exact Or.inr (List.mem_append_right _
                (List.mem_map_of_mem (List.mem_filter.mpr ⟨h, by simpa using hp⟩)))
            · exact Or.inl (List.mem_filter.mpr ⟨h, by simpa using hp⟩)
          · exact Or.inr (List.mem_append_left _ h)

theorem mem_below_self (k : H) : k ∈ F.below k :=
  subset_close _ _ _ (List.mem_singleton.mpr rfl)

/-- A child of a node below `k` is below `k`. -/
theorem mem_below_of_parent {k : H} {x : Node H N C} (hx : x ∈ F.nodes)
    (h : x.parent ∈ F.below k) : x.key ∈ F.below k :=
  close_closed (Nat.le_refl _) (fun _ hy => Or.inl hy) x hx h

/-- The induction rule of `below`. -/
theorem below_induction {P : H → Prop} {k : H} (hself : P k)
    (hrule : ∀ x ∈ F.nodes, P x.parent → P x.key) : ∀ h ∈ F.below k, P h :=
  close_minimal (by simpa using hself) hrule

/-- What is below a node and not the node itself has its parent below it. -/
theorem parent_mem_below {k : H} {x : Node H N C} (hx : x ∈ F.nodes)
    (h : x.key ∈ F.below k) (hne : x.key ≠ k) : x.parent ∈ F.below k := by
  suffices hall : ∀ j ∈ F.below k, ∀ y ∈ F.nodes, y.key = j → j ≠ k → y.parent ∈ F.below k from
    hall _ h x hx rfl hne
  have hall : ∀ j ∈ F.below k, j ∈ F.below k ∧
      ∀ y ∈ F.nodes, y.key = j → j ≠ k → y.parent ∈ F.below k := by
    apply F.below_induction (P := fun j => j ∈ F.below k ∧
      ∀ y ∈ F.nodes, y.key = j → j ≠ k → y.parent ∈ F.below k)
    · exact ⟨F.mem_below_self k, fun _ _ _ hk => absurd rfl hk⟩
    · intro y hy hp
      refine ⟨F.mem_below_of_parent hy hp.1, ?_⟩
      intro z hz hkey _
      rw [F.eq_of_key hz hy hkey]
      exact hp.1
  exact fun j hj => (hall j hj).2

/-- What is below a node depends on the keys and the parents alone. -/
theorem below_mono {G : Forest H N C root} {k : H}
    (hnodes : ∀ x ∈ F.nodes, ∃ y ∈ G.nodes, y.key = x.key ∧ y.parent = x.parent) :
    ∀ j ∈ F.below k, j ∈ G.below k := by
  apply F.below_induction (P := fun j => j ∈ G.below k) (G.mem_below_self k)
  intro x hx hp
  obtain ⟨y, hy, hkey, hparent⟩ := hnodes x hx
  rw [← hkey]
  exact G.mem_below_of_parent hy (hparent ▸ hp)

/-- A move out of its own subtree keeps a rank: what moves ranks above the new
folder. -/
theorem grounded_move {k p : H} (hp : p ∉ F.below k) :
    ∃ rank : H → Nat, ∀ y ∈ F.adjust k (fun x => { x with parent := p }),
      y.parent = root ∨ rank y.parent < rank y.key := by
  obtain ⟨rank, hrank⟩ := F.grounded
  refine ⟨fun h => if h ∈ F.below k then rank h + rank p + 1 else rank h, ?_⟩
  intro y hy
  obtain ⟨x, hx, rfl⟩ := F.mem_adjust.mp hy
  by_cases hk : x.key = k
  · have hself : k ∈ F.below k := F.mem_below_self k
    right
    simp only [hk, if_true, hp, hself, if_false]
    omega
  · rw [if_neg hk]
    refine (hrank x hx).imp_right ?_
    intro hlt
    by_cases hb : x.key ∈ F.below k
    · have hpb := F.parent_mem_below hx hb hk
      simp only [hb, hpb, if_true]
      omega
    · have hpb : x.parent ∉ F.below k := fun h => hb (F.mem_below_of_parent hx h)
      simp only [hb, hpb, if_false]
      exact hlt

/-- Below a node with no children there is the node alone. -/
theorem below_of_childless {k : H} (h : F.children k = []) : ∀ j ∈ F.below k, j = k := by
  apply F.below_induction (P := fun j => j = k) rfl
  intro x hx hp
  have : x ∈ F.children k := F.mem_children.mpr ⟨hx, hp⟩
  rw [h] at this
  exact absurd this List.not_mem_nil

/-! ## Moves, new nodes and removals -/

/-- Puts the node with a key into another folder.  The answer is `none` when
there is no such node, when the target is no folder, and when the target is
below the node. -/
def move (k p : H) : Option (Forest H N C root) :=
  if h : F.Houses p ∧ p ∉ F.below k ∧ (∃ x ∈ F.nodes, x.key = k) then
    some {
      nodes := F.adjust k fun x => { x with parent := p }
      nodup := F.nodup_adjust fun _ => rfl
      rootless := F.rootless_adjust fun _ => rfl
      housed := F.housed_adjust (fun _ => rfl) (fun _ => rfl) fun _ _ _ => h.1
      grounded := F.grounded_move h.2.1 }
  else none

/-- Adds a node at the end.  The answer is `none` when the key is taken or is
the root's, and when the parent is no folder. -/
def insert (x : Node H N C) : Option (Forest H N C root) :=
  if h : F.Houses x.parent ∧ x.key ≠ root ∧ (∀ y ∈ F.nodes, y.key ≠ x.key) then
    some {
      nodes := F.nodes ++ [x]
      nodup := by
        rw [List.map_append, List.nodup_append]
        refine ⟨F.nodup, by simp, ?_⟩
        intro a ha b hb
        obtain ⟨y, hy, rfl⟩ := List.mem_map.mp ha
        obtain rfl : b = x.key := by simpa using hb
        exact h.2.2 y hy
      rootless := by
        intro y hy
        rcases List.mem_append.mp hy with hold | hnew
        · exact F.rootless y hold
        · rw [List.mem_singleton.mp hnew]; exact h.2.1
      housed := by
        have hkeep : ∀ q, F.Houses q → q = root ∨
            ∃ f ∈ F.nodes ++ [x], f.key = q ∧ f.folder = true := by
          intro q hq
          refine hq.imp_right ?_
          intro hsome
          obtain ⟨f, hf, hfk⟩ := hsome
          exact ⟨f, List.mem_append_left _ hf, hfk⟩
        intro y hy
        rcases List.mem_append.mp hy with hold | hnew
        · exact hkeep _ (F.housed y hold)
        · rw [List.mem_singleton.mp hnew]; exact hkeep _ h.1
      grounded := by
        obtain ⟨rank, hrank⟩ := F.grounded
        refine ⟨fun j => if j = x.key then rank x.parent + 1 else rank j, ?_⟩
        have hfree : ∀ q, F.Houses q → q = root ∨ q ≠ x.key := by
          intro q hq
          refine hq.imp_right ?_
          intro hsome
          obtain ⟨f, hf, rfl, -⟩ := hsome
          exact h.2.2 f hf
        intro y hy
        rcases List.mem_append.mp hy with hold | hnew
        · rcases hfree _ (F.housed y hold) with hroot | hne
          · exact .inl hroot
          · refine (hrank y hold).imp_right ?_
            intro hlt
            simp only [if_neg hne, if_neg (h.2.2 y hold)]
            exact hlt
        · rw [List.mem_singleton.mp hnew]
          rcases hfree _ h.1 with hroot | hne
          · exact .inl hroot
          · right
            simp only [if_neg hne, if_true]
            omega }
  else none

/-- Removes the node with a key and everything below it. -/
def remove (k : H) : Forest H N C root where
  nodes := F.nodes.filter fun x => x.key ∉ F.below k
  nodup := F.nodup.sublist (List.Sublist.map _ List.filter_sublist)
  rootless := fun x hx => F.rootless x (List.mem_filter.mp hx).1
  housed := by
    intro x hx
    obtain ⟨hmem, hkept⟩ := List.mem_filter.mp hx
    refine (F.housed x hmem).imp_right ?_
    intro hsome
    obtain ⟨f, hf, hkey, hfolder⟩ := hsome
    refine ⟨f, List.mem_filter.mpr ⟨hf, ?_⟩, hkey, hfolder⟩
    have hno : x.key ∉ F.below k := by simpa using hkept
    have : f.key ∉ F.below k := fun hb => hno (F.mem_below_of_parent hmem (hkey ▸ hb))
    simpa using this
  grounded := by
    obtain ⟨rank, hrank⟩ := F.grounded
    exact ⟨rank, fun x hx => hrank x (List.mem_filter.mp hx).1⟩

theorem mem_remove {k : H} {x : Node H N C} :
    x ∈ (F.remove k).nodes ↔ x ∈ F.nodes ∧ x.key ∉ F.below k := by
  simp [remove]

/-- What a move gives. -/
theorem move_eq_some {k p : H} {G : Forest H N C root} (h : F.move k p = some G) :
    F.Houses p ∧ p ∉ F.below k ∧ (∃ x ∈ F.nodes, x.key = k) ∧
      G.nodes = F.adjust k fun x => { x with parent := p } := by
  unfold move at h
  split at h
  · rename_i hc
    cases h
    exact ⟨hc.1, hc.2.1, hc.2.2, rfl⟩
  · cases h

/-- What an insertion gives. -/
theorem insert_eq_some {x : Node H N C} {G : Forest H N C root}
    (h : F.insert x = some G) :
    F.Houses x.parent ∧ (∀ y ∈ F.nodes, y.key ≠ x.key) ∧ G.nodes = F.nodes ++ [x] := by
  unfold insert at h
  split at h
  · rename_i hc
    cases h
    exact ⟨hc.1, hc.2.2, rfl⟩
  · cases h

/-! ## What each change leaves under a key -/

/-- A change that keeps the keys shows under its own key alone. -/
theorem find_of_adjust {k h : H} {f : Node H N C → Node H N C} {G : Forest H N C root}
    (hG : G.nodes = F.adjust k f) (hkey : ∀ x, (f x).key = x.key) :
    G.find h = (F.find h).map fun x => if h = k then f x else x := by
  cases hfind : F.find h with
  | none =>
      apply G.find_eq_none.mpr
      intro y hy
      rw [hG] at hy
      obtain ⟨x, hx, rfl⟩ := F.mem_adjust.mp hy
      have hne := F.find_eq_none.mp hfind x hx
      split
      · rw [hkey]; exact hne
      · exact hne
  | some x =>
      obtain ⟨hx, rfl⟩ := F.find_eq_some.mp hfind
      apply G.find_eq_some.mpr
      rw [hG]
      refine ⟨F.mem_adjust.mpr ⟨x, hx, rfl⟩, ?_⟩
      split
      · exact hkey x
      · rfl

theorem find_rename {k h : H} {n : N} :
    (F.rename k n).find h = (F.find h).map fun x => if h = k then { x with name := n } else x :=
  F.find_of_adjust rfl fun _ => rfl

theorem find_write {k h : H} {c : C} :
    (F.write k c).find h =
      (F.find h).map fun x => if h = k then { x with content := c } else x :=
  F.find_of_adjust rfl fun _ => rfl

theorem find_move {k p h : H} {G : Forest H N C root} (hmove : F.move k p = some G) :
    G.find h = (F.find h).map fun x => if h = k then { x with parent := p } else x :=
  F.find_of_adjust (F.move_eq_some hmove).2.2.2 fun _ => rfl

theorem find_insert {x : Node H N C} {h : H} {G : Forest H N C root}
    (hins : F.insert x = some G) :
    G.find h = if h = x.key then some x else F.find h := by
  obtain ⟨-, hfree, hG⟩ := F.insert_eq_some hins
  split
  · rename_i heq
    apply G.find_eq_some.mpr
    rw [hG]
    exact ⟨List.mem_append_right _ (List.mem_singleton.mpr rfl), heq.symm⟩
  · rename_i hne
    rw [find, hG, List.find?_append]
    have hlast : [x].find? (fun y => y.key = h) = none := by
      simpa using fun heq : x.key = h => hne heq.symm
    rw [hlast, Option.or_none]
    rfl

theorem find_remove {k h : H} :
    (F.remove k).find h = if h ∈ F.below k then none else F.find h := by
  split
  · rename_i hb
    apply (F.remove k).find_eq_none.mpr
    intro x hx hkey
    exact (F.mem_remove.mp hx).2 (hkey ▸ hb)
  · rename_i hb
    cases hfind : F.find h with
    | none =>
        apply (F.remove k).find_eq_none.mpr
        intro x hx
        exact F.find_eq_none.mp hfind x (F.mem_remove.mp hx).1
    | some x =>
        obtain ⟨hx, rfl⟩ := F.find_eq_some.mp hfind
        exact (F.remove k).find_eq_some.mpr ⟨F.mem_remove.mpr ⟨hx, hb⟩, rfl⟩

end Forest
