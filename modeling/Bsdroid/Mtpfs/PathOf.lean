import Bsdroid.Mtpfs.ListedNames

/-!
# Paths and handles

`Tree.pathOf` walks parent links and joins names; `Tree.lookup` splits a path and walks the
listings.  In a tree that was built by listings of real folders (`Built`) the two undo each
other, also where listings were replaced and stale entries stay behind (`Sound`): the entry
of an object that is listed now is the one that its folder recorded last.
-/

namespace Bsdroid

/-- A name that is a part of a path. -/
structure Part (name : Str) : Prop where
  nonempty : name ≠ []
  here : name ≠ ['.']
  plain : '/' ∉ name

namespace Tree

/-- The entries of one folder. -/
structure Listing (q : UInt32) (es : List Entry) : Prop where
  parent : ∀ e ∈ es, e.parent = q
  object : ∀ e ∈ es, e.handle ≠ root
  part : ∀ e ∈ es, Part e.name
  distinct : (es.map Entry.name).Nodup

/-- Each handle is in the current listing of at most one folder, and there at most once. -/
structure OnceListed (t : Tree) : Prop where
  once : ∀ q ks, t.childrenOf q = some ks → ks.Nodup
  apart : ∀ q q' ks ks', t.childrenOf q = some ks → t.childrenOf q' = some ks' →
    ∀ k, k ∈ ks → k ∈ ks' → q = q'

/-- A tree that listings of folders built. -/
inductive Built : Tree → Prop
  | new : Built new
  | list {t : Tree} (h : Built t) {q : UInt32} {es : List Entry} (hes : Listing q es)
      (hone : (t.setChildren q es).OnceListed) : Built (t.setChildren q es)

/-- What holds of the objects that are listed now. -/
structure Sound (t : Tree) : Prop where
  listed : ∀ q, t.listed q = true ↔ (t.childrenOf q).isSome
  entry : ∀ q ks, t.childrenOf q = some ks → ∀ k ∈ ks,
    ∃ e, t.entries k = some e ∧ e.handle = k ∧ e.parent = q ∧ k ≠ root ∧ Part e.name
  distinct : ∀ q ks, t.childrenOf q = some ks → ∀ k ∈ ks, ∀ k' ∈ ks, ∀ e e',
    t.entries k = some e → t.entries k' = some e' → e.name = e'.name → k = k'

/-- `k` is in the current listing of its parent, and the folders above it are listed up to
the root, which is `n` steps away. -/
inductive Descends (t : Tree) : Nat → UInt32 → Prop
  | root : Descends t 0 root
  | child {n : Nat} {k : UInt32} {e : Entry} {ks : List UInt32} (hentry : t.entries k = some e)
      (hparent : Descends t n e.parent) (hlisted : t.childrenOf e.parent = some ks)
      (hk : k ∈ ks) : Descends t (n + 1) k

variable {t : Tree} {q k c : UInt32} {es : List Entry} {parts : List Str} {n : Nat}

/-! ## The invariant -/

/-- A folder is read again: what it recorded is what is listed now, and the entries of the
other folders stay. -/
theorem Sound.setChildren (h : t.Sound) (hes : Listing q es)
    (hone : (t.setChildren q es).OnceListed) : (t.setChildren q es).Sound := by
  have hself : (t.setChildren q es).childrenOf q = some (es.map Entry.handle) :=
    Function.update_self _ _ _
  have hother : ∀ r, r ≠ q → (t.setChildren q es).childrenOf r = t.childrenOf r :=
    fun r hr => Function.update_of_ne hr _ _
  have hnodup := hone.once q _ hself
  have hrecorded : ∀ e ∈ es, (t.setChildren q es).entries e.handle = some e :=
    fun e he => record_of_mem hnodup he _
  have hkept : ∀ r ks, r ≠ q → t.childrenOf r = some ks → ∀ k ∈ ks,
      (t.setChildren q es).entries k = t.entries k := by
    intro r ks hr hks k hk
    apply record_of_not_mem
    intro hmem
    exact hr (hone.apart r q ks _ ((hother r hr).trans hks) hself k hk hmem)
  constructor
  · intro r
    by_cases hr : r = q
    · subst hr
      rw [hself]
      exact iff_of_true (Function.update_self _ _ _) rfl
    · rw [hother r hr, ← h.listed r]
      show Function.update t.listed q true r = true ↔ _
      rw [Function.update_of_ne hr]
  · intro r ks hks k hk
    by_cases hr : r = q
    · subst hr
      cases hself.symm.trans hks
      obtain ⟨e, he, rfl⟩ := List.mem_map.mp hk
      exact ⟨e, hrecorded e he, rfl, hes.parent e he, hes.object e he, hes.part e he⟩
    · have hold := (hother r hr).symm.trans hks
      rw [hkept r ks hr hold k hk]
      exact h.entry r ks hold k hk
  · intro r ks hks k hk k' hk' e e' he he' hname
    by_cases hr : r = q
    · subst hr
      cases hself.symm.trans hks
      obtain ⟨a, ha, rfl⟩ := List.mem_map.mp hk
      obtain ⟨b, hb, rfl⟩ := List.mem_map.mp hk'
      cases (hrecorded a ha).symm.trans he
      cases (hrecorded b hb).symm.trans he'
      rw [List.inj_on_of_nodup_map hes.distinct ha hb hname]
    · have hold := (hother r hr).symm.trans hks
      rw [hkept r ks hr hold k hk] at he
      rw [hkept r ks hr hold k' hk'] at he'
      exact h.distinct r ks hold k hk k' hk' e e' he he' hname

theorem sound_new : new.Sound := by
  constructor
  · intro q
    exact iff_of_false Bool.false_ne_true Bool.false_ne_true
  · intro q ks hks
    cases hks
  · intro q ks hks
    cases hks

theorem Built.sound (h : Built t) : t.Sound := by
  induction h with
  | new => exact sound_new
  | list _ hes hone ih => exact ih.setChildren hes hone

/-! ## One step down -/

theorem Sound.childrenNamed_eq_some {part : Str} {e : Entry} (h : t.Sound)
    (hchild : t.childrenNamed c part = some e) :
    e.name = part ∧ t.entries e.handle = some e ∧ e.parent = c ∧ e.handle ≠ root := by
  rw [childrenNamed] at hchild
  cases hks : t.childrenOf c with
  | none =>
      rw [hks] at hchild
      cases hchild
  | some ks =>
      rw [hks] at hchild
      have hname := List.find?_some hchild
      obtain ⟨k, hk, hentry⟩ := List.mem_filterMap.mp (List.mem_of_find?_eq_some hchild)
      obtain ⟨e', he', rfl, hparent, hroot, -⟩ := h.entry c ks hks k hk
      cases hentry.symm.trans he'
      exact ⟨of_decide_eq_true hname, he', hparent, hroot⟩

/-- An object of a folder is the one that its name finds. -/
theorem Sound.childrenNamed_of_listed {e : Entry} {ks : List UInt32} (h : t.Sound)
    (hks : t.childrenOf q = some ks) (hk : k ∈ ks) (he : t.entries k = some e) :
    t.childrenNamed q e.name = some e := by
  rw [childrenNamed, hks]
  show (ks.filterMap t.entries).find? _ = some e
  have hmem : e ∈ ks.filterMap t.entries := List.mem_filterMap.mpr ⟨k, hk, he⟩
  have hsome : ((ks.filterMap t.entries).find? fun e' => e'.name = e.name).isSome := by
    rw [List.find?_isSome]
    exact ⟨e, hmem, decide_eq_true rfl⟩
  obtain ⟨e', hfind⟩ := Option.isSome_iff_exists.mp hsome
  have hname := List.find?_some hfind
  obtain ⟨k', hk', he'⟩ := List.mem_filterMap.mp (List.mem_of_find?_eq_some hfind)
  obtain rfl := h.distinct q ks hks k' hk' k hk e' e he' he (of_decide_eq_true hname)
  cases he.symm.trans he'
  exact hfind

/-! ## Down and up -/

/-- What a lookup walked down, the path of the object walks up. -/
theorem Sound.pathFrom_of_found (h : t.Sound) (hfound : t.lookupFrom c parts = .found k)
    (depth : Nat) (above : List Str) :
    t.pathFrom (depth + parts.length) k above = t.pathFrom depth c (parts ++ above) := by
  induction parts generalizing c depth with
  | nil =>
      cases hfound
      rfl
  | cons part parts ih =>
      rw [lookupFrom] at hfound
      by_cases hlisted : t.listed c = true
      · rw [if_pos hlisted] at hfound
        cases hchild : t.childrenNamed c part with
        | none =>
            rw [hchild] at hfound
            cases hfound
        | some e =>
            rw [hchild] at hfound
            obtain ⟨hname, hentry, hparent, hroot⟩ := h.childrenNamed_eq_some hchild
            have hup := ih hfound (depth + 1)
            rw [pathFrom, if_neg hroot, hentry] at hup
            dsimp only at hup
            rw [hparent, hname] at hup
            rw [List.length_cons, ← Nat.add_assoc, Nat.add_right_comm]
            exact hup
      · rw [if_neg hlisted] at hfound
        cases hfound

/-- A lookup that walks at least one part down ends below the root. -/
theorem Sound.ne_root_of_found (h : t.Sound) (hfound : t.lookupFrom c parts = .found k)
    (hparts : parts ≠ []) : k ≠ root := by
  induction parts generalizing c with
  | nil => exact absurd rfl hparts
  | cons part parts ih =>
      rw [lookupFrom] at hfound
      by_cases hlisted : t.listed c = true
      · rw [if_pos hlisted] at hfound
        cases hchild : t.childrenNamed c part with
        | none =>
            rw [hchild] at hfound
            cases hfound
        | some e =>
            rw [hchild] at hfound
            by_cases hlast : parts = []
            · subst hlast
              cases hfound
              exact (h.childrenNamed_eq_some hchild).2.2.2
            · exact ih hfound hlast
      · rw [if_neg hlisted] at hfound
        cases hfound

/-- The names on the way down to an object that is listed up to the root. -/
theorem Sound.found_of_descends (h : t.Sound) (hreach : t.Descends n k) :
    ∃ parts, parts.length = n ∧ (∀ p ∈ parts, Part p) ∧ t.lookupFrom root parts = .found k := by
  induction hreach with
  | root => exact ⟨[], rfl, fun p hp => absurd hp List.not_mem_nil, rfl⟩
  | @child n k e ks hentry _ hlisted hk ih =>
      obtain ⟨parts, hlength, hall, hfound⟩ := ih
      obtain ⟨e', he', hhandle, -, -, hpart⟩ := h.entry _ ks hlisted k hk
      cases hentry.symm.trans he'
      refine ⟨parts ++ [e.name], by rw [List.length_append, hlength]; rfl, ?_, ?_⟩
      · intro p hp
        rcases List.mem_append.mp hp with hp | hp
        · exact hall p hp
        · rw [List.mem_singleton.mp hp]
          exact hpart
      · have hread : t.listed e.parent = true := by
          rw [h.listed, hlisted]
          rfl
        rw [lookupFrom_append hfound, lookupFrom, if_pos hread,
          h.childrenNamed_of_listed hlisted hk hentry, ← hhandle]
        rfl

end Tree

/-! ## Joining and splitting -/

/-- The path that joins parts. -/
def joined (parts : List Str) : Str := parts.flatMap fun p => '/' :: p

theorem splitPath_joined {parts : List Str} (h : ∀ p ∈ parts, Part p) :
    splitPath (joined parts) = parts := by
  induction parts using List.reverseRecOn with
  | nil => decide
  | append_singleton parts p ih =>
      have hp := h p (List.mem_append_right _ List.mem_cons_self)
      have hjoin : joined (parts ++ [p]) = joined parts ++ '/' :: p := by
        rw [joined, List.flatMap_append, List.flatMap_singleton]
        rfl
      rw [hjoin, splitPath_append, ih fun p hp => h p (List.mem_append_left _ hp),
        splitPath_part hp.plain hp.nonempty hp.here]

/-- A separator, and the parts with separators between them. -/
theorem joined_eq {parts : List Str} (h : parts ≠ []) :
    joined parts = '/' :: List.intercalate ['/'] parts := by
  induction parts with
  | nil => exact absurd rfl h
  | cons p parts ih =>
      rw [joined, List.flatMap_cons]
      cases parts with
      | nil => simp
      | cons p' parts =>
          have hrest := ih (List.cons_ne_nil _ _)
          rw [joined] at hrest
          rw [hrest, List.intercalate_cons_cons]
          simp

namespace Tree

variable {t : Tree} {k : UInt32} {n : Nat} {parts : List Str}

/-- The path of what a lookup found, when it walked fewer than `maxDepth` parts. -/
theorem Sound.pathOf_of_found (h : t.Sound) (hfound : t.lookupFrom root parts = .found k)
    (hshort : parts.length < maxDepth) :
    t.pathOf k = some ('/' :: List.intercalate ['/'] parts) := by
  by_cases hparts : parts = []
  · subst hparts
    cases hfound
    rfl
  · obtain ⟨depth, hdepth⟩ := Nat.exists_eq_add_of_lt hshort
    have hup := h.pathFrom_of_found hfound (depth + 1) []
    have hmax : depth + 1 + parts.length = maxDepth := by omega
    rw [hmax, List.append_nil, pathFrom, if_pos rfl] at hup
    rw [pathOf, if_neg (h.ne_root_of_found hfound hparts), hup, ← joined_eq hparts]
    rfl

/-- **Path and handle are inverse.** -/
theorem path_and_handle (h : Built t) :
    (∀ n k, t.Descends n k → n < maxDepth →
      ∃ path, t.pathOf k = some path ∧ t.lookup path = .found k) ∧
    (∀ path k, t.lookup path = .found k → (splitPath path).length < maxDepth →
      t.pathOf k = some ('/' :: List.intercalate ['/'] (splitPath path))) := by
  constructor
  · intro n k hreach hn
    obtain ⟨parts, hlength, hall, hfound⟩ := h.sound.found_of_descends hreach
    refine ⟨_, h.sound.pathOf_of_found hfound (by omega), ?_⟩
    by_cases hparts : parts = []
    · subst hparts
      exact hfound
    · rw [← joined_eq hparts, lookup, splitPath_joined hall]
      exact hfound
  · intro path k hfound hshort
    exact h.sound.pathOf_of_found hfound hshort

/-- A folder of the root, and what it holds. -/
def sampleFolder : Entry := ⟨1, root, ['D', 'C', 'I', 'M'], true, 0⟩

def sampleFile : Entry := ⟨4, 1, ['a'], false, 1000⟩

def sample : Tree := (new.setChildren root [sampleFolder]).setChildren 1 [sampleFile]

theorem built_sample : Built sample := by
  have hroot : ∀ q ks, (new.setChildren root [sampleFolder]).childrenOf q = some ks →
      q = root ∧ ks = [1] := by
    intro q ks hks
    by_cases hq : q = root
    · subst hq
      cases hks
      exact ⟨rfl, rfl⟩
    · rw [setChildren] at hks
      dsimp only at hks
      rw [Function.update_of_ne hq] at hks
      cases hks
  have hboth : ∀ q ks, sample.childrenOf q = some ks →
      (q = 1 ∧ ks = [4]) ∨ (q = root ∧ ks = [1]) := by
    intro q ks hks
    by_cases hq : q = 1
    · subst hq
      cases hks
      exact .inl ⟨rfl, rfl⟩
    · rw [sample, setChildren] at hks
      dsimp only at hks
      rw [Function.update_of_ne hq] at hks
      exact .inr (hroot q ks hks)
  have hfolder : Part sampleFolder.name := ⟨by decide, by decide, by decide⟩
  have hfile : Part sampleFile.name := ⟨by decide, by decide, by decide⟩
  have hone : ∀ {q : UInt32} {a : Entry}, a.parent = q → a.handle ≠ root → Part a.name →
      Listing q [a] := by
    intro q a hparent hobject hpart
    constructor
    · intro e he
      rw [List.mem_singleton.mp he, hparent]
    · intro e he
      rwa [List.mem_singleton.mp he]
    · intro e he
      rwa [List.mem_singleton.mp he]
    · exact List.nodup_singleton _
  refine .list (.list .new (hone rfl (by decide) hfolder) ⟨?_, ?_⟩)
    (hone rfl (by decide) hfile) ⟨?_, ?_⟩
  · intro q ks hks
    rw [(hroot q ks hks).2]
    decide
  · intro q q' ks ks' hks hks' _ _ _
    rw [(hroot q ks hks).1, (hroot q' ks' hks').1]
  · intro q ks hks
    rcases hboth q ks hks with ⟨-, rfl⟩ | ⟨-, rfl⟩
    · decide
    · decide
  · intro q q' ks ks' hks hks' k hk hk'
    rcases hboth q ks hks with ⟨rfl, rfl⟩ | ⟨rfl, rfl⟩ <;>
      rcases hboth q' ks' hks' with ⟨rfl, rfl⟩ | ⟨rfl, rfl⟩
    · rfl
    · rw [List.mem_singleton.mp hk] at hk'
      exact absurd hk' (by decide)
    · rw [List.mem_singleton.mp hk] at hk'
      exact absurd hk' (by decide)
    · rfl

theorem path_and_handle_sample :
    (∃ path, sample.pathOf 4 = some path ∧ sample.lookup path = .found 4) ∧
      sample.pathOf 4 = some ['/', 'D', 'C', 'I', 'M', '/', 'a'] := by
  have hreach : sample.Descends 2 4 :=
    .child (e := sampleFile) rfl (.child (e := sampleFolder) rfl .root rfl List.mem_cons_self) rfl
      List.mem_cons_self
  have hboth := path_and_handle built_sample
  exact ⟨hboth.1 2 4 hreach (by decide), hboth.2 ['D', 'C', 'I', 'M', '/', 'a'] 4 rfl (by decide)⟩

end Tree

end Bsdroid
