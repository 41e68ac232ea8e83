import Bsdroid.Mtpfs.Coherent
import Bsdroid.Mtpfs.Paths
import Mathlib.Data.List.Find

/-!
# Whether a listed name opens

`op_readdir` shows a name with `_` for each separator and null, and a lookup compares the name
the device gave.  A name that is empty is no part of a path at all.

A device gives a folder as a list of entries, and the tree keeps one entry for each handle: the last
that came.  Where two entries share a handle, the first of them is shown as the second.
`Fs.opens_listed_iff` says which entries of a folder open under the names they are shown by.
-/

namespace Bsdroid

namespace Tree

variable {t : Tree} {q r c h : UInt32} {parts rest : List Str} {es : List Entry} {e : Entry}

/-- The tree records each object under its handle. -/
def Keyed (t : Tree) : Prop := ∀ h e, t.entries h = some e → e.handle = h

theorem mem_children (hkeyed : t.Keyed) {ks : List UInt32} (he : e ∈ ks.filterMap t.entries) :
    e.handle ∈ ks ∧ t.entries e.handle = some e := by
  obtain ⟨k, hk, hentry⟩ := List.mem_filterMap.mp he
  rw [hkeyed k e hentry]
  exact ⟨hk, hentry⟩

theorem childrenNamed_eq_some {part : Str} (hkeyed : t.Keyed)
    (hchild : t.childrenNamed c part = some e) :
    e.name = part ∧ t.entries e.handle = some e := by
  rw [childrenNamed] at hchild
  cases hks : t.childrenOf c with
  | none =>
      rw [hks] at hchild
      cases hchild
  | some ks =>
      rw [hks] at hchild
      dsimp only at hchild
      have hname := List.find?_some hchild
      exact ⟨of_decide_eq_true hname,
        (mem_children hkeyed (List.mem_of_find?_eq_some hchild)).2⟩

theorem lookupFrom_append (hfound : t.lookupFrom c parts = .found q) :
    t.lookupFrom c (parts ++ rest) = t.lookupFrom q rest := by
  induction parts generalizing c with
  | nil =>
      cases hfound
      rfl
  | cons part parts ih =>
      rw [lookupFrom] at hfound
      rw [List.cons_append, lookupFrom]
      by_cases hlisted : t.listed c = true
      · rw [if_pos hlisted] at hfound ⊢
        cases hchild : t.childrenNamed c part with
        | none =>
            rw [hchild] at hfound
            cases hfound
        | some e =>
            rw [hchild] at hfound
            exact ih hfound
      · rw [if_neg hlisted] at hfound
        cases hfound

/-! ## What the tree keeps of a listing -/

/-- The entry that a listing leaves under a handle: the last that has it. -/
def recorded (es : List Entry) (h : UInt32) : Option Entry :=
  es.reverse.find? fun e => e.handle = h

theorem recorded_concat (es : List Entry) (a : Entry) (h : UInt32) :
    recorded (es ++ [a]) h = if a.handle = h then some a else recorded es h := by
  rw [recorded, List.reverse_append, List.reverse_singleton, List.singleton_append, recorded]
  by_cases ha : a.handle = h
  · rw [if_pos ha, List.find?_cons_of_pos (by rw [decide_eq_true_eq]; exact ha)]
  · rw [if_neg ha, List.find?_cons_of_neg (by rw [decide_eq_true_eq]; exact ha)]

/-- Each entry of a listing leaves one under its handle, and it is of the listing too. -/
theorem recorded_of_mem (he : e ∈ es) :
    ∃ y, recorded es e.handle = some y ∧ y ∈ es ∧ y.handle = e.handle := by
  have hsome : (recorded es e.handle).isSome :=
    List.find?_isSome.mpr ⟨e, List.mem_reverse.mpr he, decide_eq_true rfl⟩
  obtain ⟨y, hy⟩ := Option.isSome_iff_exists.mp hsome
  have hkey := List.find?_some hy
  exact ⟨y, hy, List.mem_reverse.mp (List.mem_of_find?_eq_some hy), of_decide_eq_true hkey⟩

theorem record_eq (es : List Entry) (m : UInt32 → Option Entry) (h : UInt32) :
    es.foldl (fun (m : UInt32 → Option Entry) e => Function.update m e.handle (some e)) m h =
      (recorded es h).or (m h) := by
  induction es using List.reverseRecOn with
  | nil => rfl
  | append_singleton es a ih =>
      rw [List.foldl_concat, recorded_concat]
      by_cases ha : a.handle = h
      · rw [if_pos ha, ← ha, Function.update_self, Option.some_or]
      · rw [if_neg ha, Function.update_of_ne (Ne.symm ha), ih]

/-- The entry of the tree for an entry of a listing. -/
def kept (es : List Entry) (e : Entry) : Entry := (recorded es e.handle).getD e

theorem recorded_kept (he : e ∈ es) : recorded es e.handle = some (kept es e) := by
  obtain ⟨y, hy, -⟩ := recorded_of_mem he
  rw [kept, hy, Option.getD_some]

theorem kept_mem (he : e ∈ es) : kept es e ∈ es ∧ (kept es e).handle = e.handle := by
  obtain ⟨y, hy, hmem, hkey⟩ := recorded_of_mem he
  rw [kept, hy, Option.getD_some]
  exact ⟨hmem, hkey⟩

/-- The tree holds a folder as the device gave it. -/
structure Records (t : Tree) (q : UInt32) (es : List Entry) : Prop where
  listed : t.listed q = true
  keys : t.childrenOf q = some (es.map Entry.handle)
  entries : ∀ e ∈ es, t.get e.handle = recorded es e.handle

theorem records_setChildren : (t.setChildren q es).Records q es := by
  refine ⟨Function.update_self .., Function.update_self .., fun e he => ?_⟩
  obtain ⟨y, hy, -⟩ := recorded_of_mem he
  rw [Tree.get, Tree.setChildren]
  dsimp only
  rw [record_eq, hy, Option.some_or]

theorem Records.kept_entries (h : t.Records q es) :
    (es.map Entry.handle).filterMap t.entries = es.map (kept es) := by
  rw [List.filterMap_map, ← List.filterMap_eq_map]
  apply List.filterMap_congr
  intro e he
  have hentry := h.entries e he
  rw [recorded_kept he] at hentry
  exact hentry

theorem Records.children (h : t.Records q es) : t.children q = some (es.map (kept es)) := by
  rw [Tree.children, if_pos h.listed, h.keys, Option.map_some, h.kept_entries]

theorem Records.childrenNamed (h : t.Records q es) (name : Str) :
    t.childrenNamed q name = (es.map (kept es)).find? fun e => e.name = name := by
  rw [Tree.childrenNamed, h.keys]
  dsimp only
  rw [h.kept_entries]

/-- A folder that is read stays where it was found. -/
theorem lookupFrom_setChildren (hfound : t.lookupFrom c parts = .found q)
    (hunread : t.listed q ≠ true)
    (hown : ∀ r ks, r ≠ q → t.childrenOf r = some ks → ∀ k ∈ ks, k ∉ es.map Entry.handle) :
    (t.setChildren q es).lookupFrom c parts = .found q := by
  induction parts generalizing c with
  | nil => exact hfound
  | cons part parts ih =>
      rw [lookupFrom] at hfound ⊢
      by_cases hlisted : t.listed c = true
      · have hc : c ≠ q := fun h => hunread (h ▸ hlisted)
        have hlisted' : (t.setChildren q es).listed c = true := by
          rw [setChildren]
          dsimp only
          rwa [Function.update_of_ne hc]
        have hsame : (t.setChildren q es).childrenNamed c part = t.childrenNamed c part := by
          rw [childrenNamed, childrenNamed, setChildren]
          dsimp only
          rw [Function.update_of_ne hc]
          cases hks : t.childrenOf c with
          | none => rfl
          | some ks =>
              dsimp only
              rw [List.filterMap_congr fun k hk => record_of_not_mem (hown c ks hc hks k hk) _]
        rw [if_pos hlisted] at hfound
        rw [if_pos hlisted', hsame]
        cases hchild : t.childrenNamed c part with
        | none =>
            rw [hchild] at hfound
            cases hfound
        | some e =>
            rw [hchild] at hfound
            exact ih hfound
      · rw [if_neg hlisted] at hfound
        cases hfound

end Tree

/-- The attributes `op_getattr` gives of an object. -/
def Entry.stat (e : Entry) : Stat :=
  if e.isDir then { mode := modeDir, links := 2, size := 0, blocks := 0 }
  else { mode := modeFile, links := 1, size := e.size, blocks := (e.size + 511) / 512 }

namespace Fs

variable {σ : Type} [Link σ] {fs fs' : Fs σ} {path name : Str} {names : List Str} {q k : UInt32}
  {es : List Entry}

/-- The path of a name in a folder. -/
def childPath (path name : Str) : Str :=
  if path = ['/'] then '/' :: name else path ++ '/' :: name

theorem splitPath_childPath (path name : Str) :
    splitPath (childPath path name) = splitPath path ++ splitPath name := by
  rw [childPath]
  split
  · rename_i hroot
    rw [hroot]
    exact splitPath_append [] name
  · exact splitPath_append path name

/-- A walk that finds something leaves a tree that finds it. -/
theorem lookup_of_resolveIn {E : Type} {rounds : Nat}
    (hrun : (resolveIn path rounds : Proc E (Fs σ) (Option UInt32)) fs = (.ok (some k), fs')) :
    fs'.tree.lookup path = .found k := by
  induction rounds generalizing fs with
  | zero => cases hrun
  | succ rounds ih =>
      rw [resolveIn, Proc.bind_ok (Proc.get_run _)] at hrun
      cases hlook : fs.tree.lookup path with
      | found k' =>
          rw [hlook] at hrun
          cases hrun
          exact hlook
      | notFound =>
          rw [hlook] at hrun
          cases hrun
      | needListing parent =>
          rw [hlook] at hrun
          dsimp only at hrun
          obtain ⟨answer, fs₁, hlist, hrun⟩ := Proc.bind_eq_ok hrun
          cases answer with
          | error e => cases hrun
          | ok entries =>
              obtain ⟨⟨⟩, fs₂, -, hrun⟩ := Proc.bind_eq_ok hrun
              exact ih hrun

/-- A path the tree finds needs no reading. -/
theorem resolved_of_lookup (hfound : fs.tree.lookup path = .found k) :
    resolved path fs = (.ok k, fs) := by
  have hresolve : (resolve path : Proc Int (Fs σ) (Option UInt32)) fs = (.ok (some k), fs) := by
    rw [resolve, maxWalk, resolveIn, Proc.bind_ok (Proc.get_run _), hfound]
    rfl
  rw [resolved, Proc.bind_ok hresolve]
  rfl

/-- What `op_readdir` fills: a folder that the device gives now, or gave before and the tree holds. -/
inductive ReadsDir (path : Str) (fs : Fs σ) (q : UInt32) (es : List Entry) : Fs σ → Prop
  | reads {fs₁ : Fs σ} {m : Mtp σ} (hfolder : resolved path fs = (.ok q, fs₁))
      (hunread : fs₁.tree.listed q = false) (hlist : Mtp.list q fs₁.mtp = (.ok es, m)) :
      ReadsDir path fs q es { fs₁ with mtp := m, tree := fs₁.tree.setChildren q es }
  | holds {fs₁ : Fs σ} (hfolder : resolved path fs = (.ok q, fs₁))
      (hrecords : fs₁.tree.Records q es) : ReadsDir path fs q es fs₁

theorem ReadsDir.records (h : ReadsDir path fs q es fs') : fs'.tree.Records q es := by
  cases h with
  | reads hfolder hunread hlist => exact Tree.records_setChildren
  | holds hfolder hrecords => exact hrecords

/-- The names that `op_readdir` fills, one for each entry that the device gave. -/
def namesFilled (es : List Entry) : List Str := es.map fun e => shownName (Tree.kept es e).name

theorem ReadsDir.run (h : ReadsDir path fs q es fs') :
    opReaddir path fs = (.ok (['.'] :: ['.', '.'] :: namesFilled es), fs') := by
  have hnames := namesOf_run h.records.children
  rw [List.map_map] at hnames
  cases h with
  | @reads fs₁ m hfolder hunread hlist =>
      have hno : ¬ fs₁.tree.isListed q = true := by
        rw [Tree.isListed, hunread]
        decide
      rw [opReaddir, Proc.bind_ok hfolder, Proc.bind_ok (Proc.get_run _), if_neg hno,
        Proc.bind_ok (tryMtp_run _ _), hlist]
      dsimp only
      rw [Proc.bind_ok (setChildren_run _ _ _)]
      exact hnames
  | holds hfolder hrecords =>
      rw [opReaddir, Proc.bind_ok hfolder, Proc.bind_ok (Proc.get_run _),
        if_pos (show fs'.tree.isListed q = true from hrecords.listed)]
      exact hnames

/-- Each name that is filled for a folder and is no marker opens the first object that is listed
under it, and objects with different names are listed under different names. -/
structure OpensListed (fs : Fs σ) (path : Str) (es : List Entry) (names : List Str) : Prop where
  each : names.length = es.length
  opens : ∀ p, p.2 ≠ ['.'] → p.2 ≠ ['.', '.'] →
    (es.zip names).find? (fun p' => p'.2 = p.2) = some p →
      (resolved (childPath path p.2) fs).1 = .ok p.1.handle ∧
        ∃ st, (opGetattr (childPath path p.2) fs).1 = .ok st ∧
          (fs.pending (childPath path p.2) = none → st = p.1.stat)
  apart : ∀ p ∈ es.zip names, ∀ p' ∈ es.zip names, p.1.name ≠ p'.1.name → p.2 ≠ p'.2

/-- A name a folder of the host can hold. -/
structure Plain (name : Str) : Prop where
  nonempty : name ≠ []
  slash : '/' ∉ name
  ended : '\x00' ∉ name

theorem shownName_plain (name : Str) : '/' ∉ shownName name ∧ '\x00' ∉ shownName name := by
  constructor
  · intro hmem
    obtain ⟨c, -, hc⟩ := List.mem_map.mp hmem
    split at hc
    · exact absurd hc (by decide)
    · rename_i hno
      exact hno (.inl hc)
  · intro hmem
    obtain ⟨c, -, hc⟩ := List.mem_map.mp hmem
    split at hc
    · exact absurd hc (by decide)
    · rename_i hno
      exact hno (.inr hc)

/-- A name that is changed shows it. -/
theorem changed_shownName {name : Str} {c : Char} (hmem : c ∈ name) (hc : c = '/' ∨ c = '\x00') :
    '_' ∈ shownName name ∧ shownName name ≠ name := by
  refine ⟨List.mem_map.mpr ⟨c, hmem, if_pos hc⟩, fun heq => ?_⟩
  rw [← heq] at hmem
  rcases hc with rfl | rfl
  · exact (shownName_plain name).1 hmem
  · exact (shownName_plain name).2 hmem

/-- A path the tree has nothing for. -/
theorem resolved_of_notFound (hmiss : fs.tree.lookup path = .notFound) :
    resolved path fs = (.error (-Libc.ENOENT), fs) := by
  have hresolve : (resolve path : Proc Int (Fs σ) (Option UInt32)) fs = (.ok none, fs) := by
    rw [resolve, maxWalk, resolveIn, Proc.bind_ok (Proc.get_run _), hmiss]
    rfl
  rw [resolved, Proc.bind_ok hresolve]
  rfl

/-- The attributes that `op_getattr` gives of what a walk finds. -/
def attributes (e : Entry) : Stat :=
  if e.handle = root then { mode := modeDir, links := 2, size := 0, blocks := 0 } else e.stat

/-- `op_getattr` of a path that the tree finds and no program writes. -/
theorem opGetattr_of_lookup {e : Entry} (hfound : fs.tree.lookup path = .found e.handle)
    (hentry : fs.tree.get e.handle = some e) (hp : fs.pending path = none) :
    opGetattr path fs = (.ok (attributes e), fs) := by
  rw [opGetattr, Proc.bind_ok (Proc.get_run _), hp]
  dsimp only
  rw [Proc.bind_ok (resolved_of_lookup hfound), Proc.bind_ok (Proc.get_run _), attributes]
  by_cases hroot : e.handle = root
  · rw [if_pos hroot, if_pos hroot]
    rfl
  · rw [if_neg hroot, if_neg hroot, hentry, Entry.stat]
    dsimp only
    by_cases hdir : e.isDir = true
    · rw [if_pos hdir, if_pos hdir]
      rfl
    · rw [if_neg hdir, if_neg hdir]
      rfl

/-- The entries of a folder open: the path leads to the folder still, no name holds a separator or a
null, an object with an empty name is the folder itself, one handle has one name, and what the
tree keeps of the first object with a name has its attributes. -/
structure Openable (fs : Fs σ) (path : Str) (q : UInt32) (es : List Entry) : Prop where
  way : fs.tree.lookup path = .found q
  unchanged : ∀ e ∈ es, '/' ∉ e.name ∧ '\x00' ∉ e.name
  itself : ∀ x, es.find? (fun e => e.name = []) = some x → x.handle = q
  named : ∀ e ∈ es, ∀ e' ∈ es, e.handle = e'.handle → e.name = e'.name
  shown : ∀ x, x.name ≠ ['.'] → x.name ≠ ['.', '.'] →
    es.find? (fun e => e.name = x.name) = some x → fs.pending (childPath path x.name) = none →
      attributes (Tree.kept es x) = x.stat

/-- The entries and the names they are shown by. -/
theorem zip_namesFilled (es : List Entry) :
    es.zip (namesFilled es) = es.map fun e => (e, shownName (Tree.kept es e).name) := by
  have hboth : (es.map id).zip (namesFilled es) =
      es.map fun e => (e, shownName (Tree.kept es e).name) := List.zip_map'
  rwa [List.map_id] at hboth

omit [Link σ] in
theorem lookup_empty (hway : fs.tree.lookup path = .found q) :
    fs.tree.lookup (childPath path []) = .found q := by
  rw [Tree.lookup, splitPath_childPath, Tree.lookupFrom_append hway]
  rfl

section Opening

variable (h : fs.tree.Records q es) (hway : fs.tree.lookup path = .found q)
include h hway

omit [Link σ] in
/-- The path of a name that is no separator leads to the first entry the tree keeps under it. -/
theorem lookup_child (hslash : '/' ∉ name) (hnonempty : name ≠ []) (hhere : name ≠ ['.']) :
    fs.tree.lookup (childPath path name) =
      match es.find? (fun e => (Tree.kept es e).name = name) with
      | some e => .found e.handle
      | none => .notFound := by
  rw [Tree.lookup, splitPath_childPath, Tree.lookupFrom_append hway,
    splitPath_part hslash hnonempty hhere, Tree.lookupFrom, if_pos h.listed, h.childrenNamed,
    List.find?_map]
  cases hfind : es.find? ((fun e => decide (e.name = name)) ∘ Tree.kept es) with
  | none =>
      have hsame : es.find? (fun e => (Tree.kept es e).name = name) = none := hfind
      rw [hsame]
      rfl
  | some e =>
      have hsame : es.find? (fun e => (Tree.kept es e).name = name) = some e := hfind
      rw [hsame]
      exact congrArg Lookup.found (Tree.kept_mem (List.mem_of_find?_eq_some hfind)).2

omit hway in
/-- A path that leads to an entry, and its attributes. -/
theorem opens_of_lookup {x : Entry} (hx : x ∈ es)
    (hfound : fs.tree.lookup (childPath path name) = .found x.handle) :
    (resolved (childPath path name) fs).1 = .ok x.handle ∧
      ∃ st, (opGetattr (childPath path name) fs).1 = .ok st ∧
        (fs.pending (childPath path name) = none → st = attributes (Tree.kept es x)) := by
  refine ⟨by rw [resolved_of_lookup hfound], ?_⟩
  cases hp : fs.pending (childPath path name) with
  | some p =>
      have hrun : opGetattr (childPath path name) fs =
          (.ok { mode := modeFile, links := 1, size := p.size, blocks := 0 }, fs) := by
        rw [opGetattr, Proc.bind_ok (Proc.get_run _), hp]
        rfl
      refine ⟨_, congrArg Prod.fst hrun, fun hnone => ?_⟩
      cases hnone
  | none =>
      have hkey := (Tree.kept_mem hx).2
      have hentry : fs.tree.get (Tree.kept es x).handle = some (Tree.kept es x) := by
        rw [hkey, h.entries x hx, Tree.recorded_kept hx]
      exact ⟨_, congrArg Prod.fst (opGetattr_of_lookup (hkey.symm ▸ hfound) hentry hp),
        fun _ => rfl⟩

end Opening

/-- Where one handle has one name, each entry is shown by its own. -/
theorem kept_name (hnamed : ∀ e ∈ es, ∀ e' ∈ es, e.handle = e'.handle → e.name = e'.name)
    {e : Entry} (he : e ∈ es) : (Tree.kept es e).name = e.name := by
  obtain ⟨hmem, hkey⟩ := Tree.kept_mem he
  exact hnamed _ hmem e he hkey

/-- Names without a separator or a null are the names the entries are shown by. -/
theorem zip_unchanged (hname : ∀ e ∈ es, (Tree.kept es e).name = e.name)
    (hplain : ∀ e ∈ es, '/' ∉ e.name ∧ '\x00' ∉ e.name) :
    es.zip (namesFilled es) = es.map fun e => (e, e.name) := by
  rw [zip_namesFilled]
  apply List.map_congr_left
  intro e he
  rw [hname e he, shownName_eq (hplain e he).1 (hplain e he).2]

omit [Link σ] in
/-- The path of such a name leads to the first entry that has it. -/
theorem lookup_first (h : fs.tree.Records q es) (hway : fs.tree.lookup path = .found q)
    (hname : ∀ e ∈ es, (Tree.kept es e).name = e.name)
    (hplain : ∀ e ∈ es, '/' ∉ e.name ∧ '\x00' ∉ e.name)
    (hitself : ∀ x, es.find? (fun e => e.name = []) = some x → x.handle = q) {x : Entry}
    (hhere : x.name ≠ ['.']) (hfirst : es.find? (fun e => e.name = x.name) = some x) :
    fs.tree.lookup (childPath path x.name) = .found x.handle := by
  have hx := List.mem_of_find?_eq_some hfirst
  by_cases hempty : x.name = []
  · rw [hempty] at hfirst ⊢
    rw [hitself x hfirst]
    exact lookup_empty hway
  · have hsame : es.find? (fun e => (Tree.kept es e).name = x.name) =
        es.find? fun e => e.name = x.name := by
      apply List.find?_congr
      intro e he
      rw [hname e he]
    rw [lookup_child h hway (hplain x hx).1 hempty hhere, hsame, hfirst]

/-- **Openable entries open.** -/
theorem opens_of_openable (h : fs.tree.Records q es) (hopen : Openable fs path q es) :
    OpensListed fs path es (namesFilled es) := by
  have hname : ∀ e ∈ es, (Tree.kept es e).name = e.name := fun e he => kept_name hopen.named he
  have hzip := zip_unchanged hname hopen.unchanged
  refine ⟨List.length_map _, ?_, ?_⟩
  · intro p hhere hup hfirst
    rw [hzip, List.find?_map, Option.map_eq_some_iff] at hfirst
    obtain ⟨x, hfirst, hp⟩ := hfirst
    cases hp
    have hfind : es.find? (fun e => e.name = x.name) = some x := hfirst
    have hfound := lookup_first h hopen.way hname hopen.unchanged hopen.itself hhere hfind
    obtain ⟨hresolved, st, hst, hquiet⟩ :=
      opens_of_lookup h (List.mem_of_find?_eq_some hfind) hfound
    exact ⟨hresolved, st, hst, fun hnone =>
      (hquiet hnone).trans (hopen.shown x hhere hup hfind hnone)⟩
  · intro p hp p' hp' hne
    rw [hzip] at hp hp'
    obtain ⟨e, -, rfl⟩ := List.mem_map.mp hp
    obtain ⟨e', -, rfl⟩ := List.mem_map.mp hp'
    exact hne

/-- Where objects with different names are listed under different ones, one handle has one name:
two entries under it are shown by that of the entry the tree keeps. -/
theorem named_of_opens (hopens : OpensListed fs path es (namesFilled es)) :
    ∀ e ∈ es, ∀ e' ∈ es, e.handle = e'.handle → e.name = e'.name := by
  intro e he e' he' hkey
  by_contra hne
  have hsame : Tree.kept es e = Tree.kept es e' := by
    have hboth := Tree.recorded_kept he
    rw [hkey, Tree.recorded_kept he'] at hboth
    exact (Option.some.inj hboth).symm
  apply hopens.apart (e, shownName (Tree.kept es e).name) _
    (e', shownName (Tree.kept es e').name) _ hne
  · rw [hsame]
  · rw [zip_namesFilled]
    exact List.mem_map.mpr ⟨e, he, rfl⟩
  · rw [zip_namesFilled]
    exact List.mem_map.mpr ⟨e', he', rfl⟩

/-- Where each name opens, none is changed for the listing: the changed one would have to be
the name of another object. -/
theorem unchanged_of_opens (h : fs.tree.Records q es) (hway : fs.tree.lookup path = .found q)
    (hopens : OpensListed fs path es (namesFilled es))
    (hname : ∀ e ∈ es, (Tree.kept es e).name = e.name) {e : Entry} (he : e ∈ es) {c : Char}
    (hmem : c ∈ e.name) (hc : c = '/' ∨ c = '\x00') : False := by
  obtain ⟨hmark, hchanged⟩ := changed_shownName hmem hc
  have hne : ∀ n : Str, '_' ∉ n → shownName e.name ≠ n := fun n hn heq => hn (heq ▸ hmark)
  have hpair : ∀ x ∈ es, (x, shownName x.name) ∈ es.zip (namesFilled es) := by
    intro x hx
    rw [zip_namesFilled]
    exact List.mem_map.mpr ⟨x, hx, by rw [hname x hx]⟩
  have hthere : ((es.zip (namesFilled es)).find? fun p => p.2 = shownName e.name).isSome :=
    List.find?_isSome.mpr ⟨_, hpair e he, decide_eq_true rfl⟩
  obtain ⟨p, hp⟩ := Option.isSome_iff_exists.mp hthere
  have hsome := List.find?_some hp
  have hshown : p.2 = shownName e.name := of_decide_eq_true hsome
  rw [← hshown] at hp
  obtain ⟨hresolved, -⟩ := hopens.opens p (by rw [hshown]; exact hne _ (by decide))
    (by rw [hshown]; exact hne _ (by decide)) hp
  have hlookup := lookup_child h hway (shownName_plain e.name).1 (hne [] (by decide))
    (hne ['.'] (by decide))
  rw [hshown] at hresolved
  cases hfind : es.find? (fun y => (Tree.kept es y).name = shownName e.name) with
  | none =>
      rw [hfind] at hlookup
      rw [resolved_of_notFound hlookup] at hresolved
      cases hresolved
  | some y =>
      have hy := List.mem_of_find?_eq_some hfind
      have hsome := List.find?_some hfind
      have hraw : y.name = shownName e.name := (hname y hy).symm.trans (of_decide_eq_true hsome)
      apply hopens.apart _ (hpair e he) _ (hpair y hy)
      · rw [hraw]
        exact hchanged.symm
      · rw [hraw]
        exact (shownName_eq (shownName_plain e.name).1 (shownName_plain e.name).2).symm

/-- **Entries that open are openable**, where the path leads to the folder. -/
theorem openable_of_opens (h : fs.tree.Records q es) (hway : fs.tree.lookup path = .found q)
    (hopens : OpensListed fs path es (namesFilled es)) : Openable fs path q es := by
  have hname : ∀ e ∈ es, (Tree.kept es e).name = e.name :=
    fun e he => kept_name (named_of_opens hopens) he
  have hunchanged : ∀ e ∈ es, '/' ∉ e.name ∧ '\x00' ∉ e.name := fun e he =>
    ⟨fun hmem => unchanged_of_opens h hway hopens hname he hmem (.inl rfl),
      fun hmem => unchanged_of_opens h hway hopens hname he hmem (.inr rfl)⟩
  have hfirst : ∀ x, es.find? (fun e => e.name = x.name) = some x →
      (es.zip (namesFilled es)).find? (fun p => p.2 = x.name) = some (x, x.name) := by
    intro x hx
    rw [zip_unchanged hname hunchanged, List.find?_map]
    exact congrArg (Option.map fun e => (e, e.name)) hx
  have hitself : ∀ x, es.find? (fun e => e.name = []) = some x → x.handle = q := by
    intro x hx
    have hsome := List.find?_some hx
    have hempty : x.name = [] := of_decide_eq_true hsome
    have hnamed : es.find? (fun e => e.name = x.name) = some x := by
      rw [← hx]
      apply List.find?_congr
      intro e _
      simp only [hempty]
    have hhere : x.name ≠ ['.'] := by
      rw [hempty]
      decide
    have hup : x.name ≠ ['.', '.'] := by
      rw [hempty]
      decide
    obtain ⟨hresolved, -⟩ := hopens.opens (x, x.name) hhere hup (hfirst x hnamed)
    rw [hempty, resolved_of_lookup (lookup_empty hway)] at hresolved
    exact (Except.ok.inj hresolved).symm
  refine ⟨hway, hunchanged, hitself, named_of_opens hopens, ?_⟩
  intro x hhere hup hx hp
  have hfound := lookup_first h hway hname hunchanged hitself hhere hx
  obtain ⟨-, st, hst, hquiet⟩ := hopens.opens (x, x.name) hhere hup (hfirst x hx)
  obtain ⟨-, st', hst', hquiet'⟩ := opens_of_lookup h (List.mem_of_find?_eq_some hx) hfound
  rw [← hquiet' hp, ← hquiet hp]
  exact Except.ok.inj (hst'.symm.trans hst)

/-- **Every listed name opens**, and tells its object from the others, when the entries that the
device gave are openable; and where the path leads to the folder once they are in the tree, in no
other case. -/
theorem opens_listed_iff (h : ReadsDir path fs q es fs') :
    ∃ names, opReaddir path fs = (.ok (['.'] :: ['.', '.'] :: names), fs') ∧
      (Openable fs' path q es → OpensListed fs' path es names) ∧
      (fs'.tree.lookup path = .found q →
        (OpensListed fs' path es names ↔ Openable fs' path q es)) := by
  refine ⟨namesFilled es, h.run, opens_of_openable h.records, fun hway => ⟨?_, ?_⟩⟩
  · exact openable_of_opens h.records hway
  · exact opens_of_openable h.records

/-- A path leads to its folder once the folder is read, when no object of the folder is one of
another folder too. -/
theorem way_of_readsDir {m : Mtp σ} (hfolder : resolved path fs = (.ok q, fs'))
    (hunread : fs'.tree.listed q = false)
    (hown : ∀ r ks, r ≠ q → fs'.tree.childrenOf r = some ks → ∀ k ∈ ks, k ∉ es.map Entry.handle) :
    Tree.lookup { fs' with mtp := m, tree := fs'.tree.setChildren q es }.tree path = .found q := by
  have hfound : fs'.tree.lookup path = .found q := by
    obtain ⟨found, fs₂, hresolve, hlast⟩ := Proc.bind_eq_ok hfolder
    cases found with
    | none => cases hlast
    | some k =>
        cases hlast
        exact lookup_of_resolveIn hresolve
  exact Tree.lookupFrom_setChildren hfound (by rw [hunread]; decide) hown

omit [Link σ] in
/-- Distinct handles, none of them the root's, and names that a path can end in. -/
theorem openable_of_distinct (hway : fs.tree.lookup path = .found q)
    (hkeys : (es.map Entry.handle).Nodup) (hroot : ∀ e ∈ es, e.handle ≠ root)
    (hplain : ∀ e ∈ es, Plain e.name) : Openable fs path q es := by
  have hone : ∀ e ∈ es, ∀ e' ∈ es, e.handle = e'.handle → e = e' := fun e he e' he' hkey =>
    List.inj_on_of_nodup_map hkeys he he' hkey
  refine ⟨hway, fun e he => ⟨(hplain e he).slash, (hplain e he).ended⟩, ?_, ?_, ?_⟩
  · intro x hx
    have hempty := List.find?_some hx
    exact absurd (of_decide_eq_true hempty) (hplain x (List.mem_of_find?_eq_some hx)).nonempty
  · intro e he e' he' hkey
    rw [hone e he e' he' hkey]
  · intro x _ _ hx _
    have hmem := List.mem_of_find?_eq_some hx
    obtain ⟨hkept, hkey⟩ := Tree.kept_mem hmem
    rw [hone _ hkept x hmem hkey, attributes, if_neg (hroot x hmem)]

/-- The one file of a mount, as the mount lists it. -/
def listedFile (name : Str) : Entry := ⟨1, root, name, false, 3⟩

/-- The mount after it read its root, which holds one file. -/
def rootOf (m : Mtp Phone) (name : Str) : Fs Phone :=
  { start m Host.obliging with
    mtp := (Mtp.list root m).2
    tree := Tree.new.setChildren root [listedFile name] }

theorem readsDir_root {m : Mtp Phone} (hlist : (Mtp.list root m).1 = .ok [listedFile name]) :
    ReadsDir ['/'] (start m Host.obliging) root [listedFile name] (rootOf m name) :=
  .reads (resolved_of_lookup rfl) rfl (Prod.ext hlist rfl)

/-- The file `a` opens. -/
theorem opens_listed_a : ∃ names,
    opReaddir ['/'] (start (Mtp.mountOfZeros 3 Mtp.three_fits) Host.obliging) =
        (.ok (['.'] :: ['.', '.'] :: names), rootOf (Mtp.mountOfZeros 3 Mtp.three_fits) ['a']) ∧
      OpensListed (rootOf (Mtp.mountOfZeros 3 Mtp.three_fits) ['a']) ['/'] [listedFile ['a']]
        names := by
  have hreads : ReadsDir ['/'] (start (Mtp.mountOfZeros 3 Mtp.three_fits) Host.obliging) root
      [listedFile ['a']] (rootOf (Mtp.mountOfZeros 3 Mtp.three_fits) ['a']) :=
    readsDir_root (by decide +kernel)
  obtain ⟨names, hrun, hopens, -⟩ := opens_listed_iff hreads
  refine ⟨names, hrun, hopens (openable_of_distinct ?_ (List.nodup_singleton _) ?_ ?_)⟩
  · have hfolder : resolved ['/'] (start (Mtp.mountOfZeros 3 Mtp.three_fits) Host.obliging) =
        (.ok root, start (Mtp.mountOfZeros 3 Mtp.three_fits) Host.obliging) :=
      resolved_of_lookup rfl
    apply way_of_readsDir hfolder rfl
    intro r ks _ hks
    cases hks
  · exact List.forall_mem_singleton.mpr (by decide)
  · exact List.forall_mem_singleton.mpr ⟨by decide, by decide, by decide⟩

/-- A mount whose one file has a separator in its name. -/
def slashed : Mtp Phone :=
  Mtp.standard (Phone.holding ((Mtp.storeOfZeros 3 Mtp.three_fits).rename 1 ['a', '/', 'b'])
    Policy.obliging)

/-- The file `a/b` is listed as `a_b`, which opens nothing. -/
theorem slash_not_opened : ∃ (fs' : Fs Phone) (q : UInt32) (es : List Entry) (names : List Str),
    ReadsDir ['/'] (start slashed Host.obliging) q es fs' ∧
      opReaddir ['/'] (start slashed Host.obliging) =
        (.ok (['.'] :: ['.', '.'] :: names), fs') ∧ ¬ OpensListed fs' ['/'] es names := by
  have hreads : ReadsDir ['/'] (start slashed Host.obliging) root [listedFile ['a', '/', 'b']]
      (rootOf slashed ['a', '/', 'b']) := readsDir_root (by decide +kernel)
  refine ⟨_, _, _, _, hreads, hreads.run, fun hopens => ?_⟩
  have hopen := openable_of_opens hreads.records rfl hopens
  exact (hopen.unchanged _ (List.mem_singleton.mpr rfl)).1 (by decide)

end Fs

end Bsdroid
