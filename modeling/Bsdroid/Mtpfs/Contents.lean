import Bsdroid.Mtpfs.Changing
import Bsdroid.Mtpfs.Requests

/-!
# What stays on the device

A rename, a move and an announcement leave every object with its contents
(`Store.Stays`), and a delete of a file takes that file alone.  `Mtp.Passes P` carries a
property of the store through the operations of a call: when it holds before, it
holds after each of them.
-/

namespace Bsdroid

namespace Store

variable {s s' : Store} {h k : UInt32} {c : Content}

/-- Every object of the one store is in the other, with its contents. -/
def Stays (s s' : Store) : Prop := ∀ k x, s.find k = some x →
  ∃ x', s'.find k = some x' ∧ x'.folder = x.folder ∧ x'.content = x.content

theorem Stays.refl (s : Store) : Stays s s := fun _ x hx => ⟨x, hx, rfl, rfl⟩

/-- A change that maps the object under each handle. -/
theorem Stays.of_map {f : UInt32 → Object → Object}
    (hfind : ∀ k, s'.find k = (s.find k).map (f k))
    (hkeeps : ∀ k x, (f k x).folder = x.folder ∧ (f k x).content = x.content) : Stays s s' := by
  intro k x hx
  refine ⟨f k x, ?_, hkeeps k x⟩
  rw [hfind, hx, Option.map_some]

/-- A new name leaves the contents of every object. -/
theorem stays_rename (h : UInt32) (name : Str) : Stays s (s.rename h name) := by
  refine .of_map (fun k => find_rename) fun k x => ?_
  split
  · exact ⟨rfl, rfl⟩
  · exact ⟨rfl, rfl⟩

/-- So does a move. -/
theorem stays_move {p : UInt32} (hmove : s.move h p = some s') : Stays s s' := by
  refine .of_map (fun k => find_move hmove) fun k x => ?_
  split
  · exact ⟨rfl, rfl⟩
  · exact ⟨rfl, rfl⟩

/-- A new object has a handle that no object had. -/
theorem stays_insert {x : Object} (hins : s.insert x = some s') : Stays s s' := by
  intro k y hy
  refine ⟨y, ?_, rfl, rfl⟩
  rw [find_insert hins, if_neg]
  · exact hy
  · intro hsame
    subst hsame
    exact (insert_eq_some hins).1 (mem_used_of_find hy)

/-- The store holds an object under a handle, with these contents. -/
def Has (s : Store) (k : UInt32) (c : Content) : Prop := ∃ x, s.find k = some x ∧ x.content = c

/-- The object is a file. -/
def HasFile (s : Store) (k : UInt32) (c : Content) : Prop :=
  ∃ x, s.find k = some x ∧ x.folder = false ∧ x.content = c

theorem Stays.has (hstays : Stays s s') (h : s.Has k c) : s'.Has k c := by
  obtain ⟨x, hx, hcontent⟩ := h
  obtain ⟨x', hx', -, hsame⟩ := hstays k x hx
  exact ⟨x', hx', hsame.trans hcontent⟩

theorem Stays.hasFile (hstays : Stays s s') (h : s.HasFile k c) : s'.HasFile k c := by
  obtain ⟨x, hx, hfile, hcontent⟩ := h
  obtain ⟨x', hx', hfolder, hsame⟩ := hstays k x hx
  exact ⟨x', hx', hfolder.trans hfile, hsame.trans hcontent⟩

/-- **A delete of a file** takes that file alone. -/
theorem find_remove_file {y : Object} (hy : s.find h = some y) (hfile : y.folder = false)
    (hne : k ≠ h) : (s.remove h).find k = s.find k := by
  have hchildless : s.objects.children h = [] := by
    rw [← find_key hy]
    exact s.objects.children_of_file (mem_of_find hy) hfile
  rw [find_remove, if_neg]
  exact fun hbelow => hne (s.objects.below_of_childless hchildless k hbelow)

/-- A file that goes takes nothing with it. -/
theorem Has.remove {c' : Content} (hk : s.Has k c) (hh : s.HasFile h c') (hne : k ≠ h) :
    (s.remove h).Has k c := by
  obtain ⟨x, hx, hcontent⟩ := hk
  obtain ⟨y, hy, hfile, -⟩ := hh
  refine ⟨x, ?_, hcontent⟩
  rw [find_remove_file hy hfile hne]
  exact hx

end Store

namespace Phone

/-- **An operation that neither deletes nor brings bytes** leaves every object with its
contents. -/
theorem serve_stays (p : Phone) {code : UInt16} (hdelete : code ≠ Op.deleteObject)
    (hsend : code ≠ Op.sendObject) (params : List UInt32) (payload : Bytes) :
    Store.Stays p.store (p.serve code params payload).2.store := by
  have hif : ∀ {c : Prop} [Decidable c] {a b : Outcome × Phone},
      (c → Store.Stays p.store a.2.store) → (¬ c → Store.Stays p.store b.2.store) →
        Store.Stays p.store (if c then a else b).2.store := by
    intro c _ a b ha hb
    split
    · rename_i hc
      exact ha hc
    · rename_i hc
      exact hb hc
  have hsame := Store.Stays.refl p.store
  unfold serve
  refine hif (fun _ => hsame) fun _ => hif (fun _ => hsame) fun _ => hif (fun _ => hsame) fun _ =>
    hif (fun _ => ?_) fun _ => hif (fun _ => ?_) fun _ => hif (fun _ => hsame) fun _ =>
    hif (fun h => absurd h hdelete) fun _ => hif (fun _ => ?_) fun _ => hif (fun _ => ?_) fun _ =>
    hif (fun _ => ?_) fun _ => hif (fun h => absurd h hsend) fun _ => hsame
  · split <;> exact hsame
  · split <;> exact hsame
  · unfold moveObject
    split
    · split
      · rename_i hmove
        exact Store.stays_move hmove
      · exact hsame
    · exact hsame
  · unfold setObjectName
    split
    · split
      · exact hif (fun _ => Store.stays_rename _ _) fun _ => hsame
      · exact hsame
    · exact hsame
  · unfold sendObjectInfo
    split
    · split
      · exact hsame
      · dsimp only
        split
        · exact hsame
        · rename_i hins
          refine hif (fun _ => Store.stays_insert hins) fun _ => ?_
          exact hif (fun _ => Store.stays_insert hins) fun _ => hsame
    · exact hsame

/-- No other operation takes an object away or changes its contents. -/
theorem exec_stays (p : Phone) {r : Request} (hdelete : r.code ≠ Op.deleteObject)
    (hsend : r.code ≠ Op.sendObject) : Store.Stays p.store (exec r p).2.store := by
  have hperform : Store.Stays p.store (p.perform r).2.store := by
    unfold perform
    split
    · exact .refl _
    · exact p.serve_stays hdelete hsend _ _
  unfold exec
  split
  · exact hperform
  · exact .refl _
  · exact .refl _
  · exact hperform

/-- A delete takes the object, or the device holds what it held. -/
theorem exec_delete (p : Phone) (h : UInt32) :
    (exec (Mtp.deleteRequest h) p).2.store = p.store ∨
      (p.store.find h).isSome ∧ (exec (Mtp.deleteRequest h) p).2.store = p.store.remove h := by
  have hperform : (p.perform (Mtp.deleteRequest h)).2.store = p.store ∨
      (p.store.find h).isSome ∧ (p.perform (Mtp.deleteRequest h)).2.store = p.store.remove h := by
    show (p.deleteObject [h, 0]).2.store = p.store ∨
      (p.store.find h).isSome ∧ (p.deleteObject [h, 0]).2.store = p.store.remove h
    rw [deleteObject]
    by_cases hfind : (p.store.find h).isSome
    · rw [if_pos hfind]
      exact .inr ⟨hfind, rfl⟩
    · rw [if_neg hfind]
      exact .inl rfl
  unfold exec
  split
  · exact hperform
  · exact .inl rfl
  · exact .inl rfl
  · exact hperform

end Phone

namespace Mtp

variable {m m' m'' : Mtp Phone} {P Q : Store → Prop}

/-- The stores of the device after each operation between two states. -/
def points (m m' : Mtp Phone) : List Store :=
  m'.session.trace.drop m.session.trace.length

/-- A property of the store holds after each operation between two states, and at their end. -/
structure Within (P : Store → Prop) (m m' : Mtp Phone) : Prop where
  traced : ∃ new, m'.session.trace = m.session.trace ++ new ∧ ∀ s ∈ new, P s
  last : P m'.session.store

/-- Two stretches of operations in a row. -/
theorem Within.trans (h : Within P m m') (h' : Within P m' m'') : Within P m m'' := by
  obtain ⟨new, hnew, hall⟩ := h.traced
  obtain ⟨more, hmore, hrest⟩ := h'.traced
  refine ⟨⟨new ++ more, by rw [hmore, hnew, List.append_assoc], fun s hs => ?_⟩, h'.last⟩
  rcases List.mem_append.mp hs with hs | hs
  · exact hall s hs
  · exact hrest s hs

theorem Within.mono (h : Within P m m') (himp : ∀ s, P s → Q s) : Within Q m m' := by
  obtain ⟨new, hnew, hall⟩ := h.traced
  exact ⟨⟨new, hnew, fun s hs => himp s (hall s hs)⟩, himp _ h.last⟩

/-- The property holds at each point between the two states. -/
theorem Within.points (h : Within P m m') : ∀ s ∈ m.points m', P s := by
  obtain ⟨new, hnew, hall⟩ := h.traced
  rw [Mtp.points, hnew, List.drop_left]
  exact hall

/-- One operation. -/
theorem within_exec {r : Request} (h : P (exec r m).2.session.store) : Within P m (exec r m).2 := by
  refine ⟨⟨[(exec r m).2.session.store], Phone.exec_trace r m.session, fun s hs => ?_⟩, h⟩
  rw [List.mem_singleton.mp hs]
  exact h

/-- A state with the same session. -/
theorem Within.of_same (hsame : m'.session = m.session) (h : P m.session.store) : Within P m m' := by
  refine ⟨⟨[], by rw [hsame, List.append_nil], fun _ hs => absurd hs List.not_mem_nil⟩, ?_⟩
  rw [hsame]
  exact h

/-- A property of the store that holds before holds after each operation. -/
def Passes (P : Store → Prop) (m m' : Mtp Phone) : Prop := P m.session.store → Within P m m'

theorem chains_passes (P : Store → Prop) : Fs.Chains (Passes P) where
  refl _ h := .of_same rfl h
  trans h h' hP := (h hP).trans (h' (h hP).last)

/-- A property that no rename, move or announcement breaks. -/
theorem takes_stays (hP : ∀ s s', P s → Store.Stays s s' → P s') :
    Takes (fun r => r.code ≠ Op.deleteObject ∧ r.code ≠ Op.sendObject) (Passes P) where
  toChains := chains_passes P
  exec _ hr m h := within_exec (hP _ _ h (Phone.exec_stays m.session hr.1 hr.2))
  cache _ _ h := .of_same rfl h

end Mtp

end Bsdroid
