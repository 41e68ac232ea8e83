import Bsdroid.Cellphone.Phone

/-!
# What one operation can do to the store

`Store.Change` lists the changes one operation can make, and `Phone.exec_change`
says that there are no others, with or without a fault.  `Store.Later` is what
every change keeps: a handle that is gone stays gone, no handle is given twice,
and the content of an object whose bytes arrived never changes.
-/

namespace Bsdroid

namespace Store

variable {s s' s'' : Store} {h k p : UInt32}

/-- An object is found under its own handle. -/
theorem find_key {x : Object} (hx : s.find h = some x) : x.key = h :=
  (s.objects.find_eq_some.mp hx).2

/-- What is found is an object of the store. -/
theorem mem_of_find {x : Object} (hx : s.find h = some x) : x ∈ s.objects.nodes :=
  (s.objects.find_eq_some.mp hx).1

/-- The handle of an object that is there was given out. -/
theorem mem_used_of_find {x : Object} (hx : s.find h = some x) : h ∈ s.used :=
  find_key hx ▸ s.covers x (mem_of_find hx)

/-! ## The operations -/

/-- A removal takes an object and all that is below it, and leaves the other objects alone. -/
theorem find_remove : (s.remove k).find h =
    if h ∈ s.objects.below k then none else s.find h := s.objects.find_remove

/-- A new name, cut to what a dataset holds, goes to one object.  Every other object stays as it
is. -/
theorem find_rename {name : Str} : (s.rename k name).find h =
    (s.find h).map fun x => if h = k then { x with name := Utf16.fit 254 name } else x :=
  s.objects.find_rename

/-- A move that works is a move in the forest, and gives out no handle. -/
theorem move_eq_some (hmove : s.move k p = some s') :
    s.objects.move k p = some s'.objects ∧ s'.used = s.used := by
  unfold move at hmove
  split at hmove
  · cases hmove
  · rename_i objects hobjects
    cases hmove
    exact ⟨hobjects, rfl⟩

/-- After a move one object has another parent. -/
theorem find_move (hmove : s.move k p = some s') : s'.find h =
    (s.find h).map fun x => if h = k then { x with parent := p } else x :=
  s.objects.find_move (move_eq_some hmove).1

/-- A new object has a handle that was never given out, and takes it. -/
theorem insert_eq_some {x : Object} (hins : s.insert x = some s') :
    x.key ∉ s.used ∧ s.objects.insert x = some s'.objects ∧ s'.used = x.key :: s.used := by
  unfold insert at hins
  split at hins
  · rename_i hx
    split at hins
    · cases hins
    · rename_i objects hobjects
      cases hins
      exact ⟨hx.1, hobjects, rfl⟩
  · cases hins

/-- A new object is found under its handle, and the others are found as before. -/
theorem find_insert {x : Object} (hins : s.insert x = some s') :
    s'.find h = if h = x.key then some x else s.find h :=
  s.objects.find_insert (insert_eq_some hins).2.1

/-- A write that works changes the content of one object, and gives out no handle. -/
theorem write_eq_some {c : Content} (hwrite : s.write k c = some s') :
    s'.objects = s.objects.write k c ∧ s'.used = s.used := by
  unfold write at hwrite
  split at hwrite
  · cases hwrite
    exact ⟨rfl, rfl⟩
  · cases hwrite

/-- After a write one object has another content, and each object its folder and its name. -/
theorem find_write {c : Content} (hwrite : s.write k c = some s') : s'.find h =
    (s.find h).map fun x => if h = k then { x with content := c } else x := by
  rw [find, (write_eq_some hwrite).1]
  exact s.objects.find_write

/-! ## One change -/

/-- What one operation can do to the store. -/
inductive Change (s : Store) : Store → Prop
  | same : Change s s
  | removed (h : UInt32) : Change s (s.remove h)
  | renamed (h : UInt32) (name : Str) : Change s (s.rename h name)
  | moved {h p : UInt32} {s' : Store} (hmove : s.move h p = some s') : Change s s'
  | added {x : Object} {s' : Store} (hins : s.insert x = some s') : Change s s'
  | filled {x : Object} {bytes : Bytes} {s' : Store} (hfill : Phone.fill s x bytes = some s') :
      Change s s'

/-- What every later store keeps of an earlier one. -/
structure Later (s s' : Store) : Prop where
  used : ∀ h ∈ s.used, h ∈ s'.used
  gone : ∀ h ∈ s.used, s.find h = none → s'.find h = none
  kept : ∀ h x y, s.find h = some x → x.content.whole = true → s'.find h = some y →
    y.content = x.content

/-- A store is later than itself: nothing happened. -/
theorem Later.refl (s : Store) : Later s s :=
  ⟨fun _ h => h, fun _ _ h => h, fun _ x y hx _ hy => by
    rw [hx] at hy
    cases hy
    rfl⟩

/-- Two runs, one after the other. -/
theorem Later.trans (h₁ : Later s s') (h₂ : Later s' s'') : Later s s'' where
  used h hh := h₂.used h (h₁.used h hh)
  gone h hh hnone := h₂.gone h (h₁.used h hh) (h₁.gone h hh hnone)
  kept h x z hx hwhole hz := by
    cases hy : s'.find h with
    | none =>
        have hgone := h₂.gone h (h₁.used h (mem_used_of_find hx)) hy
        rw [hgone] at hz
        cases hz
    | some y =>
        have hxy := h₁.kept h x y hx hwhole hy
        exact (h₂.kept h y z hy (by rw [hxy]; exact hwhole) hz).trans hxy

/-- A change that maps the object under each handle and keeps its content. -/
theorem Later.of_map {f : UInt32 → Object → Object} (hused : s'.used = s.used)
    (hfind : ∀ h, s'.find h = (s.find h).map (f h))
    (hcontent : ∀ h x, x.content.whole = true → (f h x).content = x.content) : Later s s' where
  used h hh := by rw [hused]; exact hh
  gone h _ hnone := by rw [hfind, hnone]; rfl
  kept h x y hx hwhole hy := by
    rw [hfind, hx, Option.map_some, Option.some.injEq] at hy
    rw [← hy]
    exact hcontent h x hwhole

/-- A new object takes a handle that no object ever had, so nothing of the earlier store changes. -/
theorem later_insert {x : Object} (hins : s.insert x = some s') : Later s s' := by
  obtain ⟨hfresh, -, hused⟩ := insert_eq_some hins
  have hother : ∀ h ∈ s.used, s'.find h = s.find h := by
    intro h hh
    rw [find_insert hins, if_neg]
    intro hsame
    subst hsame
    exact hfresh hh
  refine ⟨fun h hh => by rw [hused]; exact List.mem_cons_of_mem _ hh,
    fun h hh hnone => by rw [hother h hh]; exact hnone, ?_⟩
  intro h y z hy _ hz
  rw [hother h (mem_used_of_find hy), hy] at hz
  cases hz
  rfl

/-- **Every change leads to a later store.** -/
theorem Change.later (h : Change s s') : Later s s' := by
  cases h with
  | same => exact Later.refl s
  | removed k =>
      refine ⟨fun h hh => hh, fun h _ hnone => by rw [find_remove, hnone, ite_self], ?_⟩
      intro h x y hx _ hy
      rw [find_remove] at hy
      split at hy
      · cases hy
      · rw [hx] at hy
        cases hy
        rfl
  | renamed k name =>
      refine Later.of_map rfl (fun h => find_rename) ?_
      intro h x _
      split <;> rfl
  | moved hmove =>
      refine Later.of_map (move_eq_some hmove).2 (fun h => find_move hmove) ?_
      intro h x _
      split <;> rfl
  | added hins => exact later_insert hins
  | @filled x bytes _ hfill =>
      unfold Phone.fill at hfill
      split at hfill
      · exact later_insert hfill
      · rename_i y hy
        split at hfill
        · cases hfill
        · rename_i hwaiting
          refine ⟨fun h hh => by rw [(write_eq_some hfill).2]; exact hh,
            fun h _ hnone => by rw [find_write hfill, hnone]; rfl, ?_⟩
          intro h z w hz hwhole hw
          rw [find_write hfill, hz, Option.map_some, Option.some.injEq] at hw
          rw [← hw]
          split
          · -- The object that was filled was not whole before.
            rename_i hkey
            subst hkey
            rw [hy] at hz
            cases hz
            exact absurd hwhole hwaiting
          · rfl

end Store

namespace Phone

/-- What one operation leaves of a cellphone: the store makes one change, and the
device stays the device it is. -/
structure Served (p q : Phone) : Prop where
  change : Store.Change p.store q.store
  policy : q.policy = p.policy
  storage : q.storage = p.storage

/-- A device that only looks stays as it is. -/
theorem Served.same (p : Phone) : Served p p := ⟨.same, rfl, rfl⟩

/-- A removal takes what is under the handle, or answers that there is nothing. -/
theorem deleteObject_served (p : Phone) (params : List UInt32) :
    Served p (p.deleteObject params).2 := by
  unfold deleteObject
  split
  · split
    · exact ⟨.removed _, rfl, rfl⟩
    · exact .same p
  · exact .same p

/-- A move works, or the device stays as it is. -/
theorem moveObject_served (p : Phone) (params : List UInt32) :
    Served p (p.moveObject params).2 := by
  unfold moveObject
  split
  · split
    · rename_i hmove
      exact ⟨.moved hmove, rfl, rfl⟩
    · exact .same p
  · exact .same p

/-- A new name reaches one object, or the device refuses it before it changes anything. -/
theorem setObjectName_served (p : Phone) (payload : Bytes) (params : List UInt32) :
    Served p (p.setObjectName payload params).2 := by
  unfold setObjectName
  split
  · split
    · split
      · exact ⟨.renamed _ _, rfl, rfl⟩
      · exact .same p
    · exact .same p
  · exact .same p

/-- An announcement adds an empty object at most.  A device that waits for the bytes only notes
the announcement. -/
theorem sendObjectInfo_served (p : Phone) (payload : Bytes) (params : List UInt32) :
    Served p (p.sendObjectInfo payload params).2 := by
  unfold sendObjectInfo
  split
  · split
    · exact .same p
    · dsimp only
      split
      · exact .same p
      · rename_i hins
        split
        · exact ⟨.added hins, rfl, rfl⟩
        · split
          · exact ⟨.added hins, rfl, rfl⟩
          · exact ⟨.same, rfl, rfl⟩
  · exact .same p

/-- The bytes of a send fill one object, the one that was announced. -/
theorem sendObject_served (p : Phone) (payload : Bytes) : Served p (p.sendObject payload).2 := by
  unfold sendObject
  split
  · exact .same p
  · split
    · rename_i hfill
      exact ⟨.filled hfill, rfl, rfl⟩
    · exact .same p

/-- Each operation is one of the five that change something, or a question. -/
theorem serve_served (p : Phone) (code : UInt16) (params : List UInt32) (payload : Bytes) :
    Served p (p.serve code params payload).2 := by
  have hif : ∀ {c : Prop} [Decidable c] {a b : Outcome × Phone},
      Served p a.2 → Served p b.2 → Served p (if c then a else b).2 := by
    intro c _ a b ha hb
    split
    · exact ha
    · exact hb
  have hsame := Served.same p
  unfold serve
  refine hif hsame (hif hsame (hif hsame (hif ?_ (hif ?_ (hif hsame ?_)))))
  · split <;> exact hsame
  · split <;> exact hsame
  · exact hif (p.deleteObject_served _) (hif (p.moveObject_served _)
      (hif (p.setObjectName_served _ _) (hif (p.sendObjectInfo_served _ _)
        (hif (p.sendObject_served _) hsame))))

/-- The log of a device is no part of its store. -/
theorem Served.record {p q : Phone} (h : Served p q) (r : Request) : Served p (q.record r) :=
  ⟨h.change, h.policy, h.storage⟩

/-- **One operation makes one change**, whatever the policy does to it. -/
theorem exec_served (p : Phone) (r : Request) : Served p (exec r p).2 := by
  have hperform : Served p (p.perform r).2 := by
    unfold perform
    split
    · exact .same p
    · exact p.serve_served _ _ _
  unfold exec
  split
  · exact hperform.record r
  · exact (Served.same p).record r
  · exact (Served.same p).record r
  · exact hperform.record r

end Phone

end Bsdroid
