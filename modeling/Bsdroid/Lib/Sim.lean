import Bsdroid.Lib.Proc

/-!
# One program over two systems

A program that is written for any system runs over a lower one and over an upper one.  A
`Coupling` says which states of the two belong together, and in which states the upper system
still stands for the lower one; every upper state belongs to some lower state.

`Sim c V x y` says of the two runs of a program that from states that belong together they
give answers related by `V` and end in states that belong together, whenever the upper run
ends in a state that counts; and that a run which ends in such a state began in one.  So a
program put together from such steps is such a step, and nothing need be known of a run that
left the states that count on its way.
-/

/-- Which states of a lower and an upper system belong together, and which upper states
count. -/
structure Coupling (S T : Type) where
  good : T → Prop
  rel : S → T → Prop
  total : ∀ t, ∃ s, rel s t

namespace Proc

variable {E E' S T S' T' α β : Type}

/-- Two answers are the same fault, or related values. -/
def Answers (V : α → α → Prop) : Except E α → Except E α → Prop
  | .ok a, .ok b => V a b
  | .error e, .error e' => e = e'
  | _, _ => False

theorem answers_eq {r r' : Except E α} : Answers Eq r r' ↔ r = r' := by
  cases r with
  | ok a =>
      cases r' with
      | ok b => exact ⟨fun h => congrArg Except.ok h, fun h => Except.ok.inj h⟩
      | error e => exact ⟨False.elim, fun h => nomatch h⟩
  | error e =>
      cases r' with
      | ok b => exact ⟨False.elim, fun h => nomatch h⟩
      | error e' => exact ⟨fun h => congrArg Except.error h, fun h => Except.error.inj h⟩

/-- The program over the lower system does what it does over the upper one. -/
structure Sim (c : Coupling S T) (V : α → α → Prop) (x : Proc E S α) (y : Proc E T α) :
    Prop where
  began : ∀ t, c.good (y t).2 → c.good t
  same : ∀ s t, c.rel s t → c.good (y t).2 → Answers V (x s).1 (y t).1 ∧ c.rel (x s).2 (y t).2

section Rules

variable {c : Coupling S T} {V : α → α → Prop} {W : β → β → Prop}

/-- A value that both give. -/
theorem Sim.pure {a b : α} (hV : V a b) : Sim c V (pure a : Proc E S α) (pure b : Proc E T α) where
  began _ h := h
  same _ _ hst _ := ⟨hV, hst⟩

theorem Sim.fail (e : E) : Sim c V (Proc.fail e : Proc E S α) (Proc.fail e : Proc E T α) where
  began _ h := h
  same _ _ hst _ := ⟨rfl, hst⟩

theorem Sim.ofExcept (r : Except E α) :
    Sim c Eq (Proc.ofExcept r : Proc E S α) (Proc.ofExcept r : Proc E T α) where
  began _ h := h
  same _ _ hst _ := ⟨answers_eq.mpr rfl, hst⟩

theorem Sim.modify {f : S → S} {g : T → T} (hgood : ∀ t, c.good (g t) → c.good t)
    (hrel : ∀ s t, c.rel s t → c.rel (f s) (g t)) :
    Sim c Eq (Proc.modify f : Proc E S Unit) (Proc.modify g : Proc E T Unit) where
  began := hgood
  same s t hst _ := ⟨rfl, hrel s t hst⟩

/-- The rule of sequence. -/
theorem Sim.bind {x : Proc E S α} {y : Proc E T α} {f : α → Proc E S β} {g : α → Proc E T β}
    (hx : Sim c V x y) (hV : ∀ a, V a a) (hf : ∀ a b, V a b → Sim c W (f a) (g b)) :
    Sim c W (x >>= f) (y >>= g) where
  began t h := by
    apply hx.began
    rw [bind_run] at h
    rcases hy : y t with ⟨e | b, t'⟩
    · rw [hy] at h
      exact h
    · rw [hy] at h
      exact (hf b b (hV b)).began t' h
  same s t hst h := by
    rw [bind_run] at h
    rcases hy : y t with ⟨e | b, t'⟩
    · rw [hy] at h
      obtain ⟨hanswer, hrel⟩ := hx.same s t hst (by rw [hy]; exact h)
      rw [hy] at hanswer hrel
      rcases hs : x s with ⟨e' | a, s'⟩
      · rw [hs] at hanswer hrel
        rw [bind_error hs, bind_error hy]
        exact ⟨hanswer, hrel⟩
      · rw [hs] at hanswer
        cases hanswer
    · rw [hy] at h
      have hgood := (hf b b (hV b)).began t' h
      obtain ⟨hanswer, hrel⟩ := hx.same s t hst (by rw [hy]; exact hgood)
      rw [hy] at hanswer hrel
      rcases hs : x s with ⟨e | a, s'⟩
      · rw [hs] at hanswer
        cases hanswer
      · rw [hs] at hanswer hrel
        rw [bind_ok hs, bind_ok hy]
        exact (hf a b hanswer).same s' t' hrel h

/-- The rule of sequence, after a step that gives one value. -/
theorem Sim.step {x : Proc E S α} {y : Proc E T α} {f : α → Proc E S β} {g : α → Proc E T β}
    (hx : Sim c Eq x y) (hf : ∀ a, Sim c W (f a) (g a)) : Sim c W (x >>= f) (y >>= g) := by
  apply hx.bind (fun _ => rfl)
  intro a b hab
  rw [hab]
  exact hf b

/-- A program that looks at the state. -/
theorem Sim.look {k : S → Proc E S β} {l : T → Proc E T β}
    (h : ∀ s t, c.rel s t → Sim c W (k s) (l t)) :
    Sim c W (Proc.get >>= k) (Proc.get >>= l) where
  began t hgood := by
    obtain ⟨s, hst⟩ := c.total t
    exact (h s t hst).began t hgood
  same s t hst hgood := (h s t hst).same s t hst hgood

theorem Sim.attempt {x : Proc E S α} {y : Proc E T α} (h : Sim c Eq x y) :
    Sim c Eq (Proc.attempt x : Proc E' S (Except E α)) (Proc.attempt y) where
  began := h.began
  same s t hst hgood := by
    obtain ⟨hanswer, hrel⟩ := h.same s t hst hgood
    exact ⟨answers_eq.mp hanswer, hrel⟩

theorem Sim.mapError {x : Proc E S α} {y : Proc E T α} (f : E → E') (h : Sim c V x y) :
    Sim c V (Proc.mapError f x) (Proc.mapError f y) where
  began := h.began
  same s t hst hgood := by
    obtain ⟨hanswer, hrel⟩ := h.same s t hst hgood
    refine ⟨?_, hrel⟩
    show Answers V ((x s).1.mapError f) ((y t).1.mapError f)
    rcases hx : (x s).1 with e | a
    · rcases hy : (y t).1 with e' | b
      · rw [hx, hy] at hanswer
        exact congrArg f hanswer
      · rw [hx, hy] at hanswer
        cases hanswer
    · rcases hy : (y t).1 with e' | b
      · rw [hx, hy] at hanswer
        cases hanswer
      · rw [hx, hy] at hanswer
        exact hanswer

/-- A step on a part of each state. -/
theorem Sim.onPart {d : Coupling S' T'} {part : S → S'} {part' : T → T'} {put : S' → S → S}
    {put' : T' → T → T} {x : Proc E S' α} {y : Proc E T' α} (h : Sim d V x y)
    (hgood : ∀ t, c.good t ↔ d.good (part' t)) (hput : ∀ u t, part' (put' u t) = u)
    (hpart : ∀ s t, c.rel s t → d.rel (part s) (part' t))
    (hback : ∀ s t a b, c.rel s t → d.rel a b → c.rel (put a s) (put' b t)) :
    Sim c V (Proc.onPart part put x) (Proc.onPart part' put' y) where
  began t hend := by
    rw [hgood] at hend ⊢
    apply h.began
    have hpart : d.good (part' (put' (y (part' t)).2 t)) := hend
    rw [hput] at hpart
    exact hpart
  same s t hst hend := by
    rw [hgood] at hend
    have hpart' : d.good (part' (put' (y (part' t)).2 t)) := hend
    rw [hput] at hpart'
    obtain ⟨hanswer, hrel⟩ := h.same _ _ (hpart s t hst) hpart'
    exact ⟨hanswer, hback _ _ _ _ hst hrel⟩

theorem Sim.ite {p : Prop} [Decidable p] {x x' : Proc E S α} {y y' : Proc E T α}
    (h : p → Sim c V x y) (h' : ¬p → Sim c V x' y') :
    Sim c V (if p then x else x') (if p then y else y') := by
  by_cases hp : p
  · rw [if_pos hp, if_pos hp]
    exact h hp
  · rw [if_neg hp, if_neg hp]
    exact h' hp

end Rules

end Proc
