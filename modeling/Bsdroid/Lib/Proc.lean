import Mathlib.Data.List.Basic

/-!
# Programs that change a state and can fail

An `Proc E S α` runs from a state and gives a value or a fault, and the state
after it.  A fault keeps the state it happened in, as an early return does.

`Triple P x Q R` is the partial statement about such a program: from a state
with `P`, a value comes with `Q` and a fault comes with `R`.  The rules below
follow the shape of a program, so that the statement about a long one is put
together from the statements about its steps.
-/

/-- A program over a state `S` that gives an `α` or a fault in `E`. -/
def Proc (E S α : Type) : Type := S → Except E α × S

namespace Proc

variable {E E' S T α β : Type}

instance : Monad (Proc E S) where
  pure a := fun s => (.ok a, s)
  bind x f := fun s =>
    match x s with
    | (.ok a, s) => f a s
    | (.error e, s) => (.error e, s)

theorem pure_run (a : α) (s : S) : (pure a : Proc E S α) s = (.ok a, s) := rfl

/-- A program runs on from the state that the one before it left, or fails as that one did. -/
theorem bind_run (x : Proc E S α) (f : α → Proc E S β) (s : S) :
    (x >>= f) s = match x s with
      | (.ok a, s) => f a s
      | (.error e, s) => (.error e, s) := rfl

/-- Steps in a row run in the same order however they are grouped. -/
theorem bind_bind {γ : Type} (x : Proc E S α) (f : α → Proc E S β) (g : β → Proc E S γ) :
    ((x >>= f) >>= g) = x >>= fun a => f a >>= g := by
  funext s
  rw [bind_run, bind_run, bind_run]
  rcases x s with ⟨e | a, s'⟩
  · rfl
  · rfl

/-- After a step that succeeds, the rest of the program goes on. -/
theorem bind_ok {x : Proc E S α} {f : α → Proc E S β} {s s' : S} {a : α}
    (h : x s = (.ok a, s')) : (x >>= f) s = f a s' := by
  rw [bind_run, h]

/-- A step that fails ends the program. -/
theorem bind_error {x : Proc E S α} {f : α → Proc E S β} {s s' : S} {e : E}
    (h : x s = (.error e, s')) : (x >>= f) s = (.error e, s') := by
  rw [bind_run, h]

/-- A value that is only changed leaves the state alone. -/
theorem bind_pure_state (x : Proc E S α) (f : α → β) (s : S) :
    ((x >>= fun a => pure (f a)) s).2 = (x s).2 := by
  rw [bind_run]
  rcases x s with ⟨e | a, s'⟩
  · rfl
  · rfl

/-- A program that gave a value did each of its steps. -/
theorem bind_eq_ok {x : Proc E S α} {f : α → Proc E S β} {s s' : S} {b : β}
    (h : (x >>= f) s = (.ok b, s')) :
    ∃ a s₁, x s = (.ok a, s₁) ∧ f a s₁ = (.ok b, s') := by
  rw [bind_run] at h
  rcases hx : x s with ⟨e | a, s₁⟩
  · rw [hx] at h
    cases h
  · rw [hx] at h
    exact ⟨a, s₁, rfl, h⟩

/-- A program that failed did so at its first step or after it. -/
theorem bind_eq_error {x : Proc E S α} {f : α → Proc E S β} {s s' : S} {e : E}
    (h : (x >>= f) s = (.error e, s')) :
    x s = (.error e, s') ∨ ∃ a s₁, x s = (.ok a, s₁) ∧ f a s₁ = (.error e, s') := by
  rw [bind_run] at h
  rcases hx : x s with ⟨e' | a, s₁⟩
  · rw [hx] at h
    cases h
    exact .inl rfl
  · rw [hx] at h
    exact .inr ⟨a, s₁, rfl, h⟩

/-- Ends a program with a fault. -/
def fail (e : E) : Proc E S α := fun s => (.error e, s)

/-- Reads the state. -/
def get : Proc E S S := fun s => (.ok s, s)

/-- Changes the state. -/
def modify (f : S → S) : Proc E S Unit := fun s => (.ok (), f s)

/-- Gives the answer of a program as a value, so that the caller decides what a
fault means. -/
def attempt (x : Proc E S α) : Proc E' S (Except E α) := fun s => (.ok (x s).1, (x s).2)

/-- Gives an answer that needs no state. -/
def ofExcept (x : Except E α) : Proc E S α := fun s => (x, s)

/-- Runs a program on a part of the state. -/
def onPart (part : S → T) (put : T → S → S) (x : Proc E T α) : Proc E S α := fun s =>
  ((x (part s)).1, put (x (part s)).2 s)

/-- Changes the faults of a program. -/
def mapError (f : E → E') (x : Proc E S α) : Proc E' S α := fun s =>
  ((x s).1.mapError f, (x s).2)

theorem get_run (s : S) : (get : Proc E S S) s = (.ok s, s) := rfl

theorem modify_run (f : S → S) (s : S) :
    (modify f : Proc E S Unit) s = (.ok (), f s) := rfl

theorem ofExcept_ok (a : α) (s : S) :
    (ofExcept (.ok a) : Proc E S α) s = (.ok a, s) := rfl

/-- A value that is there already comes without a change of the state. -/
theorem ofExcept_eq_ok {x : Except E α} {s s' : S} {a : α}
    (h : (ofExcept x : Proc E S α) s = (.ok a, s')) : x = .ok a ∧ s = s' := by
  cases h
  exact ⟨rfl, rfl⟩

theorem mapError_ofExcept_ok (f : E → E') (a : α) (s : S) :
    mapError f (ofExcept (.ok a) : Proc E S α) s = (.ok a, s) := rfl

theorem mapError_ofExcept_eq_ok {x : Except E α} {f : E → E'} {s s' : S} {a : α}
    (h : mapError f (ofExcept x : Proc E S α) s = (.ok a, s')) : x = .ok a ∧ s = s' := by
  cases x with
  | error e => cases h
  | ok b =>
      cases h
      exact ⟨rfl, rfl⟩

/-! ## What a program does to its state -/

/-- Whatever a program answers, its run relates the state before to the state
after. -/
def Steps (R : S → S → Prop) (x : Proc E S α) : Prop := ∀ s, R s (x s).2

section Steps

variable {R : S → S → Prop}

theorem Steps.pure (hrefl : ∀ s, R s s) (a : α) : Steps R (pure a : Proc E S α) :=
  fun s => hrefl s

theorem Steps.fail (hrefl : ∀ s, R s s) (e : E) : Steps R (Proc.fail e : Proc E S α) :=
  fun s => hrefl s

theorem Steps.get (hrefl : ∀ s, R s s) : Steps R (Proc.get : Proc E S S) :=
  fun s => hrefl s

theorem Steps.ofExcept (hrefl : ∀ s, R s s) (x : Except E α) :
    Steps R (Proc.ofExcept x : Proc E S α) :=
  fun s => hrefl s

theorem Steps.modify {f : S → S} (h : ∀ s, R s (f s)) :
    Steps R (Proc.modify f : Proc E S Unit) := h

theorem Steps.attempt {x : Proc E S α} (h : Steps R x) :
    Steps R (Proc.attempt x : Proc E' S (Except E α)) := h

theorem Steps.mapError {f : E → E'} {x : Proc E S α} (h : Steps R x) :
    Steps R (Proc.mapError f x) := h

/-- Two programs in a row step as the relation does twice. -/
theorem Steps.bind (htrans : ∀ {s t u}, R s t → R t u → R s u) {x : Proc E S α}
    {f : α → Proc E S β} (hx : Steps R x) (hf : ∀ a, Steps R (f a)) :
    Steps R (x >>= f) := by
  intro s
  have hfirst := hx s
  rw [bind_run]
  rcases hx' : x s with ⟨e | a, t⟩
  · rw [hx'] at hfirst
    exact hfirst
  · rw [hx'] at hfirst
    exact htrans hfirst (hf a t)

end Steps

/-! ## What a program gives -/

/-- Whenever a program gives a value, the value has a property. -/
def Yields (Q : α → Prop) (x : Proc E S α) : Prop := ∀ s a s', x s = (.ok a, s') → Q a

/-- A program always gives a value, and the value has a property. -/
def Returns (Q : α → Prop) (x : Proc E S α) : Prop := ∀ s, ∃ a s', x s = (.ok a, s') ∧ Q a

section Yields

variable {Q : α → Prop} {P : β → Prop}

theorem Yields.pure {a : α} (h : Q a) : Yields Q (pure a : Proc E S α) := by
  intro s b s' hrun
  cases hrun
  exact h

theorem Yields.fail (e : E) : Yields Q (Proc.fail e : Proc E S α) := by
  intro s b s' hrun
  cases hrun

/-- A property of the value of the first program is what the second starts from. -/
theorem Yields.bind {x : Proc E S α} {f : α → Proc E S β} (hx : Yields Q x)
    (hf : ∀ a, Q a → Yields P (f a)) : Yields P (x >>= f) := by
  intro s b s' hrun
  obtain ⟨a, t, ha, hb⟩ := bind_eq_ok hrun
  exact hf a (hx s a t ha) t b s' hb

/-- Nothing need be known of the first step. -/
theorem Yields.after {x : Proc E S α} {f : α → Proc E S β} (hf : ∀ a, Yields P (f a)) :
    Yields P (x >>= f) := by
  intro s b s' hrun
  obtain ⟨a, t, -, hb⟩ := bind_eq_ok hrun
  exact hf a t b s' hb

theorem Returns.pure {a : α} (h : Q a) : Returns Q (pure a : Proc E S α) :=
  fun s => ⟨a, s, rfl, h⟩

theorem Returns.get : Returns (fun _ => True) (Proc.get : Proc E S S) :=
  fun s => ⟨s, s, rfl, trivial⟩

/-- A program that returns goes on into one that returns. -/
theorem Returns.bind {x : Proc E S α} {f : α → Proc E S β} (hx : Returns Q x)
    (hf : ∀ a, Q a → Returns P (f a)) : Returns P (x >>= f) := by
  intro s
  obtain ⟨a, t, ha, hq⟩ := hx s
  obtain ⟨b, s', hb, hp⟩ := hf a hq t
  exact ⟨b, s', (bind_ok ha).trans hb, hp⟩

end Yields

/-! ## Two runs of one program -/

/-- From related states a program gives the same answer, and the states after it are
related. -/
def Agree (R : S → S → Prop) (x : Proc E S α) : Prop :=
  ∀ s t, R s t → (x s).1 = (x t).1 ∧ R (x s).2 (x t).2

section Agree

variable {R : S → S → Prop}

theorem Agree.pure (a : α) : Agree R (pure a : Proc E S α) := fun _ _ h => ⟨rfl, h⟩

theorem Agree.fail (e : E) : Agree R (Proc.fail e : Proc E S α) := fun _ _ h => ⟨rfl, h⟩

theorem Agree.ofExcept (x : Except E α) : Agree R (Proc.ofExcept x : Proc E S α) :=
  fun _ _ h => ⟨rfl, h⟩

theorem Agree.modify {f : S → S} (hf : ∀ s t, R s t → R (f s) (f t)) :
    Agree R (Proc.modify f : Proc E S Unit) := fun s t h => ⟨rfl, hf s t h⟩

theorem Agree.attempt {x : Proc E S α} (h : Agree R x) :
    Agree R (Proc.attempt x : Proc E' S (Except E α)) := fun s t hst =>
  ⟨congrArg Except.ok (h s t hst).1, (h s t hst).2⟩

theorem Agree.mapError {f : E → E'} {x : Proc E S α} (h : Agree R x) :
    Agree R (Proc.mapError f x) := fun s t hst =>
  ⟨congrArg (Except.mapError f) (h s t hst).1, (h s t hst).2⟩

/-- Programs that agree compose: the values are the same, and so are the programs that follow. -/
theorem Agree.bind {x : Proc E S α} {f : α → Proc E S β} (hx : Agree R x)
    (hf : ∀ a, Agree R (f a)) : Agree R (x >>= f) := by
  intro s t hst
  obtain ⟨hanswer, hstate⟩ := hx s t hst
  rw [bind_run, bind_run]
  rcases hs : x s with ⟨e | a, s'⟩
  · rw [hs] at hanswer hstate
    rcases ht : x t with ⟨e' | b, t'⟩
    · rw [ht] at hanswer hstate
      cases hanswer
      exact ⟨rfl, hstate⟩
    · rw [ht] at hanswer
      cases hanswer
  · rw [hs] at hanswer hstate
    rcases ht : x t with ⟨e' | b, t'⟩
    · rw [ht] at hanswer
      cases hanswer
    · rw [ht] at hanswer hstate
      cases hanswer
      exact hf a s' t' hstate

/-- A program that reads only what the relation keeps. -/
theorem Agree.get_bind {k : S → Proc E S α} (hsame : ∀ s t, R s t → k s = k t)
    (hk : ∀ s, Agree R (k s)) : Agree R (Proc.get >>= k) := by
  intro s t hst
  show (k s s).1 = (k t t).1 ∧ R (k s s).2 (k t t).2
  rw [← hsame s t hst]
  exact hk s s t hst

end Agree

/-! ## Statements about programs -/

/-- From a state with `P`, a value comes with `Q` and a fault comes with `R`. -/
def Triple (P : S → Prop) (x : Proc E S α) (Q : α → S → Prop) (R : E → S → Prop) : Prop :=
  ∀ s, P s → match x s with
    | (.ok a, s') => Q a s'
    | (.error e, s') => R e s'

variable {P P' : S → Prop} {Q Q' : α → S → Prop} {R R' : E → S → Prop}

/-- What a triple says of a run that works. -/
theorem Triple.ok {x : Proc E S α} (h : Triple P x Q R) {s s' : S} {a : α} (hs : P s)
    (hx : x s = (.ok a, s')) : Q a s' := by
  have hres := h s hs
  rw [hx] at hres
  exact hres

/-- What a triple says of a run that fails. -/
theorem Triple.error {x : Proc E S α} (h : Triple P x Q R) {s s' : S} {e : E} (hs : P s)
    (hx : x s = (.error e, s')) : R e s' := by
  have hres := h s hs
  rw [hx] at hres
  exact hres

/-- The rule of consequence. -/
theorem Triple.weaken {x : Proc E S α} (h : Triple P x Q R) (hP : ∀ s, P' s → P s)
    (hQ : ∀ a s, Q a s → Q' a s) (hR : ∀ e s, R e s → R' e s) : Triple P' x Q' R' := by
  intro s hs
  have hres := h s (hP s hs)
  rcases hx : x s with ⟨e | a, s'⟩
  · rw [hx] at hres
    exact hR e s' hres
  · rw [hx] at hres
    exact hQ a s' hres

theorem Triple.pure {a : α} (h : ∀ s, P s → Q a s) : Triple P (pure a : Proc E S α) Q R :=
  fun s hs => h s hs

theorem Triple.fail {e : E} (h : ∀ s, P s → R e s) :
    Triple P (Proc.fail e : Proc E S α) Q R :=
  fun s hs => h s hs

/-- A program that gives a part of the state as it is. -/
theorem Triple.get_bind {k : S → Proc E S α} (h : ∀ t, Triple (fun s => P s ∧ s = t) (k t) Q R) :
    Triple P (Proc.get >>= k) Q R := by
  intro s hs
  exact h s s ⟨hs, rfl⟩

theorem Triple.ofExcept {x : Except E α} (hok : ∀ a s, x = .ok a → P s → Q a s)
    (herror : ∀ e s, x = .error e → P s → R e s) : Triple P (Proc.ofExcept x) Q R := by
  intro s hs
  cases x with
  | ok a => exact hok a s rfl hs
  | error e => exact herror e s rfl hs

theorem Triple.mapError {x : Proc E S α} {f : E → E'} {R' : E' → S → Prop}
    (h : Triple P x Q R) (hR : ∀ e s, R e s → R' (f e) s) :
    Triple P (Proc.mapError f x) Q R' := by
  intro s hs
  have hres := h s hs
  rw [Proc.mapError]
  rcases hx : x s with ⟨e | a, s'⟩
  · rw [hx] at hres
    exact hR e s' hres
  · rw [hx] at hres
    exact hres

/-- The rule of sequence. -/
theorem Triple.bind {x : Proc E S α} {f : α → Proc E S β} {Q₂ : β → S → Prop}
    (hx : Triple P x Q R) (hf : ∀ a, Triple (Q a) (f a) Q₂ R) : Triple P (x >>= f) Q₂ R := by
  intro s hs
  have hres := hx s hs
  rw [bind_run]
  rcases hx : x s with ⟨e | a, s'⟩
  · rw [hx] at hres
    exact hres
  · rw [hx] at hres
    exact hf a s' hres

end Proc
