import Bsdroid.Lib.Proc

/-!
# Programs that read a list from the front

A program over a list parses a front when it takes that front off, whatever stands
behind it, and gives a value.  A program that always works in this way (`FromFront`) is
known by the fronts it parses (`FromFront.ok_iff`), and so is each program that is put
together from such programs.

A program that works on a list works in the same way when more stands behind the list
(`Extends`), unless it asks how long the list is and gives up on a short one.
-/

namespace Proc

variable {E τ α β : Type}

/-- The program takes `front` off the list and gives `a`, whatever comes behind. -/
def Parses (x : Proc E (List τ) α) (front : List τ) (a : α) : Prop :=
  ∀ rest, x (front ++ rest) = (.ok a, rest)

/-- Whenever the program gives a value it parsed a front, and left what comes behind. -/
def FromFront (x : Proc E (List τ) α) : Prop :=
  ∀ xs a rest, x xs = (.ok a, rest) → ∃ front, xs = front ++ rest ∧ Parses x front a

variable {x : Proc E (List τ) α} {f : α → Proc E (List τ) β} {front front' xs rest : List τ}
  {a : α} {b : β}

theorem Parses.pure (a : α) : Parses (pure a : Proc E (List τ) α) [] a := fun _ => rfl

/-- Two parsers in a row take what the first takes and then what the second takes. -/
theorem Parses.bind (hx : Parses x front a) (hf : Parses (f a) front' b) :
    Parses (x >>= f) (front ++ front') b := by
  intro rest
  rw [List.append_assoc, bind_ok (hx _)]
  exact hf rest

/-- What a program that reads from the front accepts. -/
theorem FromFront.ok_iff (h : FromFront x) :
    x xs = (.ok a, rest) ↔ ∃ front, xs = front ++ rest ∧ Parses x front a := by
  constructor
  · exact h xs a rest
  · rintro ⟨front, rfl, hparses⟩
    exact hparses rest

theorem FromFront.pure (a : α) : FromFront (pure a : Proc E (List τ) α) := by
  rintro xs b rest hrun
  cases hrun
  exact ⟨[], rfl, .pure a⟩

/-- A parser that fails takes nothing. -/
theorem FromFront.fail (e : E) : FromFront (Proc.fail e : Proc E (List τ) α) := by
  rintro xs b rest hrun
  cases hrun

/-- Parsers that take from the front compose: what is left of the first is all that the second
sees. -/
theorem FromFront.bind (hx : FromFront x) (hf : ∀ a, FromFront (f a)) :
    FromFront (x >>= f) := by
  intro xs b rest hrun
  obtain ⟨a, ys, hfirst, hsecond⟩ := bind_eq_ok hrun
  obtain ⟨front, rfl, hparses⟩ := hx _ _ _ hfirst
  obtain ⟨front', rfl, hparses'⟩ := hf a _ _ _ hsecond
  exact ⟨front ++ front', (List.append_assoc _ _ _).symm, hparses.bind hparses'⟩

/-- The front of two programs in a row is the front of the one and then of the other. -/
theorem FromFront.parses_bind (hx : FromFront x) (hf : ∀ a, FromFront (f a)) :
    Parses (x >>= f) front b ↔
      ∃ a front₁ front₂, front = front₁ ++ front₂ ∧ Parses x front₁ a ∧ Parses (f a) front₂ b := by
  constructor
  · intro hparses
    have hrun := hparses []
    rw [List.append_nil] at hrun
    obtain ⟨a, ys, hfirst, hsecond⟩ := bind_eq_ok hrun
    obtain ⟨front₁, rfl, hparses₁⟩ := hx _ _ _ hfirst
    obtain ⟨front₂, rfl, hparses₂⟩ := hf a _ _ _ hsecond
    rw [List.append_nil]
    exact ⟨a, front₁, front₂, rfl, hparses₁, hparses₂⟩
  · rintro ⟨a, front₁, front₂, rfl, hparses₁, hparses₂⟩
    exact hparses₁.bind hparses₂

theorem FromFront.map (hx : FromFront x) (g : α → β) :
    FromFront (x >>= fun a => (Pure.pure (g a) : Proc E (List τ) β)) := hx.bind fun _ => .pure _

/-- A value that is given without reading takes nothing. -/
theorem parses_pure {c : α} : Parses (pure c : Proc E (List τ) α) front a ↔ front = [] ∧ a = c := by
  constructor
  · intro hparses
    have hrun := hparses []
    rw [List.append_nil] at hrun
    cases hrun
    exact ⟨rfl, rfl⟩
  · rintro ⟨rfl, rfl⟩
    exact .pure a

/-- A value that is only changed is read from the same front. -/
theorem FromFront.parses_map (hx : FromFront x) {g : α → β} :
    Parses (x >>= fun a => (Pure.pure (g a) : Proc E (List τ) β)) front b ↔
      ∃ a, Parses x front a ∧ b = g a := by
  rw [hx.parses_bind fun _ => .pure _]
  constructor
  · rintro ⟨a, front₁, front₂, rfl, hfirst, hsecond⟩
    obtain ⟨rfl, rfl⟩ := parses_pure.mp hsecond
    rw [List.append_nil]
    exact ⟨a, hfirst, rfl⟩
  · rintro ⟨a, hparses, rfl⟩
    exact ⟨a, front, [], (List.append_nil front).symm, hparses, .pure _⟩

/-! ## More behind the list -/

/-- A program that gives a value gives it when more stands behind the list, and leaves
that more behind what it leaves. -/
def Extends (x : Proc E (List τ) α) : Prop :=
  ∀ xs a rest, x xs = (.ok a, rest) → ∀ more, x (xs ++ more) = (.ok a, rest ++ more)

/-- A parser that takes from the front does the same whatever follows what it takes. -/
theorem FromFront.extends (h : FromFront x) : Extends x := by
  intro xs a rest hrun more
  obtain ⟨front, rfl, hparses⟩ := h _ _ _ hrun
  rw [List.append_assoc]
  exact hparses _

theorem Extends.pure (a : α) : Extends (pure a : Proc E (List τ) α) := (FromFront.pure a).extends

/-- Parsers that do not mind what follows compose. -/
theorem Extends.bind (hx : Extends x) (hf : ∀ a, Extends (f a)) : Extends (x >>= f) := by
  intro xs b rest hrun more
  obtain ⟨a, ys, hfirst, hsecond⟩ := bind_eq_ok hrun
  rw [bind_ok (hx _ _ _ hfirst more)]
  exact hf a _ _ _ hsecond more

end Proc
