import Mathlib.Data.List.Basic

/-!
# Guarded runs

A deterministic machine is a function `step : S → E → S`, and a run is the fold
of a list of events.  `Meets step ok` says that every event of a run meets a
condition in the state it starts from.  The rules below carry an invariant along
such a run: `Meets.invariant` gives the invariant of the last state,
`Meets.at_event` gives any consequence of the invariant at every event, and
`meets_iff_always` says when a condition is exact.
-/

namespace Run

variable {S E : Type*} (step : S → E → S) (ok : S → E → Prop)

/-- The state a list of events leads to. -/
def after (s : S) (events : List E) : S :=
  events.foldl step s

/-- Every event meets the condition in the state it starts from. -/
def Meets : S → List E → Prop
  | _, [] => True
  | s, e :: rest => ok s e ∧ Meets (step s e) rest

@[simp] theorem after_nil (s : S) : after step s [] = s := rfl

@[simp] theorem after_cons (s : S) (e : E) (rest : List E) :
    after step s (e :: rest) = after step (step s e) rest := rfl

theorem after_append (s : S) (xs ys : List E) :
    after step s (xs ++ ys) = after step (after step s xs) ys :=
  List.foldl_append

variable {step ok}

/-- A guarded run splits at any event. -/
theorem Meets.append {s : S} {xs ys : List E} :
    Meets step ok s (xs ++ ys) ↔
      Meets step ok s xs ∧ Meets step ok (after step s xs) ys := by
  induction xs generalizing s with
  | nil => simp [Meets]
  | cons e xs ih => simp [Meets, ih, and_assoc]

/-- A condition on the events alone. -/
theorem Meets.of_forall {good : E → Prop} {s : S} {events : List E}
    (h : ∀ e ∈ events, good e) : Meets step (fun _ e => good e) s events := by
  induction events generalizing s with
  | nil => trivial
  | cons e rest ih =>
      exact ⟨h e List.mem_cons_self, ih fun e' he' => h e' (List.mem_cons_of_mem _ he')⟩

/-- Two conditions on one run are one condition on it. -/
theorem Meets.and {ok' : S → E → Prop} {s : S} {events : List E} (h : Meets step ok s events)
    (h' : Meets step ok' s events) : Meets step (fun s e => ok s e ∧ ok' s e) s events := by
  induction events generalizing s with
  | nil => trivial
  | cons e rest ih => exact ⟨⟨h.1, h'.1⟩, ih h.2 h'.2⟩

/-- **The invariant rule.**  What one guarded step preserves holds after every
guarded run. -/
theorem Meets.invariant {inv : S → Prop}
    (hstep : ∀ s e, inv s → ok s e → inv (step s e))
    {s : S} {events : List E} (hs : inv s) (hrun : Meets step ok s events) :
    inv (after step s events) := by
  induction events generalizing s with
  | nil => exact hs
  | cons e rest ih => exact ih (hstep s e hs hrun.1) hrun.2

/-- A consequence of the invariant and the guard holds at every event of a
guarded run. -/
theorem Meets.at_event {inv : S → Prop} {good : S → E → Prop}
    (hstep : ∀ s e, inv s → ok s e → inv (step s e))
    (hgood : ∀ s e, inv s → ok s e → good s e)
    {s : S} {before rest : List E} {e : E} (hs : inv s)
    (hrun : Meets step ok s (before ++ e :: rest)) :
    good (after step s before) e := by
  obtain ⟨hbefore, hlast⟩ := Meets.append.mp hrun
  exact hgood _ _ (hbefore.invariant hstep hs) hlast.1

/-- **The exact guard.**  Where the guard says of one step whether it keeps the good
states, a run is guarded exactly when every state on its way is good. -/
theorem meets_iff_always {inv good : S → Prop} (hstep : ∀ s e, inv s → inv (step s e))
    (hexact : ∀ s e, inv s → good s → (good (step s e) ↔ ok s e))
    {s : S} (events : List E) (hs : inv s) (hgood : good s) :
    (∀ n, good (after step s (events.take n))) ↔ Meets step ok s events := by
  induction events generalizing s with
  | nil =>
      refine ⟨fun _ => trivial, fun _ n => ?_⟩
      rw [List.take_nil]
      exact hgood
  | cons e rest ih =>
      constructor
      · intro hall
        have hfirst : good (step s e) := hall 1
        refine ⟨(hexact s e hs hgood).mp hfirst, ?_⟩
        exact (ih (hstep s e hs) hfirst).mp fun n => hall (n + 1)
      · intro hmeets n
        have hfirst : good (step s e) := (hexact s e hs hgood).mpr hmeets.1
        cases n with
        | zero => exact hgood
        | succ n => exact (ih (hstep s e hs) hfirst).mpr hmeets.2 n

end Run
