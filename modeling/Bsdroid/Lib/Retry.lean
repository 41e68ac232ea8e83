import Bsdroid.Lib.Proc
import Mathlib.Logic.Function.Iterate

/-!
# Programs that try again

`Proc.retry again pause x n` runs `x`, and runs it again at most `n` times, as long as it
fails with a fault that another try can change.  Between two tries the program pauses, and the
state can change in the pause.

A property that a failed try and a pause keep holds to the end (`Triple.retry`).  What the
tries give together is what one of them gives: the first that succeeds or meets a fault of
another kind, or else the last one (`Proc.retry_is_try`).
-/

namespace Proc

variable {E S α : Type} {again : E → Bool} {pause : S → S} {x : Proc E S α}

/-- Runs a program, and at most so many times again. -/
def retry (again : E → Bool) (pause : S → S) (x : Proc E S α) : Nat → Proc E S α
  | 0 => x
  | n + 1 => fun s =>
      match x s with
      | (.ok a, s) => (.ok a, s)
      | (.error e, s) => if again e then retry again pause x n (pause s) else (.error e, s)

theorem retry_run (again : E → Bool) (pause : S → S) (x : Proc E S α) (n : Nat) (s : S) :
    retry again pause x (n + 1) s = match x s with
      | (.ok a, s) => (.ok a, s)
      | (.error e, s) =>
          if again e then retry again pause x n (pause s) else (.error e, s) := rfl

theorem retry_ok {n : Nat} {s t : S} {a : α} (h : x s = (.ok a, t)) :
    retry again pause x n s = (.ok a, t) := by
  cases n with
  | zero => exact h
  | succ n => rw [retry_run, h]

theorem retry_stops {n : Nat} {s t : S} {e : E} (h : x s = (.error e, t))
    (hstops : again e = false) : retry again pause x n s = (.error e, t) := by
  cases n with
  | zero => exact h
  | succ n =>
      rw [retry_run, h]
      dsimp only
      rw [hstops]
      exact if_neg Bool.false_ne_true

theorem retry_again {n : Nat} {s t : S} {e : E} (h : x s = (.error e, t))
    (hagain : again e = true) :
    retry again pause x (n + 1) s = retry again pause x n (pause t) := by
  rw [retry_run, h]
  dsimp only
  rw [hagain]
  exact if_pos rfl

/-- **The rule for tries**: a failed try and a pause lead back to a state in which a try can
start. -/
theorem Triple.retry {P : S → Prop} {Q : α → S → Prop} {R : E → S → Prop}
    (hx : Triple P x Q R) (hpause : ∀ e s, again e = true → R e s → P (pause s)) (n : Nat) :
    Triple P (retry again pause x n) Q R := by
  induction n with
  | zero => exact hx
  | succ n ih =>
      intro s hs
      have hfirst := hx s hs
      rcases hrun : x s with ⟨e | a, t⟩
      · rw [hrun] at hfirst
        cases hagain : again e with
        | true =>
            rw [retry_again hrun hagain]
            exact ih (pause t) (hpause e t hagain hfirst)
        | false =>
            rw [retry_stops hrun hagain]
            exact hfirst
      · rw [hrun] at hfirst
        rw [retry_ok hrun]
        exact hfirst

/-- The state after so many tries, each with a pause behind it. -/
def paused (pause : S → S) (x : Proc E S α) : Nat → S → S
  | 0, s => s
  | k + 1, s => paused pause x k (pause (x s).2)

/-- A try failed with a fault that another try can change. -/
def Worth (again : E → Bool) (r : Except E α) : Prop := ∃ e, r = .error e ∧ again e = true

/-- **The answer is that of one try**: every try before it was worth another one, and it is
the last one or it was not. -/
theorem retry_is_try (again : E → Bool) (pause : S → S) (x : Proc E S α) (n : Nat) (s : S) :
    ∃ k ≤ n, retry again pause x n s = x (paused pause x k s) ∧
      (∀ j < k, Worth again (x (paused pause x j s)).1) ∧
      (k = n ∨ ¬ Worth again (x (paused pause x k s)).1) := by
  induction n generalizing s with
  | zero =>
      refine ⟨0, Nat.le_refl 0, rfl, ?_, .inl rfl⟩
      intro j hj
      exact absurd hj (Nat.not_lt_zero j)
  | succ n ih =>
      by_cases hworth : Worth again (x s).1
      · obtain ⟨e, he, hagain⟩ := hworth
        obtain ⟨k, hk, hrun, hbefore, hlast⟩ := ih (pause (x s).2)
        refine ⟨k + 1, Nat.succ_le_succ hk, ?_, ?_, ?_⟩
        · rw [retry_again (Prod.ext he rfl) hagain]
          exact hrun
        · intro j hj
          cases j with
          | zero => exact ⟨e, he, hagain⟩
          | succ j => exact hbefore j (Nat.lt_of_succ_lt_succ hj)
        · rcases hlast with rfl | hlast
          · exact .inl rfl
          · exact .inr hlast
      · refine ⟨0, Nat.zero_le _, ?_, ?_, .inr hworth⟩
        · show retry again pause x (n + 1) s = x s
          rcases hrun : x s with ⟨e | a, t⟩
          · have hstops : again e = false := by
              cases hagain : again e with
              | false => rfl
              | true => exact absurd ⟨e, congrArg Prod.fst hrun, hagain⟩ hworth
            exact retry_stops hrun hstops
          · exact retry_ok hrun
        · intro j hj
          exact absurd hj (Nat.not_lt_zero j)

/-- What every try gives, all of them together give. -/
theorem Yields.retry {Q : α → Prop} (hx : Yields Q x) (n : Nat) :
    Yields Q (retry again pause x n) := by
  intro s a s' hrun
  obtain ⟨k, -, htry, -⟩ := retry_is_try again pause x n s
  rw [htry] at hrun
  exact hx _ a s' hrun

/-- A fault that another try can change was met by every try. -/
theorem retry_gives_up {n : Nat} {s t : S} {e : E} (h : retry again pause x n s = (.error e, t))
    (hagain : again e = true) : ∀ j ≤ n, Worth again (x (paused pause x j s)).1 := by
  obtain ⟨k, hk, htry, hbefore, hlast⟩ := retry_is_try again pause x n s
  rw [htry] at h
  have hworth : Worth again (x (paused pause x k s)).1 := ⟨e, congrArg Prod.fst h, hagain⟩
  obtain rfl : k = n := hlast.resolve_right (not_not_intro hworth)
  intro j hj
  rcases Nat.lt_or_eq_of_le hj with hlt | rfl
  · exact hbefore j hlt
  · exact hworth

/-- A program that only looks leaves the changes to the pauses. -/
theorem paused_of_looks (hlooks : ∀ s, (x s).2 = s) (k : Nat) (s : S) :
    paused pause x k s = pause^[k] s := by
  induction k generalizing s with
  | zero => rfl
  | succ k ih => rw [paused, ih, hlooks, Function.iterate_succ_apply]

end Proc
