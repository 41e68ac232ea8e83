import Mathlib.Data.List.Basic
import Mathlib.Data.Finset.Card
import Mathlib.Order.Interval.Finset.Nat

/-!
# Loops that move a position

A loop goes on while a test of its position holds.  Each round gives the next position and
the next value of what the loop builds, or a fault that ends it.  `loop` runs for at most
`budget` rounds, and gives `exhausted` when the test still holds then; `positions` lists where
the rounds began.  Where every round moves the position on and the test holds only below a
bound, the budget does not matter from that bound on.
-/

namespace Rounds

variable {E σ : Type} (more : Nat → Bool) (round : Nat → σ → Except E (Nat × σ)) (exhausted : E)

/-- What the loop gives, with at most `budget` rounds. -/
def loop : Nat → Nat → σ → Except E σ
  | 0, pos, s => if more pos then .error exhausted else .ok s
  | budget + 1, pos, s =>
      if more pos then
        match round pos s with
        | .ok (next, s) => loop budget next s
        | .error e => .error e
      else .ok s

/-- Where the first `budget` rounds begin. -/
def positions : Nat → Nat → σ → List Nat
  | 0, _, _ => []
  | budget + 1, pos, s =>
      if more pos then
        pos :: match round pos s with
          | .ok (next, s) => positions budget next s
          | .error _ => []
      else []

/-- Every round moves the position on. -/
def Grows : Prop := ∀ pos s next s', more pos → round pos s = .ok (next, s') → pos < next

variable {more round exhausted} {pos bound budget : Nat} {s : σ}

theorem loop_stop (h : ¬more pos) : loop more round exhausted budget pos s = .ok s := by
  cases budget with
  | zero => exact if_neg h
  | succ budget => exact if_neg h

theorem loop_round {next : Nat} {s' : σ} (h : more pos)
    (hround : round pos s = .ok (next, s')) :
    loop more round exhausted (budget + 1) pos s = loop more round exhausted budget next s' := by
  rw [loop, if_pos h, hround]

theorem loop_fault {e : E} (h : more pos) (hround : round pos s = .error e) :
    loop more round exhausted (budget + 1) pos s = .error e := by
  rw [loop, if_pos h, hround]

/-- A fault of the loop is a fault of one of its rounds, when the budget reaches the bound. -/
theorem fault_of_loop {Q : E → Prop} (hgrows : Grows more round)
    (hbound : ∀ pos, more pos → pos < bound)
    (hround : ∀ pos s e, more pos → round pos s = .error e → Q e) :
    ∀ budget pos s e, bound ≤ pos + budget → loop more round exhausted budget pos s = .error e →
      Q e := by
  intro budget
  induction budget with
  | zero =>
      intro pos s e hbudget hloop
      have hstop : ¬more pos := by
        intro h
        have hlt := hbound pos h
        omega
      rw [loop_stop hstop] at hloop
      cases hloop
  | succ budget ih =>
      intro pos s e hbudget hloop
      by_cases h : more pos
      · rcases hrun : round pos s with fault | ⟨next, s'⟩
        · rw [loop_fault h hrun] at hloop
          cases hloop
          exact hround pos s e h hrun
        · have hnext := hgrows pos s next s' h hrun
          rw [loop_round h hrun] at hloop
          exact ih next s' e (by omega) hloop
      · rw [loop_stop h] at hloop
        cases hloop

/-- From the bound on a larger budget changes nothing. -/
theorem loop_of_le (hgrows : Grows more round) (hbound : ∀ pos, more pos → pos < bound) :
    ∀ budget pos s, bound ≤ pos + budget → ∀ larger, budget ≤ larger →
      loop more round exhausted larger pos s = loop more round exhausted budget pos s := by
  intro budget
  induction budget with
  | zero =>
      intro pos s hbudget larger _
      have hstop : ¬more pos := by
        intro h
        have hlt := hbound pos h
        omega
      rw [loop_stop hstop, loop_stop hstop]
  | succ budget ih =>
      intro pos s hbudget larger hle
      obtain ⟨larger, rfl⟩ := Nat.exists_eq_add_of_le' (Nat.le_trans (Nat.le_add_left 1 budget) hle)
      by_cases h : more pos
      · rcases hrun : round pos s with fault | ⟨next, s'⟩
        · rw [loop_fault h hrun, loop_fault h hrun]
        · have hnext := hgrows pos s next s' h hrun
          rw [loop_round h hrun, loop_round h hrun]
          exact ih next s' (by omega) larger (by omega)
      · rw [loop_stop h, loop_stop h]

/-- The rounds begin at growing positions, below the bound. -/
theorem positions_grow (hgrows : Grows more round) (hbound : ∀ pos, more pos → pos < bound) :
    ∀ budget pos s,
      (∀ p ∈ positions more round budget pos s, pos ≤ p ∧ p < bound) ∧
      (positions more round budget pos s).Pairwise (· < ·) := by
  intro budget
  induction budget with
  | zero =>
      intro pos s
      exact ⟨fun p hp => absurd hp List.not_mem_nil, .nil⟩
  | succ budget ih =>
      intro pos s
      rw [positions]
      split
      · rename_i h
        rcases hrun : round pos s with fault | ⟨next, s'⟩
        · refine ⟨fun p hp => ?_, List.pairwise_singleton _ _⟩
          obtain rfl := List.mem_singleton.mp hp
          exact ⟨Nat.le_refl p, hbound p h⟩
        · have hnext := hgrows pos s next s' h hrun
          obtain ⟨hall, hsorted⟩ := ih next s'
          constructor
          · intro p hp
            rcases List.mem_cons.mp hp with rfl | hp
            · exact ⟨Nat.le_refl p, hbound p h⟩
            · exact ⟨by have := (hall p hp).1; omega, (hall p hp).2⟩
          · apply List.pairwise_cons.mpr
            exact ⟨fun p hp => Nat.lt_of_lt_of_le hnext (hall p hp).1, hsorted⟩
      · exact ⟨fun p hp => absurd hp List.not_mem_nil, .nil⟩

/-- Growing positions below the bound are at most as many as the bound. -/
theorem length_le_of_growing {ps : List Nat} (hsorted : ps.Pairwise (· < ·))
    (hall : ∀ p ∈ ps, p < bound) : ps.length ≤ bound := by
  have hnodup : ps.Nodup := hsorted.imp fun hlt => Nat.ne_of_lt hlt
  have hsub : ps.toFinset ⊆ Finset.range bound := by
    intro p hp
    exact Finset.mem_range.mpr (hall p (List.mem_toFinset.mp hp))
  have hcard := Finset.card_le_card hsub
  rw [List.toFinset_card_of_nodup hnodup, Finset.card_range] at hcard
  exact hcard

end Rounds
