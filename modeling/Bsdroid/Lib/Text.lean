import Mathlib.Data.List.Basic

/-!
# Numbers and fields in a text

`Text.number` reads a number in a radix, with a bound, as a program reads an argument: a plus
sign may stand before it, and at least one digit must.  It reads back what `Nat.toDigits`
writes, also behind zeros (`Text.number_padded`).  `Text.splitOnce` cuts a text at the first
separator, so it undoes the join of two fields whose first one has no separator.
-/

namespace Text

/-! ## Numbers -/

/-- The value of a digit. -/
def digit (radix : Nat) (c : Char) : Option Nat :=
  let v :=
    if '0' ≤ c ∧ c ≤ '9' then some (c.toNat - 48)
    else if 'a' ≤ c ∧ c ≤ 'z' then some (c.toNat - 87)
    else if 'A' ≤ c ∧ c ≤ 'Z' then some (c.toNat - 55)
    else none
  v.filter fun d => decide (d < radix)

/-- The value of digits behind digits that are worth `acc`. -/
def value (radix : Nat) : Nat → List Char → Option Nat
  | acc, [] => some acc
  | acc, c :: rest =>
      match digit radix c with
      | some d => value radix (acc * radix + d) rest
      | none => none

/-- A text without the plus sign before it. -/
def unsigned : List Char → List Char
  | '+' :: rest => rest
  | s => s

/-- Reads a number below a bound. -/
def number (radix bound : Nat) (s : List Char) : Option Nat :=
  if unsigned s = [] then none
  else (value radix 0 (unsigned s)).filter fun n => decide (n < bound)

section Numbers

variable {radix : Nat}

theorem value_append (acc : Nat) (s t : List Char) :
    value radix acc (s ++ t) = (value radix acc s).bind fun n => value radix n t := by
  induction s generalizing acc with
  | nil => rfl
  | cons c rest ih =>
      rw [List.cons_append, value, value]
      cases digit radix c with
      | none => rfl
      | some d => exact ih _

/-- Every character of a number is a digit. -/
theorem digit_of_value {acc n : Nat} {s : List Char} (h : value radix acc s = some n) :
    ∀ c ∈ s, digit radix c ≠ none := by
  induction s generalizing acc with
  | nil =>
      intro c hc
      cases hc
  | cons c rest ih =>
      rw [value] at h
      cases hdigit : digit radix c with
      | none =>
          rw [hdigit] at h
          cases h
      | some d =>
          rw [hdigit] at h
          intro a ha
          rcases List.mem_cons.mp ha with rfl | hrest
          · rw [hdigit]
            exact Option.some_ne_none d
          · exact ih h a hrest

theorem digit_digitChar {d : Nat} (hradix : radix ≤ 16) (hd : d < radix) :
    digit radix d.digitChar = some d := by
  have hall : ∀ r : Fin 17, ∀ d : Fin 16, d.val < r.val →
      digit r.val d.val.digitChar = some d.val := by decide
  exact hall ⟨radix, by omega⟩ ⟨d, by omega⟩ hd

/-- **The digits of a number are worth the number.** -/
theorem value_toDigits (hone : 1 < radix) (hradix : radix ≤ 16) (n : Nat) :
    value radix 0 (Nat.toDigits radix n) = some n := by
  induction n using Nat.strongRecOn with
  | _ n ih =>
      rw [Nat.toDigits_eq_if hone]
      by_cases hsmall : n < radix
      · rw [if_pos hsmall, value, digit_digitChar hradix hsmall]
        dsimp only
        rw [Nat.zero_mul, Nat.zero_add]
        rfl
      · have hlt : n / radix < n := Nat.div_lt_self (by omega) hone
        rw [if_neg hsmall, value_append, ih _ hlt, Option.bind_some, value,
          digit_digitChar hradix (Nat.mod_lt n (by omega))]
        dsimp only
        rw [value, Nat.mul_comm, Nat.div_add_mod]

/-- Zeros before a number change nothing. -/
theorem value_zeros (hzero : 0 < radix) (zeros : Nat) (s : List Char) :
    value radix 0 (List.replicate zeros '0' ++ s) = value radix 0 s := by
  induction zeros with
  | zero => rfl
  | succ zeros ih =>
      have hdigit : digit radix '0' = some 0 := by
        show Option.filter (fun d => decide (d < radix)) (some 0) = some 0
        rw [Option.filter_some, if_pos (decide_eq_true hzero)]
      rw [List.replicate_succ, List.cons_append, value, hdigit]
      dsimp only
      rw [Nat.zero_mul, Nat.zero_add, ih]

/-- A text that starts with a digit has no sign before it. -/
theorem unsigned_of_value {n : Nat} {s : List Char} (h : value radix 0 s = some n) :
    unsigned s = s := by
  unfold unsigned
  split
  · rename_i rest
    have hplus := digit_of_value h '+' List.mem_cons_self
    have hnone : digit radix '+' = none := rfl
    contradiction
  · rfl

/-- **A number reads back**, also behind zeros. -/
theorem number_padded {bound n : Nat} (hone : 1 < radix) (hradix : radix ≤ 16) (hn : n < bound)
    (zeros : Nat) : number radix bound (List.replicate zeros '0' ++ Nat.toDigits radix n) =
      some n := by
  have hvalue : value radix 0 (List.replicate zeros '0' ++ Nat.toDigits radix n) = some n := by
    rw [value_zeros (by omega), value_toDigits hone hradix]
  have hsome : List.replicate zeros '0' ++ Nat.toDigits radix n ≠ [] := by
    intro hnil
    exact Nat.toDigits_ne_nil (List.append_eq_nil_iff.mp hnil).2
  rw [number, unsigned_of_value hvalue, if_neg hsome, hvalue, Option.filter_some,
    if_pos (decide_eq_true hn)]

end Numbers

/-! ## Fields -/

/-- The texts before and after the first separator. -/
def splitOnce (sep : Char) : List Char → Option (List Char × List Char)
  | [] => none
  | c :: rest =>
      if c = sep then some ([], rest)
      else (splitOnce sep rest).map fun parts => (c :: parts.1, parts.2)

theorem splitOnce_join {sep : Char} {before : List Char} (h : sep ∉ before)
    (after : List Char) : splitOnce sep (before ++ sep :: after) = some (before, after) := by
  induction before with
  | nil => exact if_pos rfl
  | cons c rest ih =>
      rw [List.mem_cons, not_or] at h
      rw [List.cons_append, splitOnce, if_neg fun hc => h.1 hc.symm, ih h.2]
      rfl

theorem splitOnce_none {sep : Char} {s : List Char} (h : sep ∉ s) : splitOnce sep s = none := by
  induction s with
  | nil => rfl
  | cons c rest ih =>
      rw [List.mem_cons, not_or] at h
      rw [splitOnce, if_neg fun hc => h.1 hc.symm, ih h.2]
      rfl

/-- A text behind a front. -/
def stripPrefix : List Char → List Char → Option (List Char)
  | [], s => some s
  | _ :: _, [] => none
  | p :: front, c :: s => if p = c then stripPrefix front s else none

theorem stripPrefix_append (front s : List Char) : stripPrefix front (front ++ s) = some s := by
  induction front with
  | nil => rfl
  | cons p front ih =>
      rw [List.cons_append, stripPrefix, if_pos rfl]
      exact ih

end Text
