import Mathlib.Algebra.Ring.Nat
import Mathlib.Data.List.Basic

/-!
# UTF-16

A character below 0x10000 is one code unit, and any other character is a
leading and a trailing surrogate.  `decode` is strict: a lone surrogate gives
`none`.  `fit k s` keeps the longest prefix of whole characters that takes at
most `k` units.  It is what a cut at `k` units leaves once a leading surrogate
at the end is dropped (`cut_encode`), so a cut text always decodes.
-/

namespace Utf16

/-- The code units of one character. -/
def units (c : Char) : List Nat :=
  if c.toNat < 0x10000 then [c.toNat]
  else [0xd800 + (c.toNat - 0x10000) / 0x400, 0xdc00 + (c.toNat - 0x10000) % 0x400]

/-- The code units of a text. -/
def encode (s : List Char) : List Nat :=
  s.flatMap units

/-- A leading surrogate opens a pair. -/
def Leading (u : Nat) : Prop := 0xd800 ≤ u ∧ u < 0xdc00

/-- A trailing surrogate closes a pair. -/
def Trailing (u : Nat) : Prop := 0xdc00 ≤ u ∧ u < 0xe000

instance (u : Nat) : Decidable (Leading u) := inferInstanceAs (Decidable (_ ∧ _))

instance (u : Nat) : Decidable (Trailing u) := inferInstanceAs (Decidable (_ ∧ _))

/-- Reads code units, and gives `none` at a lone surrogate. -/
def decode : List Nat → Option (List Char)
  | [] => some []
  | [u] => if Leading u ∨ Trailing u then none else some [Char.ofNat u]
  | u :: v :: rest =>
      if Leading u then
        if Trailing v then
          (decode rest).map
            (Char.ofNat (0x10000 + (u - 0xd800) * 0x400 + (v - 0xdc00)) :: ·)
        else none
      else if Trailing u then none
      else (decode (v :: rest)).map (Char.ofNat u :: ·)

@[simp] theorem encode_nil : encode [] = [] := rfl

@[simp] theorem encode_cons (c : Char) (s : List Char) :
    encode (c :: s) = units c ++ encode s := rfl

theorem encode_append (s t : List Char) : encode (s ++ t) = encode s ++ encode t := by
  simp [encode]

/-- A character is no surrogate, and it is below 0x110000. -/
theorem toNat_valid (c : Char) :
    c.toNat < 0xd800 ∨ (0xdfff < c.toNat ∧ c.toNat < 0x110000) := by
  have h : Nat.isValidChar c.toNat := c.valid
  unfold Nat.isValidChar at h
  omega

/-- A character takes one unit or two. -/
theorem length_units (c : Char) : (units c).length = 1 ∨ (units c).length = 2 := by
  unfold units
  split <;> simp

theorem units_ne_nil (c : Char) : units c ≠ [] := by
  unfold units
  split <;> simp

/-- Every unit fits 16 bits. -/
theorem lt_of_mem_units {c : Char} {u : Nat} (h : u ∈ units c) : u < 65536 := by
  have hc := toNat_valid c
  unfold units at h
  split at h
  · simp at h; omega
  · rw [List.mem_pair] at h
    rcases h with h | h <;> omega

theorem lt_of_mem_encode {s : List Char} {u : Nat} (h : u ∈ encode s) : u < 65536 := by
  obtain ⟨c, -, hu⟩ := List.mem_flatMap.mp h
  exact lt_of_mem_units hu

/-- The units of a first character decode to that character. -/
theorem decode_units_append (c : Char) (rest : List Nat) :
    decode (units c ++ rest) = (decode rest).map (c :: ·) := by
  have hc := toNat_valid c
  unfold units
  split
  · rename_i hsmall
    have hlead : ¬ Leading c.toNat := by unfold Leading; omega
    have htrail : ¬ Trailing c.toNat := by unfold Trailing; omega
    cases rest with
    | nil => simp [decode, hlead, htrail, Char.ofNat_toNat]
    | cons v rest => simp [decode, hlead, htrail, Char.ofNat_toNat]
  · rename_i hbig
    have hlead : Leading (0xd800 + (c.toNat - 0x10000) / 0x400) := by
      unfold Leading; omega
    have htrail : Trailing (0xdc00 + (c.toNat - 0x10000) % 0x400) := by
      unfold Trailing; omega
    have hback : 0x10000 + (0xd800 + (c.toNat - 0x10000) / 0x400 - 0xd800) * 0x400 +
        (0xdc00 + (c.toNat - 0x10000) % 0x400 - 0xdc00) = c.toNat := by omega
    simp only [List.cons_append, List.nil_append, decode, hlead, htrail, if_true]
    rw [hback, Char.ofNat_toNat]

/-- **Round trip.** -/
theorem decode_encode (s : List Char) : decode (encode s) = some s := by
  induction s with
  | nil => rfl
  | cons c s ih => rw [encode_cons, decode_units_append, ih]; rfl

/-! ## A cut that keeps whole characters -/

/-- The longest prefix of whole characters that takes at most `k` units. -/
def fit : Nat → List Char → List Char
  | _, [] => []
  | k, c :: s => if (units c).length ≤ k then c :: fit (k - (units c).length) s else []

/-- Takes at most `k` units, and steps back over a leading surrogate that the
cut leaves alone. -/
def cut (k : Nat) (us : List Nat) : List Nat :=
  let take := min us.length k
  let take := if take < us.length ∧ 0 < take ∧ Leading (us.getD (take - 1) 0)
    then take - 1 else take
  us.take take

theorem fit_prefix (k : Nat) (s : List Char) : fit k s <+: s := by
  induction s generalizing k with
  | nil => exact List.prefix_refl []
  | cons c s ih =>
      unfold fit
      split
      · exact (List.prefix_cons_inj c).mpr (ih _)
      · exact List.nil_prefix

theorem length_encode_fit_le (k : Nat) (s : List Char) :
    (encode (fit k s)).length ≤ k := by
  induction s generalizing k with
  | nil => simp [fit]
  | cons c s ih =>
      unfold fit
      split
      · have := ih (k - (units c).length)
        simp only [encode_cons, List.length_append]
        omega
      · simp

/-- A text that takes at most `k` units stays whole. -/
theorem fit_eq_self {k : Nat} {s : List Char} (h : (encode s).length ≤ k) :
    fit k s = s := by
  induction s generalizing k with
  | nil => rfl
  | cons c s ih =>
      simp only [encode_cons, List.length_append] at h
      rw [fit, if_pos (by omega), ih (by omega)]

/-- No longer prefix of a text fits. -/
theorem length_le_fit {k : Nat} {s t : List Char} (hpre : t <+: s)
    (h : (encode t).length ≤ k) : t.length ≤ (fit k s).length := by
  induction s generalizing k t with
  | nil =>
      rw [List.prefix_nil.mp hpre]
      exact Nat.zero_le _
  | cons c s ih =>
      cases t with
      | nil => exact Nat.zero_le _
      | cons d t =>
          obtain ⟨rfl, htail⟩ := List.cons_prefix_cons.mp hpre
          rw [encode_cons, List.length_append] at h
          have hrest := @ih (k - (units d).length) t htail (by omega)
          rw [fit, if_pos (by omega), List.length_cons, List.length_cons]
          omega

theorem cut_of_le {k : Nat} {us : List Nat} (h : us.length ≤ k) : cut k us = us := by
  simp [cut, Nat.min_eq_left h]

theorem cut_of_lt {k : Nat} {us : List Nat} (h : k < us.length) :
    cut k us = if 0 < k ∧ Leading (us.getD (k - 1) 0) then us.take (k - 1)
      else us.take k := by
  simp only [cut, Nat.min_eq_right (Nat.le_of_lt h), h, true_and]
  split <;> rfl

/-- The last unit of a whole character is no leading surrogate. -/
theorem not_leading_last_unit (c : Char) (rest : List Nat) :
    ¬ Leading ((units c ++ rest).getD ((units c).length - 1) 0) := by
  have hc := toNat_valid c
  unfold units
  split
  · simp only [List.length_singleton, Nat.sub_self, List.cons_append, List.getD_cons_zero,
      Leading]
    omega
  · simp only [List.length_cons, List.length_nil, Nat.zero_add, Nat.reduceAdd,
      Nat.reduceSub, List.cons_append, List.getD_cons_succ, List.getD_cons_zero, Leading]
    omega

/-- The first unit of a pair is a leading surrogate. -/
theorem leading_first_unit {c : Char} (h : (units c).length = 2) (rest : List Nat) :
    Leading ((units c ++ rest).getD 0 0) := by
  have hc := toNat_valid c
  unfold units at h ⊢
  split at h
  · simp at h
  · rename_i hbig
    rw [if_neg hbig]
    simp only [List.cons_append, List.getD_cons_zero, Leading]
    omega

/-- A first character that fits stays in the cut. -/
theorem cut_units_append (c : Char) (rest : List Nat) {k : Nat}
    (h : (units c).length ≤ k) :
    cut k (units c ++ rest) = units c ++ cut (k - (units c).length) rest := by
  obtain ⟨j, rfl⟩ : ∃ j, k = (units c).length + j := ⟨_, (Nat.add_sub_cancel' h).symm⟩
  rw [Nat.add_sub_cancel_left]
  by_cases hall : rest.length ≤ j
  · rw [cut_of_le hall, cut_of_le (by rw [List.length_append]; omega)]
  · have hlt : j < rest.length := by omega
    have hpos : 0 < (units c).length := List.length_pos_iff.mpr (units_ne_nil c)
    rw [cut_of_lt hlt, cut_of_lt (by rw [List.length_append]; omega)]
    cases j with
    | zero =>
        -- the cut falls right behind the character
        rw [if_neg fun hl => not_leading_last_unit c rest hl.2, if_neg (by simp)]
        simp
    | succ j =>
        have hget : (units c ++ rest).getD ((units c).length + (j + 1) - 1) 0 =
            rest.getD j 0 := by
          simp [List.getD_eq_getElem?_getD, List.getElem?_append_right]
        rw [hget, Nat.add_sub_cancel]
        by_cases hl : Leading (rest.getD j 0)
        · rw [if_pos ⟨by omega, hl⟩, if_pos ⟨by omega, hl⟩,
            show (units c).length + (j + 1) - 1 = (units c).length + j by omega]
          exact List.take_length_add_append _
        · rw [if_neg fun hx => hl hx.2, if_neg fun hx => hl hx.2]
          exact List.take_length_add_append _

/-- **A cut leaves whole characters.**  The units left of a text are the units
of its longest prefix that fits. -/
theorem cut_encode (k : Nat) (s : List Char) : cut k (encode s) = encode (fit k s) := by
  induction s generalizing k with
  | nil => simp [cut, fit]
  | cons c s ih =>
      by_cases h : (units c).length ≤ k
      · rw [encode_cons, cut_units_append c _ h, ih, fit, if_pos h, encode_cons]
      · have hpos : 0 < (units c).length := List.length_pos_iff.mpr (units_ne_nil c)
        rw [fit, if_neg h, encode_nil, encode_cons,
          cut_of_lt (by rw [List.length_append]; omega)]
        rcases length_units c with hone | htwo
        · -- a character of one unit that does not fit leaves no room at all
          have hk : k = 0 := by omega
          simp [hk]
        · -- half of a pair is a leading surrogate, and the cut drops it
          have hk : k = 0 ∨ k = 1 := by omega
          rcases hk with rfl | rfl
          · simp
          · rw [if_pos ⟨by omega, leading_first_unit htwo _⟩]
            simp

/-! ## Units and bytes -/

end Utf16
