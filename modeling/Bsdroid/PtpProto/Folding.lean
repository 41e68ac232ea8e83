import Bsdroid.PtpProto.PropList
import Mathlib.Data.List.Perm.Basic

/-!
# What a record holds

A field of a record is the last value that the entries of its handle give for the property of
the field, or the default.  So the fold of a list in which no handle and code come twice is,
up to the order of the records, the fold of each rearrangement of the list
(`fold_joins`).
-/

namespace Bsdroid

/-- The text an entry gives, when it gives one. -/
def PropEntry.text (e : PropEntry) : Option Str :=
  match e.value with
  | .text s => some s
  | _ => none

/-- The number an entry gives, when it gives one. -/
def PropEntry.number (e : PropEntry) : Option Nat :=
  match e.value with
  | .number n => some n
  | _ => none

/-- The last value of a kind that the entries give for one property of one object. -/
def lastValue {α : Type} (pick : PropEntry → Option α) (entries : List PropEntry)
    (handle : UInt32) (code : UInt16) : Option α :=
  ((entries.filter fun e => e.handle = handle ∧ e.code = code).filterMap pick).getLast?

/-- The record whose fields are the last values of an object, each cut to the width of the
field. -/
def lastRecord (entries : List PropEntry) (handle : UInt32) : PropRecord where
  handle := handle
  name := (lastValue PropEntry.text entries handle Property.objectFileName).getD []
  size := (lastValue PropEntry.number entries handle Property.objectSize).getD 0
  format := UInt16.ofNat
    ((lastValue PropEntry.number entries handle Property.objectFormat).getD 0)
  parent := UInt32.ofNat
    ((lastValue PropEntry.number entries handle Property.parentObject).getD 0)
  storage := UInt32.ofNat
    ((lastValue PropEntry.number entries handle Property.storageId).getD 0)

section

variable {α : Type} {pick : PropEntry → Option α} {xs ys : List PropEntry} {e : PropEntry}
  {handle : UInt32} {code : UInt16}

/-- One more entry gives the last value, when it is of the object, the property and the
kind. -/
theorem lastValue_append : lastValue pick (xs ++ [e]) handle code =
    if e.handle = handle ∧ e.code = code then (pick e).or (lastValue pick xs handle code)
    else lastValue pick xs handle code := by
  rw [lastValue, lastValue, List.filter_append, List.filterMap_append]
  by_cases h : e.handle = handle ∧ e.code = code
  · rw [if_pos h, List.filter_cons_of_pos (by rw [decide_eq_true_eq]; exact h), List.filter_nil]
    cases hpick : pick e with
    | none =>
        rw [List.filterMap_cons_none hpick]
        simp
    | some a =>
        rw [List.filterMap_cons_some hpick]
        simp
  · rw [if_neg h, List.filter_cons_of_neg (by simpa using h), List.filter_nil]
    simp

/-- An entry for another property does not count. -/
theorem lastValue_append_of_ne (h : e.code ≠ code) :
    lastValue pick (xs ++ [e]) handle code = lastValue pick xs handle code := by
  rw [lastValue_append, if_neg fun hboth => h hboth.2]

/-- An entry of another kind does not count. -/
theorem lastValue_append_of_none (h : pick e = none) :
    lastValue pick (xs ++ [e]) handle code = lastValue pick xs handle code := by
  rw [lastValue_append, h, Option.none_or]
  split
  · rfl
  · rfl

/-- An entry for the property is the last one. -/
theorem lastValue_append_self {a : α} (hcode : e.code = code) (h : pick e = some a) :
    lastValue pick (xs ++ [e]) e.handle code = some a := by
  rw [lastValue_append, if_pos ⟨rfl, hcode⟩, h]
  rfl

end

theorem lastRecord_append_of_ne {xs : List PropEntry} {e : PropEntry} {handle : UInt32}
    (h : e.handle ≠ handle) : lastRecord (xs ++ [e]) handle = lastRecord xs handle := by
  have hsame : ∀ {α : Type} (pick : PropEntry → Option α) (code : UInt16),
      lastValue pick (xs ++ [e]) handle code = lastValue pick xs handle code := by
    intro α pick code
    rw [lastValue_append, if_neg fun hboth => h hboth.1]
  unfold lastRecord
  rw [hsame, hsame, hsame, hsame, hsame]

/-- **One more entry of an object** sets the one field that its code and its kind name. -/
theorem lastRecord_append_self (xs : List PropEntry) (e : PropEntry) :
    lastRecord (xs ++ [e]) e.handle = (lastRecord xs e.handle).set e := by
  unfold PropRecord.set lastRecord
  cases hvalue : e.value with
  | text s =>
      have htext : e.text = some s := by rw [PropEntry.text, hvalue]
      have hnumber : e.number = none := by rw [PropEntry.number, hvalue]
      simp only [lastValue_append_of_none hnumber]
      by_cases hname : e.code = Property.objectFileName
      · rw [if_pos hname, lastValue_append_self hname htext]
        rfl
      · rw [if_neg hname, lastValue_append_of_ne hname]
  | number n =>
      have htext : e.text = none := by rw [PropEntry.text, hvalue]
      have hnumber : e.number = some n := by rw [PropEntry.number, hvalue]
      have hother : ∀ {code code' : UInt16}, e.code = code' → code' ≠ code →
          lastValue PropEntry.number (xs ++ [e]) e.handle code =
            lastValue PropEntry.number xs e.handle code := fun hcode hne =>
        lastValue_append_of_ne (hcode ▸ hne)
      simp only [lastValue_append_of_none htext]
      by_cases hsize : e.code = Property.objectSize
      · rw [if_pos hsize, lastValue_append_self hsize hnumber, hother hsize (by decide),
          hother hsize (by decide), hother hsize (by decide)]
        rfl
      rw [if_neg hsize, lastValue_append_of_ne hsize]
      by_cases hformat : e.code = Property.objectFormat
      · rw [if_pos hformat, lastValue_append_self hformat hnumber, hother hformat (by decide),
          hother hformat (by decide)]
        rfl
      rw [if_neg hformat, lastValue_append_of_ne hformat]
      by_cases hparent : e.code = Property.parentObject
      · rw [if_pos hparent, lastValue_append_self hparent hnumber, hother hparent (by decide)]
        rfl
      rw [if_neg hparent, lastValue_append_of_ne hparent]
      by_cases hstorage : e.code = Property.storageId
      · rw [if_pos hstorage, lastValue_append_self hstorage hnumber]
        rfl
      · rw [if_neg hstorage, lastValue_append_of_ne hstorage]
  | wide =>
      have htext : e.text = none := by rw [PropEntry.text, hvalue]
      have hnumber : e.number = none := by rw [PropEntry.number, hvalue]
      simp only [lastValue_append_of_none htext, lastValue_append_of_none hnumber]

/-- The record of an object holds its last values. -/
theorem recordOf_eq_lastRecord (entries : List PropEntry) (handle : UInt32) :
    recordOf entries handle = lastRecord entries handle := by
  induction entries using List.reverseRecOn with
  | nil => rfl
  | append_singleton xs e ih =>
      by_cases h : e.handle = handle
      · rw [← h] at ih ⊢
        rw [recordOf_append_self, lastRecord_append_self, ih]
      · rw [recordOf_append_of_ne h, lastRecord_append_of_ne h, ih]

/-! ## The order of the records -/

theorem firsts_filter (entries : List PropEntry) (handle : UInt32) :
    firsts (entries.filter (·.handle ≠ handle)) = (firsts entries).filter (· ≠ handle) := by
  induction entries with
  | nil => rfl
  | cons e es ih =>
      by_cases h : e.handle = handle
      · rw [List.filter_cons_of_neg (by simpa using h), ih, firsts,
          List.filter_cons_of_neg (by simpa using h), List.filter_filter]
        refine List.filter_congr fun k _ => ?_
        rw [h, Bool.and_self]
      · rw [List.filter_cons_of_pos (by simpa using h), firsts, firsts, ih,
          List.filter_cons_of_pos (by simpa using h), List.filter_comm]

/-- The handles come in the order of their first appearance. -/
theorem firsts_eq_eraseDups (entries : List PropEntry) :
    firsts entries = (entries.map PropEntry.handle).eraseDups := by
  induction hlength : entries.length using Nat.strong_induction_on generalizing entries with
  | h n ih =>
      cases entries with
      | nil => rfl
      | cons e es =>
          have hless : (es.filter (·.handle ≠ e.handle)).length < n := by
            rw [← hlength, List.length_cons]
            exact Nat.lt_succ_of_le (List.length_filter_le _ _)
          rw [firsts, List.map_cons, List.eraseDups_cons, ← firsts_filter, ih _ hless _ rfl,
            List.filter_map]
          congr 3
          refine List.filter_congr fun e' _ => ?_
          by_cases hsame : e'.handle = e.handle
          · simp [hsame]
          · simp [hsame]

theorem firsts_perm {xs ys : List PropEntry} (h : xs.Perm ys) : (firsts xs).Perm (firsts ys) := by
  refine (List.perm_ext_iff_of_nodup (nodup_firsts xs) (nodup_firsts ys)).mpr fun handle => ?_
  rw [mem_firsts, mem_firsts]
  constructor
  · rintro ⟨e, he, rfl⟩
    exact ⟨e, h.mem_iff.mp he, rfl⟩
  · rintro ⟨e, he, rfl⟩
    exact ⟨e, h.mem_iff.mpr he, rfl⟩

/-- Entries of one object and one property come at most once, so their order is no matter. -/
theorem lastValue_perm {α : Type} {pick : PropEntry → Option α} {xs ys : List PropEntry}
    (h : xs.Perm ys) (hnodup : (xs.map fun e => (e.handle, e.code)).Nodup) (handle : UInt32)
    (code : UInt16) : lastValue pick xs handle code = lastValue pick ys handle code := by
  have hperm := h.filter fun e => decide (e.handle = handle ∧ e.code = code)
  have hfew : (xs.filter fun e => decide (e.handle = handle ∧ e.code = code)).length ≤ 1 := by
    have hone : ((xs.filter fun e => decide (e.handle = handle ∧ e.code = code)).map
        fun e => (e.handle, e.code)).Nodup := hnodup.sublist (List.filter_sublist.map _)
    have hall : ∀ key ∈ (xs.filter fun e => decide (e.handle = handle ∧ e.code = code)).map
        fun e => (e.handle, e.code), key = (handle, code) := by
      intro key hkey
      obtain ⟨e, he, rfl⟩ := List.mem_map.mp hkey
      obtain ⟨hhandle, hcode⟩ := of_decide_eq_true (List.mem_filter.mp he).2
      rw [hhandle, hcode]
    rw [List.eq_replicate_of_mem hall, List.nodup_replicate, List.length_map] at hone
    exact hone
  rw [lastValue, lastValue]
  generalize xs.filter _ = zs at hperm hfew
  cases zs with
  | nil => rw [List.nil_perm.mp hperm]
  | cons e rest =>
      cases rest with
      | nil => rw [List.singleton_perm.mp hperm]
      | cons e' rest => exact absurd hfew (by simp)

/-- **The fold joins properties without loss or mixing.**  There is one record for each handle,
in the order of first appearance, and each field of it is the last value of its property.
When no handle and code come twice, a rearrangement of the entries rearranges the records. -/
theorem fold_joins :
    (∀ entries, foldPropList entries =
      (entries.map PropEntry.handle).eraseDups.map (lastRecord entries)) ∧
    ∀ xs ys : List PropEntry, xs.Perm ys → (xs.map fun e => (e.handle, e.code)).Nodup →
      (foldPropList xs).Perm (foldPropList ys) := by
  have hfold : ∀ entries, foldPropList entries = (firsts entries).map (lastRecord entries) := by
    intro entries
    rw [foldPropList_eq]
    exact List.map_congr_left fun handle _ => recordOf_eq_lastRecord entries handle
  refine ⟨fun entries => by rw [hfold, firsts_eq_eraseDups], fun xs ys h hnodup => ?_⟩
  have hsame : lastRecord xs = lastRecord ys := by
    funext handle
    unfold lastRecord
    rw [lastValue_perm h hnodup, lastValue_perm h hnodup, lastValue_perm h hnodup,
      lastValue_perm h hnodup, lastValue_perm h hnodup]
  rw [hfold, hfold, hsame]
  exact (firsts_perm h).map _

/-- The name and the size of one object, and the size of another before them. -/
theorem fold_joins_three :
    (foldPropList [⟨2, Property.objectSize, .number 7⟩, ⟨1, Property.objectFileName, .text ['a']⟩,
        ⟨1, Property.objectSize, .number 3⟩]).Perm
      (foldPropList [⟨1, Property.objectFileName, .text ['a']⟩, ⟨2, Property.objectSize, .number 7⟩,
        ⟨1, Property.objectSize, .number 3⟩]) :=
  fold_joins.2 _ _ (.swap _ _ _) (by decide)

end Bsdroid
