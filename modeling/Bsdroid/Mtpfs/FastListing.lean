import Bsdroid.Cellphone.Device
import Bsdroid.Mtpfs.Listing

/-!
# What the fast listing makes up

The fast way joins three answers by handle, over records that start blank.  It looks
afterwards whether each record has a name.  A size that no answer gave is then 0, and an
object whose kind no answer gave is a file (`Mtp.fast_listing_iff`).
-/

namespace Bsdroid

namespace PropEntry

/-- The name an entry gives. -/
def nameGiven (e : PropEntry) : Option Str :=
  match e.value with
  | .text s => if e.code = Property.objectFileName then some s else none
  | _ => none

/-- The size an entry gives. -/
def sizeGiven (e : PropEntry) : Option Nat :=
  match e.value with
  | .number n => if e.code = Property.objectSize then some n else none
  | _ => none

/-- The format an entry gives, in the width the device chose. -/
def formatGiven (e : PropEntry) : Option Nat :=
  match e.value with
  | .number n => if e.code = Property.objectFormat then some n else none
  | _ => none

end PropEntry

/-- The last value some entries give for a handle. -/
def lastGiven {α : Type} (given : PropEntry → Option α) (entries : List PropEntry)
    (h : UInt32) : Option α :=
  ((entries.filter (·.handle = h)).filterMap given).getLast?

theorem lastGiven_eq_none {α : Type} {given : PropEntry → Option α} {entries : List PropEntry}
    {h : UInt32} :
    lastGiven given entries h = none ↔ ∀ e ∈ entries, e.handle = h → given e = none := by
  simp [lastGiven]

theorem given_of_last {α : Type} {given : PropEntry → Option α} {entries : List PropEntry}
    {h : UInt32} {a : α} (hlast : lastGiven given entries h = some a) :
    ∃ e ∈ entries, e.handle = h ∧ given e = some a := by
  obtain ⟨e, he, hgiven⟩ := List.mem_filterMap.mp (List.mem_of_getLast? hlast)
  obtain ⟨hmem, hhandle⟩ := List.mem_filter.mp he
  exact ⟨e, hmem, of_decide_eq_true hhandle, hgiven⟩

/-- A field of a record is the last value given for it, or stays blank. -/
theorem field_of_foldl {α : Type} (given : PropEntry → Option α) (field : PropRecord → α)
    (hset : ∀ rec e, field (PropRecord.set rec e) = (given e).getD (field rec))
    (es : List PropEntry) (rec : PropRecord) :
    field (es.foldl PropRecord.set rec) = ((es.filterMap given).getLast?).getD (field rec) := by
  induction es using List.reverseRecOn with
  | nil => rfl
  | append_singleton es e ih =>
      rw [List.foldl_append, List.foldl_cons, List.foldl_nil, hset, ih, List.filterMap_append]
      cases hgiven : given e with
      | none => simp [hgiven]
      | some a => simp [hgiven]

section Fields

variable (entries : List PropEntry) (h : UInt32)

theorem recordOf_name :
    (recordOf entries h).name = (lastGiven PropEntry.nameGiven entries h).getD [] := by
  refine field_of_foldl PropEntry.nameGiven PropRecord.name (fun rec e => ?_) _ _
  rcases e with ⟨handle, code, value⟩
  cases value with
  | number n =>
      simp only [PropRecord.set, PropEntry.nameGiven]
      split_ifs <;> rfl
  | text s =>
      simp only [PropRecord.set, PropEntry.nameGiven]
      split_ifs <;> rfl
  | wide => rfl

theorem recordOf_size :
    (recordOf entries h).size = (lastGiven PropEntry.sizeGiven entries h).getD 0 := by
  refine field_of_foldl PropEntry.sizeGiven PropRecord.size (fun rec e => ?_) _ _
  rcases e with ⟨handle, code, value⟩
  cases value with
  | number n =>
      simp only [PropRecord.set, PropEntry.sizeGiven]
      split_ifs <;> rfl
  | text s =>
      simp only [PropRecord.set, PropEntry.sizeGiven]
      split_ifs <;> rfl
  | wide => rfl

theorem recordOf_format : (recordOf entries h).format =
    ((lastGiven PropEntry.formatGiven entries h).map UInt16.ofNat).getD 0 := by
  have hfield := field_of_foldl (fun e => e.formatGiven.map UInt16.ofNat) PropRecord.format
    (fun rec e => ?_) (entries.filter (·.handle = h)) (PropRecord.blank h)
  · rw [recordOf, hfield, lastGiven, ← List.getLast?_map, List.map_filterMap]
    rfl
  · rcases e with ⟨handle, code, value⟩
    cases value with
    | number n =>
        by_cases hcode : code = Property.objectFormat
        · have hsize : Property.objectFormat ≠ Property.objectSize := by decide
          simp only [PropRecord.set, PropEntry.formatGiven, hcode, hsize, if_true, if_false]
          rfl
        · simp only [PropRecord.set, PropEntry.formatGiven, hcode, if_false]
          split_ifs <;> rfl
    | text s =>
        simp only [PropRecord.set, PropEntry.formatGiven]
        split_ifs <;> rfl
    | wide => rfl

end Fields

namespace Mtp

variable {σ : Type} [Link σ] {m m' : Mtp σ} {parent : UInt32} {entries : List PropEntry}
  {out : List Entry}

/-- The answers gave the name, the size and the kind of an entry, each for its handle. -/
structure Given (entries : List PropEntry) (x : Entry) : Prop where
  name : ∃ e ∈ entries, e.handle = x.handle ∧ e.nameGiven = some x.name
  size : ∃ e ∈ entries, e.handle = x.handle ∧ e.sizeGiven = some x.size
  kind : ∃ e ∈ entries, ∃ n, e.handle = x.handle ∧ e.formatGiven = some n ∧
    (x.isDir = true ↔ n = Format.association.toNat)

/-- A listing holds what the answers gave, and every object they name beside the folder. -/
structure InventsNothing (parent : UInt32) (entries : List PropEntry) (out : List Entry) :
    Prop where
  given : ∀ x ∈ out, Given entries x
  whole : ∀ e ∈ entries, e.handle ≠ parent → ∃ x ∈ out, x.handle = e.handle

/-- An object beside the folder has no name, or an empty one. -/
def Nameless (parent : UInt32) (entries : List PropEntry) : Prop :=
  ∃ e ∈ entries, e.handle ≠ parent ∧
    (lastGiven PropEntry.nameGiven entries e.handle).getD [] = []

/-- The answers give a size and a format for a handle.  A format that takes more than 16 bits
counts as the format its low bits are. -/
structure Described (entries : List PropEntry) (h : UInt32) : Prop where
  size : ∃ e ∈ entries, e.handle = h ∧ e.sizeGiven.isSome
  format : ∃ e ∈ entries, ∃ n last, e.handle = h ∧ e.formatGiven = some n ∧
    lastGiven PropEntry.formatGiven entries h = some last ∧
    (last % 2 ^ 16 = Format.association.toNat ↔ n = Format.association.toNat)

/-- The kind of an object is the kind of its last format. -/
theorem isFolder_recordOf {h : UInt32} :
    (recordOf entries h).isFolder = true ↔
      ∃ last, lastGiven PropEntry.formatGiven entries h = some last ∧
        last % 2 ^ 16 = Format.association.toNat := by
  rw [PropRecord.isFolder, beq_iff_eq, recordOf_format]
  cases hlast : lastGiven PropEntry.formatGiven entries h with
  | none =>
      constructor
      · intro hzero
        exact absurd hzero (by decide)
      · rintro ⟨last, hnone, -⟩
        cases hnone
  | some last =>
      have hnat : (UInt16.ofNat last).toNat = last % 2 ^ 16 := UInt16.toNat_ofNat
      constructor
      · intro hformat
        exact ⟨last, rfl, by rw [← hnat, ← hformat]; rfl⟩
      · rintro ⟨last', hsome, hformat⟩
        cases hsome
        exact UInt16.toNat_inj.mp (hnat.trans hformat)

/-- The entry of a handle. -/
def entryOf (parent : UInt32) (entries : List PropEntry) (h : UInt32) : Entry :=
  ⟨h, parent, (recordOf entries h).name, (recordOf entries h).isFolder, (recordOf entries h).size⟩

/-- What a named handle shows was given exactly when a size and a format were. -/
theorem given_iff {h : UInt32} (hname : (lastGiven PropEntry.nameGiven entries h).getD [] ≠ []) :
    Given entries (entryOf parent entries h) ↔ Described entries h := by
  have hsize : (recordOf entries h).size =
      (lastGiven PropEntry.sizeGiven entries h).getD 0 := recordOf_size entries h
  constructor
  · rintro ⟨-, ⟨e, he, hhandle, hgiven⟩, ⟨e', he', n, hhandle', hgiven', hkind⟩⟩
    refine ⟨⟨e, he, hhandle, by rw [hgiven]; rfl⟩, ?_⟩
    cases hlast : lastGiven PropEntry.formatGiven entries h with
    | none =>
        have hnone := lastGiven_eq_none.mp hlast e' he' hhandle'
        cases hgiven'.symm.trans hnone
    | some last =>
        refine ⟨e', he', n, last, hhandle', hgiven', rfl, ?_⟩
        rw [← hkind]
        refine Iff.trans ?_ isFolder_recordOf.symm
        rw [hlast]
        exact ⟨fun hformat => ⟨last, rfl, hformat⟩, fun ⟨_, hsome, hformat⟩ =>
          (Option.some.inj hsome) ▸ hformat⟩
  · rintro ⟨⟨e, he, hhandle, hgiven⟩, ⟨e', he', n, last, hhandle', hgiven', hlast, hkind⟩⟩
    refine ⟨?_, ?_, ⟨e', he', n, hhandle', hgiven', ?_⟩⟩
    · cases hnamed : lastGiven PropEntry.nameGiven entries h with
      | none =>
          rw [hnamed] at hname
          exact absurd rfl hname
      | some s =>
          have hsame : (recordOf entries h).name = s := by
            rw [recordOf_name, hnamed]
            rfl
          rw [entryOf, hsame]
          exact given_of_last hnamed
    · cases hsized : lastGiven PropEntry.sizeGiven entries h with
      | none =>
          rw [lastGiven_eq_none.mp hsized e he hhandle] at hgiven
          cases hgiven
      | some k =>
          have hsame : (recordOf entries h).size = k := by
            rw [recordOf_size, hsized]
            rfl
          rw [entryOf, hsame]
          exact given_of_last hsized
    · refine isFolder_recordOf.trans ?_
      rw [hlast, ← hkind]
      exact ⟨fun ⟨_, hsome, hformat⟩ => (Option.some.inj hsome) ▸ hformat,
        fun hformat => ⟨last, rfl, hformat⟩⟩

/-- The handles of a listing. -/
def listed (parent : UInt32) (entries : List PropEntry) : List UInt32 :=
  (firsts entries).filter (· ≠ parent)

theorem mem_listed {h : UInt32} :
    h ∈ listed parent entries ↔ h ≠ parent ∧ ∃ e ∈ entries, e.handle = h := by
  rw [listed, List.mem_filter, mem_firsts, and_comm]
  simp

theorem dropTheFolder_eq : dropTheFolder (foldPropList entries) parent =
    (listed parent entries).map (recordOf entries) := by
  rw [foldPropList_eq, dropTheFolder, List.filter_map, listed]
  congr 1
  apply List.filter_congr
  intro h _
  simp [recordOf_handle]

theorem named_of_entriesOf {records : List PropRecord} (h : entriesOf parent records = .ok out) :
    ∀ r ∈ records, r.name ≠ [] := by
  induction records generalizing out with
  | nil => exact nofun
  | cons r rest ih =>
      rw [entriesOf] at h
      split at h
      · cases h
      · rename_i hr
        split at h
        · cases h
        · rename_i entries hentries
          intro r' hr'
          rcases List.mem_cons.mp hr' with rfl | hrest
          · exact fun hnone => hr (List.isEmpty_iff.mpr hnone)
          · exact ih hentries r' hrest

/-- The fast way gives an entry for each handle, when each of them has a name. -/
theorem listByProperties_of_entries (hentries : propEntries parent wanted m = (.ok entries, m')) :
    (Nameless parent entries → ∃ e, listByProperties parent m = (.error e, m')) ∧
      (¬ Nameless parent entries → listByProperties parent m =
        (.ok ((listed parent entries).map (entryOf parent entries)), m')) := by
  have hrun : listByProperties parent m = (entriesOf parent
      ((listed parent entries).map (recordOf entries)), m') := by
    rw [listByProperties]
    simp only [fastArg]
    rw [Proc.bind_ok hentries, dropTheFolder_eq]
    rfl
  rw [hrun]
  constructor
  · rintro ⟨e, he, hne, hnone⟩
    cases hes : entriesOf parent ((listed parent entries).map (recordOf entries)) with
    | error e => exact ⟨e, rfl⟩
    | ok es =>
        have hnamed := named_of_entriesOf hes _
          (List.mem_map_of_mem (mem_listed.mpr ⟨hne, e, he, rfl⟩))
        rw [recordOf_name] at hnamed
        exact absurd hnone hnamed
  · intro hnamed
    rw [entriesOf_of_named]
    · rw [List.map_map]
      congr 2
      apply List.map_congr_left
      intro h _
      rw [Function.comp_apply, recordOf_handle]
      rfl
    · intro r hr
      obtain ⟨h, hh, rfl⟩ := List.mem_map.mp hr
      obtain ⟨hne, e, he, rfl⟩ := mem_listed.mp hh
      intro hnone
      rw [recordOf_name] at hnone
      exact hnamed ⟨e, he, hne, hnone⟩

/-- **The fast listing invents nothing** exactly when it fails for the want of a name, or when
the answers gave a size and a format for every object beside the folder. -/
theorem fast_listing_iff (m : Mtp σ) (parent : UInt32) :
    (∀ out m', listByProperties parent m = (.ok out, m') →
      ∃ entries, propEntries parent wanted m = (.ok entries, m') ∧
        InventsNothing parent entries out) ↔
    ∀ entries m', propEntries parent wanted m = (.ok entries, m') →
      Nameless parent entries ∨ ∀ e ∈ entries, e.handle ≠ parent → Described entries e.handle := by
  constructor
  · intro hlists entries m' hentries
    by_cases hnameless : Nameless parent entries
    · exact .inl hnameless
    · right
      intro e he hne
      obtain ⟨entries', hentries', hinvents⟩ :=
        hlists _ _ ((listByProperties_of_entries hentries).2 hnameless)
      cases hentries.symm.trans hentries'
      have hmem : entryOf parent entries e.handle ∈
          (listed parent entries).map (entryOf parent entries) :=
        List.mem_map_of_mem (mem_listed.mpr ⟨hne, e, he, rfl⟩)
      exact (given_iff fun hnone => hnameless ⟨e, he, hne, hnone⟩).mp (hinvents.given _ hmem)
  · intro hanswers out m' hrun
    rcases hentries : propEntries parent wanted m with ⟨e | entries, m₁⟩
    · rw [listByProperties] at hrun
      simp only [fastArg] at hrun
      rw [Proc.bind_error hentries] at hrun
      cases hrun
    · obtain ⟨hfails, hgives⟩ := listByProperties_of_entries hentries
      by_cases hnameless : Nameless parent entries
      · obtain ⟨e, herror⟩ := hfails hnameless
        cases herror.symm.trans hrun
      · cases (hgives hnameless).symm.trans hrun
        have hdescribed := (hanswers entries _ hentries).resolve_left hnameless
        refine ⟨entries, rfl, ⟨fun x hx => ?_, fun e he hne => ?_⟩⟩
        · obtain ⟨h, hh, rfl⟩ := List.mem_map.mp hx
          obtain ⟨hne, e, he, rfl⟩ := mem_listed.mp hh
          exact (given_iff fun hnone => hnameless ⟨e, he, hne, hnone⟩).mpr (hdescribed e he hne)
        · exact ⟨_, List.mem_map_of_mem (mem_listed.mpr ⟨hne, e, he, rfl⟩), rfl⟩

/-- A device that names one file of the root and gives its format, and no size. -/
def sizeless : Device where
  answer _ r :=
    if r.params = [0, 0, Property.objectFileName.toUInt32, 0, 1] then
      .ok ⟨Resp.ok, le32 1 ++ le32 5 ++ le16 Property.objectFileName ++ le16 DataType.str ++
        pushString ['a'], [], 1⟩
    else if r.params = [0, 0, Property.objectFormat.toUInt32, 0, 1] then
      .ok ⟨Resp.ok, le32 1 ++ le32 5 ++ le16 Property.objectFormat ++ le16 DataType.uint16 ++
        le16 Format.undefined, [], 1⟩
    else .ok ⟨Resp.ok, le32 0, [], 1⟩
  log := []

/-- The file is listed with a size of 0, which no answer gave. -/
theorem size_made_up :
    (listByProperties root (fresh sizeless usb2Packet)).1 = .ok [⟨5, root, ['a'], false, 0⟩] ∧
      ∀ entries m', propEntries root wanted (fresh sizeless usb2Packet) = (.ok entries, m') →
        ¬ InventsNothing root entries [⟨5, root, ['a'], false, 0⟩] := by
  refine ⟨by decide +kernel, fun entries m' hentries hinvents => ?_⟩
  have hall : (propEntries root wanted (fresh sizeless usb2Packet)).1 =
      .ok [⟨5, Property.objectFileName, .text ['a']⟩,
        ⟨5, Property.objectFormat, .number Format.undefined.toNat⟩] := by
    decide +kernel
  rw [hentries] at hall
  cases hall
  obtain ⟨e, he, -, hsize⟩ := (hinvents.given _ (List.mem_singleton.mpr rfl)).size
  rcases List.mem_cons.mp he with rfl | he
  · cases hsize
  · obtain rfl := List.mem_singleton.mp he
    revert hsize
    decide

end Mtp

end Bsdroid
