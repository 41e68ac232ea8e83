import Bsdroid.PtpProto.Datasets
import Bsdroid.PtpProto.Grammar

/-!
# Datasets that are cut short

The last strings of a dataset are optional: a read that fails gives the empty string and the
parser goes on.  A string that is cut after its count byte fails with the cursor behind that
byte, so the next optional string is read out of the middle of the text.  `Spared` says when
nothing comes of that, and `cut_short_exact` that it is exactly then that a dataset that is
cut short only loses fields.
-/

namespace Bsdroid

open Proc

namespace Reader

/-! ## Optional strings -/

/-- What an optional string takes from the bytes: its text, or the empty one. -/
def optional : Bytes → Str × Bytes
  | [] => ([], [])
  | count :: text =>
      if text.length < count.toNat * 2 then ([], text)
      else ((Utf16.decode (unterminated (unitsOf (text.take (count.toNat * 2))))).getD [],
        text.drop (count.toNat * 2))

/-- The optional strings one after the other. -/
def strings : Nat → Bytes → List Str
  | 0, _ => []
  | k + 1, data => (optional data).1 :: strings k (optional data).2

/-- The bytes end inside the string they start with, behind its count byte. -/
def CutInside : Bytes → Prop
  | [] => False
  | count :: text => text.length < count.toNat * 2

instance : DecidablePred CutInside
  | [] => .isFalse fun h => h
  | count :: text => inferInstanceAs (Decidable (text.length < count.toNat * 2))

theorem orDefault_readString (field : String) (data : Bytes) :
    orDefault (readString field) [] data = (.ok (optional data).1, (optional data).2) := by
  cases data with
  | nil => rfl
  | cons count text =>
      unfold orDefault
      rw [readString_eq, bind_ok (readU8_cons field count text), optional, readUnits]
      by_cases hzero : count = 0
      · subst hzero
        rfl
      rw [if_neg hzero]
      by_cases hcut : text.length < count.toNat * 2
      · rw [if_pos hcut]
        have hfail : take (count.toNat * 2) field text = (.error _, text) := if_pos hcut
        rw [bind_error hfail]
      · rw [if_neg hcut]
        have htake : take (count.toNat * 2) field text = (.ok _, _) := if_neg hcut
        rw [bind_ok htake]
        cases Utf16.decode (unterminated (unitsOf (text.take (count.toNat * 2)))) with
        | none => rfl
        | some s => rfl

theorem optional_of_cut {data : Bytes} (h : CutInside data) : optional data = ([], data.tail) := by
  cases data with
  | nil => exact h.elim
  | cons count text => exact if_pos h

/-- A string that is whole reads the same when more stands behind it. -/
theorem optional_append {data : Bytes} (hsome : data ≠ []) (h : ¬CutInside data) (more : Bytes) :
    optional (data ++ more) = ((optional data).1, (optional data).2 ++ more) := by
  cases data with
  | nil => exact absurd rfl hsome
  | cons count text =>
      have hwhole : count.toNat * 2 ≤ text.length := Nat.le_of_not_lt h
      have hmore : ¬(text ++ more).length < count.toNat * 2 := by
        rw [List.length_append]
        omega
      rw [List.cons_append, optional, if_neg hmore, optional, if_neg (Nat.not_lt.mpr hwhole),
        List.take_append_of_le_length hwhole, List.drop_append_of_le_length hwhole]

theorem strings_nil (k : Nat) : strings k [] = List.replicate k [] := by
  induction k with
  | zero => rfl
  | succ k ih => exact congrArg ([] :: ·) ih

theorem strings_zeros (k : Nat) (more : Bytes) :
    strings k (List.replicate k 0 ++ more) = List.replicate k [] := by
  induction k with
  | zero => rfl
  | succ k ih => exact congrArg ([] :: ·) ih

/-! ## What a cut can do -/

/-- A text that was lost, or kept. -/
def LostOrKept (s whole : Str) : Prop := s = [] ∨ s = whole

/-- **Nothing comes of a cut.**  Where the cut falls inside one of `k` optional strings, what
stands behind its count byte reads as empty strings, or by chance as the ones that follow in
the whole data. -/
def Spared : Nat → Bytes → Bytes → Prop
  | 0, _, _ => True
  | k + 1, whole, cut =>
      if CutInside cut then
        List.Forall₂ LostOrKept (strings k cut.tail) (strings k (optional whole).2)
      else Spared k (optional whole).2 (optional cut).2

/-- Nothing can come of a cut here, whatever stood behind it. -/
def Harmless : Nat → Bytes → Prop
  | 0, _ => True
  | k + 1, cut =>
      if CutInside cut then strings k cut.tail = List.replicate k []
      else Harmless k (optional cut).2

theorem lost_all {k : Nat} {ss : List Str} (h : ss.length = k) :
    List.Forall₂ LostOrKept (List.replicate k []) ss := by
  induction k generalizing ss with
  | zero =>
      rw [List.length_eq_zero_iff.mp h]
      exact .nil
  | succ k ih =>
      cases ss with
      | nil => cases h
      | cons s ss => exact .cons (.inl rfl) (ih (Nat.succ.inj h))

theorem length_strings (k : Nat) (data : Bytes) : (strings k data).length = k := by
  induction k generalizing data with
  | zero => rfl
  | succ k ih => exact congrArg (· + 1) (ih _)

/-- The strings of data that were cut short are lost or kept exactly where nothing comes of
the cut. -/
theorem lostOrKept_iff (k : Nat) {whole cut : Bytes} (hpre : cut <+: whole) :
    List.Forall₂ LostOrKept (strings k cut) (strings k whole) ↔ Spared k whole cut := by
  induction k generalizing whole cut with
  | zero => exact iff_of_true .nil trivial
  | succ k ih =>
      rw [strings, strings, List.forall₂_cons, Spared]
      by_cases hcut : CutInside cut
      · rw [if_pos hcut, optional_of_cut hcut]
        exact and_iff_right (.inl rfl)
      rw [if_neg hcut]
      by_cases hnil : cut = []
      · subst hnil
        rw [optional, ← ih List.nil_prefix]
        exact and_iff_right (.inl rfl)
      · obtain ⟨more, rfl⟩ := hpre
        rw [optional_append hnil hcut, ← ih (List.prefix_append _ _)]
        exact and_iff_right (.inr rfl)

theorem spared_nil (k : Nat) (whole : Bytes) : Spared k whole [] := by
  rw [← lostOrKept_iff k List.nil_prefix, strings_nil]
  exact lost_all (length_strings k whole)

/-- The rest of a string that was cut, and `k` empty strings. -/
def zeros (k : Nat) : Bytes → Bytes
  | [] => []
  | count :: text => List.replicate (count.toNat * 2 - text.length) 0 ++ List.replicate k 0

theorem optional_zeros {cut : Bytes} (h : CutInside cut) (k : Nat) :
    (optional (cut ++ zeros k cut)).2 = List.replicate k 0 := by
  cases cut with
  | nil => exact h.elim
  | cons count text =>
      have hle : text.length ≤ count.toNat * 2 := Nat.le_of_lt h
      have hsize : (text ++ List.replicate (count.toNat * 2 - text.length) (0 : UInt8)).length =
          count.toNat * 2 := by
        rw [List.length_append, List.length_replicate]
        omega
      rw [zeros, List.cons_append, ← List.append_assoc, optional, if_neg]
      · exact List.drop_left' hsize
      · rw [List.length_append, hsize]
        omega

theorem lostOrKept_replicate {k : Nat} {ss : List Str} (hlength : ss.length = k) :
    List.Forall₂ LostOrKept ss (List.replicate k []) ↔ ss = List.replicate k [] := by
  induction k generalizing ss with
  | zero =>
      rw [List.length_eq_zero_iff.mp hlength]
      exact iff_of_true .nil rfl
  | succ k ih =>
      cases ss with
      | nil => cases hlength
      | cons s ss =>
          rw [List.replicate_succ, List.forall₂_cons, ih (Nat.succ.inj hlength),
            List.cons.injEq, LostOrKept, or_self]

/-- **A harmless cut.**  Data cut at a place lose only strings, whatever stood behind the
place, exactly where the bytes that are left allow nothing else. -/
theorem spared_all_iff (k : Nat) (cut : Bytes) :
    (∀ whole, cut <+: whole → Spared k whole cut) ↔ Harmless k cut := by
  induction k generalizing cut with
  | zero => exact iff_of_true (fun _ _ => trivial) trivial
  | succ k ih =>
      by_cases hcut : CutInside cut
      · rw [Harmless, if_pos hcut]
        constructor
        · intro hall
          have hspared := hall (cut ++ zeros k cut) (List.prefix_append _ _)
          have hzeros := strings_zeros k []
          rw [List.append_nil] at hzeros
          rw [Spared, if_pos hcut, optional_zeros hcut, hzeros] at hspared
          exact (lostOrKept_replicate (length_strings k _)).mp hspared
        · intro hempty whole _
          rw [Spared, if_pos hcut, hempty]
          exact lost_all (length_strings k _)
      · rw [Harmless, if_neg hcut, ← ih]
        constructor
        · intro hall whole hpre
          by_cases hnil : cut = []
          · subst hnil
            exact spared_nil k whole
          · obtain ⟨more, rfl⟩ := hpre
            have hspared := hall (cut ++ more) (List.prefix_append _ _)
            rw [Spared, if_neg hcut, optional_append hnil hcut] at hspared
            exact hspared
        · intro hall whole hpre
          rw [Spared, if_neg hcut]
          by_cases hnil : cut = []
          · subst hnil
            exact spared_nil k _
          · obtain ⟨more, rfl⟩ := hpre
            rw [optional_append hnil hcut]
            exact hall _ (List.prefix_append _ _)

/-! ## The mandatory fields -/

theorem extends_readU16 (field : String) : Extends (readU16 field) :=
  (fromFront_readU16 field).extends

theorem extends_readU32 (field : String) : Extends (readU32 field) :=
  (fromFront_readU32 field).extends

theorem extends_readString (field : String) : Extends (readString field) :=
  (fromFront_readString field).extends

/-- An array asks only that its elements are there. -/
theorem extends_readU16Array (field : String) : Extends (readU16Array field) := by
  apply (extends_readU32 field).bind
  intro count xs as rest hrun more
  have hmany : Extends (repeated (readU16 field) count.toNat) :=
    (fromFront_repeated (fromFront_readU16 field) _).extends
  dsimp only at hrun ⊢
  split at hrun
  · cases hrun
  · rename_i hroom
    rw [if_neg]
    · exact hmany _ _ _ hrun more
    · rw [List.length_append]
      omega

end Reader

open Reader

/-- The mandatory fields of an `ObjectInfo`, with no dates. -/
def ObjectInfo.required : Reader ObjectInfo := do
  let storageId ← readU32 "storage_id"
  let objectFormat ← readU16 "object_format"
  let protectionStatus ← readU16 "protection_status"
  let compressedSize ← readU32 "compressed_size"
  let _thumbFormat ← readU16 "thumb_format"
  let _thumbCompressedSize ← readU32 "thumb_compressed_size"
  let _thumbPixWidth ← readU32 "thumb_pix_width"
  let _thumbPixHeight ← readU32 "thumb_pix_height"
  let imagePixWidth ← readU32 "image_pix_width"
  let imagePixHeight ← readU32 "image_pix_height"
  let _imageBitDepth ← readU32 "image_bit_depth"
  let parentObject ← readU32 "parent_object"
  let associationType ← readU16 "association_type"
  let _associationDesc ← readU32 "association_desc"
  let _sequenceNumber ← readU32 "sequence_number"
  let filename ← readString "filename"
  pure {
    storageId, objectFormat, protectionStatus, compressedSize, imagePixWidth,
    imagePixHeight, parentObject, associationType, filename, captureDate := [],
    modificationDate := [] }

/-- The mandatory fields of a `DeviceInfo`, with no texts about the maker. -/
def DeviceInfo.required : Reader DeviceInfo := do
  let standardVersion ← readU16 "standard_version"
  let vendorExtensionId ← readU32 "vendor_extension_id"
  let vendorExtensionVersion ← readU16 "vendor_extension_version"
  let vendorExtensionDesc ← readString "vendor_extension_desc"
  let _mode ← readU16 "functional_mode"
  let operationsSupported ← readU16Array "operations_supported"
  let eventsSupported ← readU16Array "events_supported"
  let devicePropertiesSupported ← readU16Array "device_properties_supported"
  let captureFormats ← readU16Array "capture_formats"
  let imageFormats ← readU16Array "image_formats"
  pure {
    standardVersion, vendorExtensionId, vendorExtensionVersion, vendorExtensionDesc,
    operationsSupported, eventsSupported, devicePropertiesSupported, captureFormats,
    imageFormats, manufacturer := [], model := [], deviceVersion := [], serialNumber := [] }

/-- The optional strings behind the mandatory fields of an `ObjectInfo`. -/
def ObjectInfo.dates (i : ObjectInfo) : Reader ObjectInfo := do
  let captureDate ← orDefault (readString "capture_date") []
  let modificationDate ← orDefault (readString "modification_date") []
  pure { i with captureDate, modificationDate }

/-- The optional strings behind the mandatory fields of a `DeviceInfo`. -/
def DeviceInfo.maker (i : DeviceInfo) : Reader DeviceInfo := do
  let manufacturer ← orDefault (readString "manufacturer") []
  let model ← orDefault (readString "model") []
  let deviceVersion ← orDefault (readString "device_version") []
  let serialNumber ← orDefault (readString "serial_number") []
  pure { i with manufacturer, model, deviceVersion, serialNumber }

theorem ObjectInfo.read_eq : ObjectInfo.read = ObjectInfo.required >>= ObjectInfo.dates := by
  unfold ObjectInfo.read ObjectInfo.required
  simp only [bind_bind]
  rfl

theorem DeviceInfo.read_eq : DeviceInfo.read = DeviceInfo.required >>= DeviceInfo.maker := by
  unfold DeviceInfo.read DeviceInfo.required
  simp only [bind_bind]
  rfl

theorem ObjectInfo.extends_required : Extends ObjectInfo.required :=
  (extends_readU32 _).bind fun _ => (extends_readU16 _).bind fun _ =>
  (extends_readU16 _).bind fun _ => (extends_readU32 _).bind fun _ =>
  (extends_readU16 _).bind fun _ => (extends_readU32 _).bind fun _ =>
  (extends_readU32 _).bind fun _ => (extends_readU32 _).bind fun _ =>
  (extends_readU32 _).bind fun _ => (extends_readU32 _).bind fun _ =>
  (extends_readU32 _).bind fun _ => (extends_readU32 _).bind fun _ =>
  (extends_readU16 _).bind fun _ => (extends_readU32 _).bind fun _ =>
  (extends_readU32 _).bind fun _ => (extends_readString _).bind fun _ => .pure _

theorem DeviceInfo.extends_required : Extends DeviceInfo.required :=
  (extends_readU16 _).bind fun _ => (extends_readU32 _).bind fun _ =>
  (extends_readU16 _).bind fun _ => (extends_readString _).bind fun _ =>
  (extends_readU16 _).bind fun _ => (extends_readU16Array _).bind fun _ =>
  (extends_readU16Array _).bind fun _ => (extends_readU16Array _).bind fun _ =>
  (extends_readU16Array _).bind fun _ => (extends_readU16Array _).bind fun _ => .pure _

/-! ## What a dataset that is cut short gives -/

def ObjectInfo.mandatory (i : ObjectInfo) : ObjectInfo :=
  { i with captureDate := [], modificationDate := [] }

def ObjectInfo.texts (i : ObjectInfo) : List Str := [i.captureDate, i.modificationDate]

def DeviceInfo.mandatory (i : DeviceInfo) : DeviceInfo :=
  { i with manufacturer := [], model := [], deviceVersion := [], serialNumber := [] }

def DeviceInfo.texts (i : DeviceInfo) : List Str :=
  [i.manufacturer, i.model, i.deviceVersion, i.serialNumber]

/-- The parse of the cut data gives the mandatory fields of the whole data, and each of its
optional strings was lost or kept. -/
def LosesOnly {α : Type} (parse : Bytes → Except ParseError α) (mandatory : α → α)
    (texts : α → List Str) (whole cut : Bytes) : Prop :=
  ∀ a, parse whole = .ok a → ∃ b, parse cut = .ok b ∧ mandatory b = mandatory a ∧
    List.Forall₂ LostOrKept (texts b) (texts a)

/-- The optional fields keep the mandatory ones and read `k` strings. -/
def ReadsTexts {α : Type} (k : Nat) (mandatory : α → α) (texts : α → List Str)
    (rest : α → Reader α) : Prop :=
  ∀ i left, ∃ j left', rest i left = (.ok j, left') ∧ mandatory j = mandatory i ∧
    texts j = strings k left

theorem ObjectInfo.readsTexts :
    ReadsTexts 2 ObjectInfo.mandatory ObjectInfo.texts ObjectInfo.dates := by
  intro i left
  unfold ObjectInfo.dates
  rw [bind_ok (orDefault_readString _ left), bind_ok (orDefault_readString _ _)]
  exact ⟨_, _, rfl, rfl, rfl⟩

theorem DeviceInfo.readsTexts :
    ReadsTexts 4 DeviceInfo.mandatory DeviceInfo.texts DeviceInfo.maker := by
  intro i left
  unfold DeviceInfo.maker
  rw [bind_ok (orDefault_readString _ left), bind_ok (orDefault_readString _ _),
    bind_ok (orDefault_readString _ _), bind_ok (orDefault_readString _ _)]
  exact ⟨_, _, rfl, rfl, rfl⟩

section

variable {α : Type} {required : Reader α} {rest : α → Reader α} {mandatory : α → α}
  {texts : α → List Str} {k : Nat} {whole cut left : Bytes} {r : α}

/-- Data that begin with the mandatory fields lose only strings exactly where nothing comes
of the cut. -/
theorem losesOnly_iff (hrequired : Extends required) (hrest : ReadsTexts k mandatory texts rest)
    (hpre : cut <+: whole) (hrun : required cut = (.ok r, left)) :
    LosesOnly (fun data => ((required >>= rest) data).1) mandatory texts whole cut ↔
      Spared k (required whole).2 left := by
  obtain ⟨more, rfl⟩ := hpre
  have hwhole := hrequired _ _ _ hrun more
  obtain ⟨b, cut', hcut, hbmandatory, hbtexts⟩ := hrest r left
  obtain ⟨a, whole', hmore, hamandatory, hatexts⟩ := hrest r (left ++ more)
  rw [hwhole, ← lostOrKept_iff k (List.prefix_append left more), ← hbtexts, ← hatexts]
  have hparse : ((required >>= rest) (cut ++ more)).1 = .ok a := by
    rw [bind_ok hwhole, hmore]
  have hshort : ((required >>= rest) cut).1 = .ok b := by
    rw [bind_ok hrun, hcut]
  constructor
  · intro hloses
    obtain ⟨b', hb', -, htexts⟩ := hloses a hparse
    dsimp only at hb'
    rw [hshort] at hb'
    cases hb'
    exact htexts
  · intro htexts a' ha'
    dsimp only at ha'
    rw [hparse] at ha'
    cases ha'
    exact ⟨b, hshort, hbmandatory.trans hamandatory.symm, htexts⟩

/-- A cut loses only strings of every dataset exactly where it is harmless. -/
theorem losesOnly_all_iff (hrequired : Extends required)
    (hrest : ReadsTexts k mandatory texts rest) (hrun : required cut = (.ok r, left)) :
    (∀ whole, cut <+: whole →
      LosesOnly (fun data => ((required >>= rest) data).1) mandatory texts whole cut) ↔
      Harmless k left := by
  rw [← spared_all_iff]
  constructor
  · intro hall data hpre
    obtain ⟨more, rfl⟩ := hpre
    have hspared := (losesOnly_iff hrequired hrest (List.prefix_append cut more) hrun).mp
      (hall _ (List.prefix_append _ _))
    rw [hrequired _ _ _ hrun more] at hspared
    exact hspared
  · intro hall whole hpre
    apply (losesOnly_iff hrequired hrest hpre hrun).mpr
    obtain ⟨more, rfl⟩ := hpre
    rw [hrequired _ _ _ hrun more]
    exact hall _ (List.prefix_append _ _)

end

/-- **A dataset cut short loses fields, and mixes them exactly where a string is read out of
the middle of another one.**  The cut data still hold the mandatory fields. -/
theorem cut_short_exact {whole cut : Bytes} (hpre : cut <+: whole) :
    (∀ left r, ObjectInfo.required cut = (.ok r, left) →
      (LosesOnly ObjectInfo.parse ObjectInfo.mandatory ObjectInfo.texts whole cut ↔
        Spared 2 (ObjectInfo.required whole).2 left)) ∧
    (∀ left r, DeviceInfo.required cut = (.ok r, left) →
      (LosesOnly DeviceInfo.parse DeviceInfo.mandatory DeviceInfo.texts whole cut ↔
        Spared 4 (DeviceInfo.required whole).2 left)) := by
  constructor
  · intro left r hrun
    have hiff := losesOnly_iff ObjectInfo.extends_required ObjectInfo.readsTexts hpre hrun
    rw [← ObjectInfo.read_eq] at hiff
    exact hiff
  · intro left r hrun
    have hiff := losesOnly_iff DeviceInfo.extends_required DeviceInfo.readsTexts hpre hrun
    rw [← DeviceInfo.read_eq] at hiff
    exact hiff

theorem cut_short_at_a_name :
    LosesOnly ObjectInfo.parse ObjectInfo.mandatory ObjectInfo.texts
      (List.replicate 53 0 ++ [2, 0x41, 0, 0, 0]) (List.replicate 53 0) :=
  ((cut_short_exact (List.prefix_append _ _)).1 [] ⟨0, 0, 0, 0, 0, 0, 0, 0, [], [], []⟩
    (Prod.ext (by decide +kernel) rfl)).mpr (spared_nil 2 _)

/-- **A cut that is harmless whatever was cut off.** -/
theorem cut_short_harmless :
    (∀ cut left r, ObjectInfo.required cut = (.ok r, left) →
      ((∀ whole, cut <+: whole →
        LosesOnly ObjectInfo.parse ObjectInfo.mandatory ObjectInfo.texts whole cut) ↔
          Harmless 2 left)) ∧
    (∀ cut left r, DeviceInfo.required cut = (.ok r, left) →
      ((∀ whole, cut <+: whole →
        LosesOnly DeviceInfo.parse DeviceInfo.mandatory DeviceInfo.texts whole cut) ↔
          Harmless 4 left)) := by
  constructor
  · intro cut left r hrun
    have hiff := losesOnly_all_iff ObjectInfo.extends_required ObjectInfo.readsTexts hrun
    rw [← ObjectInfo.read_eq] at hiff
    exact hiff
  · intro cut left r hrun
    have hiff := losesOnly_all_iff DeviceInfo.extends_required DeviceInfo.readsTexts hrun
    rw [← DeviceInfo.read_eq] at hiff
    exact hiff

/-- Fifteen empty fields, no name, and a date of one U+0001, one `A` and the terminator. -/
def datedInfo : Bytes := List.replicate 53 0 ++ [3, 1, 0, 0x41, 0, 0, 0] ++ [0]

/-- The date that was cut behind its first character gives a modification date that the
dataset does not hold. -/
theorem cut_date_mixes :
    datedInfo.take 57 <+: datedInfo ∧
    (ObjectInfo.required (datedInfo.take 57)).1 =
      .ok ⟨0, 0, 0, 0, 0, 0, 0, 0, [], [], []⟩ ∧
    ¬LosesOnly ObjectInfo.parse ObjectInfo.mandatory ObjectInfo.texts datedInfo
      (datedInfo.take 57) := by
  refine ⟨List.take_prefix _ _, by decide +kernel, ?_⟩
  intro hloses
  have hwhole : ObjectInfo.parse datedInfo =
      .ok ⟨0, 0, 0, 0, 0, 0, 0, 0, [], [Char.ofNat 1, 'A'], []⟩ := by decide +kernel
  have hcut : ObjectInfo.parse (datedInfo.take 57) =
      .ok ⟨0, 0, 0, 0, 0, 0, 0, 0, [], [], [Char.ofNat 0x4100]⟩ := by decide +kernel
  obtain ⟨b, hb, -, htexts⟩ := hloses _ hwhole
  rw [hcut] at hb
  cases hb
  cases htexts with
  | cons _ htexts =>
      cases htexts with
      | cons hlost _ => rcases hlost with hlost | hlost <;> cases hlost

end Bsdroid
