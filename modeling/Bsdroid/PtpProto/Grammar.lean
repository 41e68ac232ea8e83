import Bsdroid.Lib.FromFront
import Bsdroid.PtpProto.PropList

/-!
# The grammar of a property list

Every reader of a field reads from the front, so a parser is known by the byte strings that
it parses.  `IsElement` says which ones are an element of a property list, one rule for each
width and one for the strings, and `parse_prop_list_exact` says that the parser accepts
exactly a count and that many elements.
-/

namespace Bsdroid

open Proc

namespace Reader

/-! ## The fields -/

variable {α β : Type} {field : String} {front : Bytes} {n : Nat}

theorem fromFront_take (n : Nat) (field : String) : FromFront (take n field) := by
  intro xs a rest hrun
  unfold take at hrun
  split at hrun
  · cases hrun
  · rename_i hsize
    cases hrun
    refine ⟨xs.take n, (List.take_append_drop n xs).symm, fun zs => ?_⟩
    exact take_append (List.length_take_of_le (Nat.le_of_not_lt hsize)) field zs

/-- A run of bytes is read from the front that it is. -/
theorem parses_take {a : Bytes} : Parses (take n field) front a ↔ front.length = n ∧ a = front := by
  constructor
  · intro hparses
    have hrun := hparses []
    unfold take at hrun
    split at hrun
    · cases hrun
    · rename_i hsize
      rw [List.append_nil] at hrun hsize
      obtain ⟨ha, hrest⟩ := Prod.mk.inj hrun
      have hle := List.drop_eq_nil_iff.mp hrest
      refine ⟨Nat.le_antisymm hle (Nat.le_of_not_lt hsize), ?_⟩
      rw [← Except.ok.inj ha, List.take_of_length_le hle]
  · rintro ⟨hlength, rfl⟩
    exact take_append hlength field

/-- A field of a fixed width. -/
theorem parses_fixed {value : Bytes → α} {v : α} :
    Parses (take n field >>= fun b => (pure (value b) : Reader α)) front v ↔
      front.length = n ∧ v = value front := by
  rw [(fromFront_take n field).parses_map]
  constructor
  · rintro ⟨a, hfirst, rfl⟩
    obtain ⟨hlength, rfl⟩ := parses_take.mp hfirst
    exact ⟨hlength, rfl⟩
  · rintro ⟨hlength, rfl⟩
    exact ⟨front, parses_take.mpr ⟨hlength, rfl⟩, rfl⟩

theorem fromFront_readU8 (field : String) : FromFront (readU8 field) :=
  (fromFront_take 1 field).map _

theorem fromFront_readU16 (field : String) : FromFront (readU16 field) :=
  (fromFront_take 2 field).map _

theorem fromFront_readU32 (field : String) : FromFront (readU32 field) :=
  (fromFront_take 4 field).map _

theorem fromFront_readU64 (field : String) : FromFront (readU64 field) :=
  (fromFront_take 8 field).map _

/-- One byte.  The numbers that follow differ in their width alone. -/
theorem parses_readU8 {v : UInt8} : Parses (readU8 field) front v ↔ front = [v] := by
  rw [readU8, parses_fixed]
  constructor
  · rintro ⟨hlength, rfl⟩
    obtain ⟨b, rfl⟩ := List.length_eq_one_iff.mp hlength
    rfl
  · rintro rfl
    exact ⟨rfl, rfl⟩

theorem parses_readU16 {v : UInt16} : Parses (readU16 field) front v ↔ front = le16 v := by
  rw [readU16, parses_fixed]
  constructor
  · rintro ⟨hlength, rfl⟩
    exact (le16_fromLe16 hlength).symm
  · rintro rfl
    exact ⟨length_le16 v, (fromLe16_le16 v).symm⟩

theorem parses_readU32 {v : UInt32} : Parses (readU32 field) front v ↔ front = le32 v := by
  rw [readU32, parses_fixed]
  constructor
  · rintro ⟨hlength, rfl⟩
    exact (le32_fromLe32 hlength).symm
  · rintro rfl
    exact ⟨length_le32 v, (fromLe32_le32 v).symm⟩

theorem parses_readU64 {v : Nat} : Parses (readU64 field) front v ↔ front = le64 v ∧ v < 2 ^ 64 := by
  rw [readU64, parses_fixed]
  constructor
  · rintro ⟨hlength, rfl⟩
    have hlt := LittleEndian.decode_lt front
    rw [hlength] at hlt
    refine ⟨?_, hlt⟩
    rw [le64, ← hlength, LittleEndian.encode_decode]
  · rintro ⟨rfl, hlt⟩
    exact ⟨length_le64 v, (LittleEndian.decode_encode_of_lt hlt).symm⟩

/-! ## Strings -/

/-- Drops one zero at the end. -/
def unterminated (us : List Nat) : List Nat := if us.getLast? = some 0 then us.dropLast else us

/-- Code units with their count in front, where the last one may be a terminator. -/
inductive IsString : Bytes → Str → Prop
  | empty : IsString [0] []
  | units (us : List Nat) (hunits : ∀ u ∈ us, u < 65536) (hsome : us ≠ [])
      (hcount : us.length < 256) {s : Str} (hdecode : Utf16.decode (unterminated us) = some s) :
      IsString (UInt8.ofNat us.length :: us.flatMap (LittleEndian.encode 2)) s

/-- Bytes in pairs are units, and the units give the bytes back. -/
theorem units_unitsOf {bytes : Bytes} (h : bytes.length = n * 2) :
    (unitsOf bytes).length = n ∧ (∀ u ∈ unitsOf bytes, u < 65536) ∧
      (unitsOf bytes).flatMap (LittleEndian.encode 2) = bytes := by
  induction n generalizing bytes with
  | zero =>
      rw [List.length_eq_zero_iff.mp (h.trans (Nat.zero_mul 2))]
      exact ⟨rfl, fun u hu => absurd hu List.not_mem_nil, rfl⟩
  | succ n ih =>
      cases bytes with
      | nil => exact absurd h (by rw [List.length_nil]; omega)
      | cons a bytes =>
          cases bytes with
          | nil => exact absurd h (by rw [List.length_singleton]; omega)
          | cons b rest =>
              rw [List.length_cons, List.length_cons] at h
              obtain ⟨hlength, hall, hback⟩ := @ih rest (by omega)
              have hpair := LittleEndian.encode_decode [a, b]
              rw [unitsOf]
              refine ⟨by rw [List.length_cons, hlength], fun u hu => ?_, ?_⟩
              · rcases List.mem_cons.mp hu with rfl | hu
                · have hlt := LittleEndian.decode_lt [a, b]
                  have htwo : 256 ^ [a, b].length = 65536 := by simp
                  rwa [htwo] at hlt
                · exact hall u hu
              · rw [List.flatMap_cons, hback]
                exact congrArg (· ++ rest) hpair

/-- A text that decoded, or the fault of one that did not. -/
def decoded (field : String) : Option Str → Reader Str
  | some s => pure s
  | none => fail (.badString field)

/-- What a string reads after its count. -/
def readUnits (field : String) (count : UInt8) : Reader Str :=
  if count = 0 then pure []
  else do
    let bytes ← take (count.toNat * 2) field
    decoded field (Utf16.decode (unterminated (unitsOf bytes)))

/-- A string is its count and then its units. -/
theorem readString_eq (field : String) :
    readString field = readU8 field >>= fun count => readUnits field count := by
  funext rest
  unfold readString
  rw [bind_run, bind_run]
  rcases readU8 field rest with ⟨e | count, rest'⟩
  · rfl
  · dsimp only
    unfold readUnits
    split
    · rfl
    · rw [bind_run, bind_run]
      rcases take (count.toNat * 2) field rest' with ⟨e | bytes, rest''⟩
      · rfl
      · dsimp only
        unfold unterminated
        generalize (if (unitsOf bytes).getLast? = some 0 then (unitsOf bytes).dropLast
          else unitsOf bytes) = us
        cases Utf16.decode us with
        | none => rfl
        | some s => rfl

theorem fromFront_decoded (field : String) (s : Option Str) : FromFront (decoded field s) := by
  cases s with
  | none => exact .fail _
  | some s => exact .pure s

theorem fromFront_readUnits (field : String) (count : UInt8) : FromFront (readUnits field count) := by
  unfold readUnits
  split
  · exact .pure _
  · exact (fromFront_take _ field).bind fun bytes => fromFront_decoded field _

theorem fromFront_readString (field : String) : FromFront (readString field) := by
  rw [readString_eq]
  exact (fromFront_readU8 field).bind fun count => fromFront_readUnits field count

/-- Units that decode take nothing more. -/
theorem parses_decoded {o : Option Str} {s : Str} :
    Parses (decoded field o) front s ↔ front = [] ∧ o = some s := by
  cases o with
  | none =>
      constructor
      · intro hparses
        cases hparses []
      · rintro ⟨-, hnone⟩
        cases hnone
  | some s' =>
      rw [decoded, parses_pure, Option.some.injEq, eq_comm (a := s)]

theorem parses_readString {s : Str} : Parses (readString field) front s ↔ IsString front s := by
  rw [readString_eq, (fromFront_readU8 field).parses_bind (fromFront_readUnits field)]
  constructor
  · rintro ⟨count, front₁, front₂, rfl, hfirst, hsecond⟩
    rw [parses_readU8.mp hfirst]
    unfold readUnits at hsecond
    split at hsecond
    · rename_i hzero
      obtain ⟨rfl, rfl⟩ := parses_pure.mp hsecond
      rw [hzero]
      exact .empty
    · rename_i hsome
      obtain ⟨bytes, front₃, front₄, rfl, hbytes, hdecoded⟩ :=
        ((fromFront_take _ field).parses_bind fun bytes => fromFront_decoded field _).mp hsecond
      obtain ⟨hlength, rfl⟩ := parses_take.mp hbytes
      obtain ⟨rfl, hdecode⟩ := parses_decoded.mp hdecoded
      obtain ⟨hunits, hall, hback⟩ := units_unitsOf hlength
      have hpos : count.toNat ≠ 0 := fun h => hsome (UInt8.toNat_inj.mp h)
      have hstring := IsString.units (unitsOf bytes) hall
        (by rw [← List.length_pos_iff, hunits]; omega) (by rw [hunits]; exact count.toNat_lt) hdecode
      rw [hunits, hback, UInt8.ofNat_toNat] at hstring
      rw [List.append_nil]
      exact hstring
  · intro hstring
    cases hstring with
    | empty => exact ⟨0, [0], [], rfl, parses_readU8.mpr rfl, .pure _⟩
    | units us hunits hsome hcount hdecode =>
        have hvalue : (UInt8.ofNat us.length).toNat = us.length := UInt8.toNat_ofNat_of_lt' hcount
        refine ⟨UInt8.ofNat us.length, [UInt8.ofNat us.length],
          us.flatMap (LittleEndian.encode 2), rfl, parses_readU8.mpr rfl, ?_⟩
        have hne : UInt8.ofNat us.length ≠ 0 := by
          intro hzero
          rw [hzero] at hvalue
          exact hsome (List.length_eq_zero_iff.mp hvalue.symm)
        unfold readUnits
        rw [if_neg hne, hvalue,
          (fromFront_take _ field).parses_bind fun bytes => fromFront_decoded field _]
        refine ⟨us.flatMap (LittleEndian.encode 2), _, [], (List.append_nil _).symm,
          parses_take.mpr ⟨?_, rfl⟩, parses_decoded.mpr ⟨rfl, ?_⟩⟩
        · rw [List.length_flatMap]
          simp
        · rw [unitsOf_flatMap us hunits]
          exact hdecode

/-! ## Elements one after the other -/

theorem fromFront_repeated {read : Reader α} (h : FromFront read) :
    ∀ n, FromFront (repeated read n) := by
  intro n
  induction n with
  | zero => exact .pure _
  | succ n ih => exact h.bind fun _ => ih.bind fun _ => .pure _

/-- Repeated values are the fronts of each of them, one after the other. -/
theorem parses_repeated {read : Reader α} (h : FromFront read) {as : List α} :
    Parses (repeated read n) front as ↔
      as.length = n ∧ ∃ fronts, front = fronts.flatten ∧ List.Forall₂ (Parses read) fronts as := by
  induction n generalizing front as with
  | zero =>
      rw [repeated, parses_pure]
      constructor
      · rintro ⟨rfl, rfl⟩
        exact ⟨rfl, [], rfl, .nil⟩
      · rintro ⟨hlength, fronts, rfl, hall⟩
        obtain rfl := List.length_eq_zero_iff.mp hlength
        cases hall
        exact ⟨rfl, rfl⟩
  | succ n ih =>
      rw [repeated, h.parses_bind fun _ => (fromFront_repeated h n).map _]
      constructor
      · rintro ⟨a, front₁, front₂, rfl, hfirst, hrest⟩
        obtain ⟨more, hmore, rfl⟩ := (fromFront_repeated h n).parses_map.mp hrest
        obtain ⟨rfl, fronts, rfl, hall⟩ := ih.mp hmore
        exact ⟨List.length_cons, front₁ :: fronts, List.flatten_cons, .cons hfirst hall⟩
      · rintro ⟨hlength, fronts, rfl, hall⟩
        cases hall with
        | nil => cases hlength
        | @cons front₁ a fronts more hfirst hall =>
            refine ⟨a, front₁, fronts.flatten, List.flatten_cons, hfirst, ?_⟩
            exact (fromFront_repeated h n).parses_map.mpr
              ⟨more, ih.mpr ⟨Nat.succ.inj hlength, fronts, rfl, hall⟩, rfl⟩

end Reader

/-! ## Property values -/

/-- The bytes of a value of a data type, and the value. -/
inductive IsValue (kind : UInt16) : Bytes → PropValue → Prop
  | byte (hkind : kind = DataType.int8 ∨ kind = DataType.uint8) (v : UInt8) :
      IsValue kind [v] (.number v.toNat)
  | half (hkind : kind = DataType.int16 ∨ kind = DataType.uint16) (v : UInt16) :
      IsValue kind (le16 v) (.number v.toNat)
  | word (hkind : kind = DataType.int32 ∨ kind = DataType.uint32) (v : UInt32) :
      IsValue kind (le32 v) (.number v.toNat)
  | long (hkind : kind = DataType.int64 ∨ kind = DataType.uint64) {v : Nat} (hv : v < 2 ^ 64) :
      IsValue kind (le64 v) (.number v)
  | wide (hkind : kind = DataType.int128 ∨ kind = DataType.uint128) {bytes : Bytes}
      (hlength : bytes.length = 16) : IsValue kind bytes .wide
  | text (hkind : kind = DataType.str) {bytes : Bytes} {s : Str}
      (hstring : Reader.IsString bytes s) : IsValue kind bytes (.text s)

/-- An element of a property list. -/
inductive IsElement : Bytes → PropEntry → Prop
  | mk (handle : UInt32) (code kind : UInt16) {bytes : Bytes} {value : PropValue}
      (hvalue : IsValue kind bytes value) :
      IsElement (le32 handle ++ (le16 code ++ (le16 kind ++ bytes))) ⟨handle, code, value⟩

/-- A count, so many elements, and any bytes. -/
def IsPropList (data : Bytes) (es : List PropEntry) : Prop :=
  ∃ (count : UInt32) (fronts : List Bytes) (rest : Bytes),
    data = le32 count ++ fronts.flatten ++ rest ∧ es.length = count.toNat ∧
      List.Forall₂ IsElement fronts es

section

variable {front data : Bytes} {kind : UInt16} {value : PropValue} {e : PropEntry}
  {es : List PropEntry}

theorem fromFront_readPropValue (kind : UInt16) : FromFront (readPropValue kind) := by
  unfold readPropValue
  split
  · exact (Reader.fromFront_readU8 _).map _
  split
  · exact (Reader.fromFront_readU16 _).map _
  split
  · exact (Reader.fromFront_readU32 _).map _
  split
  · exact (Reader.fromFront_readU64 _).map _
  split
  · exact (Reader.fromFront_take _ _).map _
  split
  · exact (Reader.fromFront_readString _).map _
  · exact .fail _

/-- **A value is read in the width of its type.** -/
theorem parses_readPropValue : Parses (readPropValue kind) front value ↔ IsValue kind front value := by
  constructor
  · intro hparses
    unfold readPropValue at hparses
    split at hparses
    · obtain ⟨v, hv, rfl⟩ := (Reader.fromFront_readU8 _).parses_map.mp hparses
      rw [Reader.parses_readU8.mp hv]
      exact .byte ‹_› v
    split at hparses
    · obtain ⟨v, hv, rfl⟩ := (Reader.fromFront_readU16 _).parses_map.mp hparses
      rw [Reader.parses_readU16.mp hv]
      exact .half ‹_› v
    split at hparses
    · obtain ⟨v, hv, rfl⟩ := (Reader.fromFront_readU32 _).parses_map.mp hparses
      rw [Reader.parses_readU32.mp hv]
      exact .word ‹_› v
    split at hparses
    · obtain ⟨v, hv, rfl⟩ := (Reader.fromFront_readU64 _).parses_map.mp hparses
      obtain ⟨hfront, hlt⟩ := Reader.parses_readU64.mp hv
      rw [hfront]
      exact .long ‹_› hlt
    split at hparses
    · obtain ⟨v, hv, rfl⟩ := (Reader.fromFront_take _ _).parses_map.mp hparses
      exact .wide ‹_› (Reader.parses_take.mp hv).1
    split at hparses
    · obtain ⟨s, hs, rfl⟩ := (Reader.fromFront_readString _).parses_map.mp hparses
      exact .text ‹_› (Reader.parses_readString.mp hs)
    · cases hparses []
  · intro hvalue
    unfold readPropValue
    cases hvalue with
    | byte hkind v =>
        rw [if_pos hkind, (Reader.fromFront_readU8 _).parses_map]
        exact ⟨v, Reader.parses_readU8.mpr rfl, rfl⟩
    | half hkind v =>
        rw [if_neg (by rcases hkind with rfl | rfl <;> decide), if_pos hkind,
          (Reader.fromFront_readU16 _).parses_map]
        exact ⟨v, Reader.parses_readU16.mpr rfl, rfl⟩
    | word hkind v =>
        rw [if_neg (by rcases hkind with rfl | rfl <;> decide),
          if_neg (by rcases hkind with rfl | rfl <;> decide), if_pos hkind,
          (Reader.fromFront_readU32 _).parses_map]
        exact ⟨v, Reader.parses_readU32.mpr rfl, rfl⟩
    | long hkind hv =>
        rw [if_neg (by rcases hkind with rfl | rfl <;> decide),
          if_neg (by rcases hkind with rfl | rfl <;> decide),
          if_neg (by rcases hkind with rfl | rfl <;> decide), if_pos hkind,
          (Reader.fromFront_readU64 _).parses_map]
        exact ⟨_, Reader.parses_readU64.mpr ⟨rfl, hv⟩, rfl⟩
    | wide hkind hlength =>
        rw [if_neg (by rcases hkind with rfl | rfl <;> decide),
          if_neg (by rcases hkind with rfl | rfl <;> decide),
          if_neg (by rcases hkind with rfl | rfl <;> decide),
          if_neg (by rcases hkind with rfl | rfl <;> decide), if_pos hkind,
          (Reader.fromFront_take _ _).parses_map]
        exact ⟨front, Reader.parses_take.mpr ⟨hlength, rfl⟩, rfl⟩
    | text hkind hstring =>
        rw [if_neg (by rw [hkind]; decide), if_neg (by rw [hkind]; decide),
          if_neg (by rw [hkind]; decide), if_neg (by rw [hkind]; decide),
          if_neg (by rw [hkind]; decide), if_pos hkind,
          (Reader.fromFront_readString _).parses_map]
        exact ⟨_, Reader.parses_readString.mpr hstring, rfl⟩

/-! ## Elements -/

theorem fromFront_readPropEntry : FromFront readPropEntry :=
  (Reader.fromFront_readU32 _).bind fun _ => (Reader.fromFront_readU16 _).bind fun _ =>
    (Reader.fromFront_readU16 _).bind fun kind => (fromFront_readPropValue kind).map _

/-- One element of a property list. -/
theorem parses_readPropEntry : Parses readPropEntry front e ↔ IsElement front e := by
  constructor
  · intro hparses
    obtain ⟨handle, front₁, rest₁, rfl, hhandle, hparses⟩ :=
      ((Reader.fromFront_readU32 _).parses_bind fun _ => (Reader.fromFront_readU16 _).bind fun _ =>
        (Reader.fromFront_readU16 _).bind fun kind => (fromFront_readPropValue kind).map _).mp hparses
    obtain ⟨code, front₂, rest₂, rfl, hcode, hparses⟩ :=
      ((Reader.fromFront_readU16 _).parses_bind fun _ =>
        (Reader.fromFront_readU16 _).bind fun kind => (fromFront_readPropValue kind).map _).mp hparses
    obtain ⟨kind, front₃, rest₃, rfl, hkind, hparses⟩ :=
      ((Reader.fromFront_readU16 _).parses_bind fun kind =>
        (fromFront_readPropValue kind).map _).mp hparses
    obtain ⟨value, hvalue, rfl⟩ := (fromFront_readPropValue kind).parses_map.mp hparses
    rw [Reader.parses_readU32.mp hhandle, Reader.parses_readU16.mp hcode,
      Reader.parses_readU16.mp hkind]
    exact .mk handle code kind (parses_readPropValue.mp hvalue)
  · intro helement
    cases helement with
    | mk handle code kind hvalue =>
        refine (Reader.parses_readU32.mpr rfl).bind ?_
        refine (Reader.parses_readU16.mpr rfl).bind ?_
        refine (Reader.parses_readU16.mpr rfl).bind ?_
        exact (fromFront_readPropValue kind).parses_map.mpr
          ⟨_, parses_readPropValue.mpr hvalue, rfl⟩

/-- No element is shorter than the handle, the code, the type and one byte. -/
theorem IsElement.length (h : IsElement front e) : 9 ≤ front.length := by
  cases h with
  | mk handle code kind hvalue =>
      have hone : ∀ {bytes : Bytes} {value : PropValue}, IsValue kind bytes value →
          1 ≤ bytes.length := by
        intro bytes value hvalue
        cases hvalue with
        | byte => exact Nat.le_refl 1
        | half => rw [length_le16]; omega
        | word => rw [length_le32]; omega
        | long => rw [length_le64]; omega
        | wide hkind hlength => omega
        | text hkind hstring =>
            cases hstring with
            | empty => exact Nat.le_refl 1
            | units => rw [List.length_cons]; omega
      have hbytes := hone hvalue
      simp only [List.length_append, length_le16, length_le32]
      omega

/-! ## The list -/

/-- **The parser accepts the grammar.** -/
theorem parseObjectPropList_iff : parseObjectPropList data = .ok es ↔ IsPropList data es := by
  have hlist : FromFront (do
      let count ← Reader.readU32 "prop_list_count"
      Reader.repeated readPropEntry count.toNat : Reader (List PropEntry)) :=
    (Reader.fromFront_readU32 _).bind fun count =>
      Reader.fromFront_repeated fromFront_readPropEntry count.toNat
  constructor
  · intro hrun
    unfold parseObjectPropList at hrun
    generalize hafter : (do
      let count ← Reader.readU32 "prop_list_count"
      Reader.repeated readPropEntry count.toNat : Reader (List PropEntry)) data = after at hrun
    obtain ⟨answer, rest⟩ := after
    cases hrun
    obtain ⟨front, rfl, hparses⟩ := hlist.ok_iff.mp hafter
    obtain ⟨count, front₁, front₂, rfl, hcount, hmany⟩ :=
      ((Reader.fromFront_readU32 _).parses_bind fun count =>
        Reader.fromFront_repeated fromFront_readPropEntry count.toNat).mp hparses
    obtain ⟨hlength, fronts, rfl, hall⟩ := (Reader.parses_repeated fromFront_readPropEntry).mp hmany
    rw [Reader.parses_readU32.mp hcount]
    exact ⟨count, fronts, rest, rfl, hlength, hall.imp fun _ _ => parses_readPropEntry.mp⟩
  · rintro ⟨count, fronts, rest, rfl, hlength, hall⟩
    have hmany := (Reader.parses_repeated fromFront_readPropEntry).mpr
      ⟨hlength, fronts, rfl, hall.imp fun _ _ => parses_readPropEntry.mpr⟩
    have hparses := Parses.bind (f := fun count : UInt32 =>
      Reader.repeated readPropEntry count.toNat)
      ((@Reader.parses_readU32 "prop_list_count" _ count).mpr rfl) hmany
    exact congrArg Prod.fst (hparses rest)

/-- The bytes that follow the count bound the count. -/
theorem IsPropList.length_le (h : IsPropList data es) : es.length ≤ (data.length - 4) / 9 := by
  obtain ⟨count, fronts, rest, rfl, -, hall⟩ := h
  have hsum : 9 * es.length ≤ fronts.flatten.length := by
    clear * - hall
    induction hall with
    | nil => exact Nat.le_refl 0
    | cons helement _ ih =>
        have hnine := helement.length
        rw [List.length_cons, List.flatten_cons, List.length_append]
        omega
  simp only [List.length_append, length_le32]
  omega

end

/-! ## Typed elements -/

/-- A value of each data type. -/
inductive TypedValue where
  | byte (signed : Bool) (v : UInt8)
  | half (signed : Bool) (v : UInt16)
  | word (signed : Bool) (v : UInt32)
  | long (signed : Bool) (v : UInt64)
  | wide (signed : Bool) (low high : UInt64)
  | text (s : Str) (fits : (Utf16.encode s).length ≤ 254)

namespace TypedValue

/-- The code of the data type. -/
def kind : TypedValue → UInt16
  | byte signed _ => if signed then DataType.int8 else DataType.uint8
  | half signed _ => if signed then DataType.int16 else DataType.uint16
  | word signed _ => if signed then DataType.int32 else DataType.uint32
  | long signed _ => if signed then DataType.int64 else DataType.uint64
  | wide signed _ _ => if signed then DataType.int128 else DataType.uint128
  | text _ _ => DataType.str

/-- The bytes of the value. -/
def encode : TypedValue → Bytes
  | byte _ v => [v]
  | half _ v => le16 v
  | word _ v => le32 v
  | long _ v => le64 v.toNat
  | wide _ low high => le64 low.toNat ++ le64 high.toNat
  | text s _ => pushString s

/-- What the parser keeps of the value. -/
def value : TypedValue → PropValue
  | byte _ v => .number v.toNat
  | half _ v => .number v.toNat
  | word _ v => .number v.toNat
  | long _ v => .number v.toNat
  | wide _ _ _ => .wide
  | text s _ => .text s

theorem isValue (v : TypedValue) : IsValue v.kind v.encode v.value := by
  have hkind : ∀ (signed : Bool) (a b : UInt16), (if signed then a else b) = a ∨
      (if signed then a else b) = b := by
    intro signed a b
    cases signed
    · exact .inr rfl
    · exact .inl rfl
  cases v with
  | byte signed v => exact .byte (hkind signed _ _) v
  | half signed v => exact .half (hkind signed _ _) v
  | word signed v => exact .word (hkind signed _ _) v
  | long signed v => exact .long (hkind signed _ _) v.toNat_lt
  | wide signed low high =>
      refine .wide (hkind signed _ _) ?_
      rw [encode, List.length_append, length_le64, length_le64]
  | text s fits =>
      refine .text rfl ((@Reader.parses_readString "prop_str" _ _).mp fun rest => ?_)
      rw [encode, Reader.readString_pushString, Utf16.fit_eq_self fits]

end TypedValue

/-- An element with a typed value. -/
structure TypedElement where
  handle : UInt32
  code : UInt16
  value : TypedValue

namespace TypedElement

def encode (e : TypedElement) : Bytes :=
  le32 e.handle ++ (le16 e.code ++ (le16 e.value.kind ++ e.value.encode))

def entry (e : TypedElement) : PropEntry := ⟨e.handle, e.code, e.value.value⟩

theorem isElement (e : TypedElement) : IsElement e.encode e.entry :=
  .mk e.handle e.code e.value.kind e.value.isValue

end TypedElement

/-- A property list of typed elements. -/
def encodePropList (es : List TypedElement) : Bytes :=
  le32 (UInt32.ofNat es.length) ++ es.flatMap TypedElement.encode

/-- A property list that is built is one, whatever follows it. -/
theorem isPropList_encode {es : List TypedElement} (h : es.length < 2 ^ 32) (rest : Bytes) :
    IsPropList (encodePropList es ++ rest) (es.map TypedElement.entry) := by
  refine ⟨UInt32.ofNat es.length, es.map TypedElement.encode, rest, ?_, ?_, ?_⟩
  · rw [encodePropList, List.flatMap_def]
  · rw [List.length_map, UInt32.toNat_ofNat_of_lt' h]
  · rw [List.forall₂_map_left_iff, List.forall₂_map_right_iff, List.forall₂_same]
    exact fun e _ => e.isElement

/-- **The property-list parser accepts exactly the grammar**, with at most as many elements as
the bytes can hold, and gives back each list of typed elements that was encoded. -/
theorem parse_prop_list_exact :
    (∀ data es, parseObjectPropList data = .ok es ↔ IsPropList data es) ∧
    (∀ data es, parseObjectPropList data = .ok es → es.length ≤ (data.length - 4) / 9) ∧
    ∀ (es : List TypedElement) (rest : Bytes), es.length < 2 ^ 32 →
      parseObjectPropList (encodePropList es ++ rest) = .ok (es.map TypedElement.entry) :=
  ⟨fun _ _ => parseObjectPropList_iff, fun _ _ h => (parseObjectPropList_iff.mp h).length_le,
    fun _ rest h => parseObjectPropList_iff.mpr (isPropList_encode h rest)⟩

/-- A name and a size of 64 bits, with a byte behind them. -/
theorem parse_prop_list_two :
    parseObjectPropList (encodePropList
      [⟨1, Property.objectFileName, .text ['a'] (by decide)⟩,
        ⟨1, Property.objectSize, .long false 3⟩] ++ [9]) =
      .ok [⟨1, Property.objectFileName, .text ['a']⟩, ⟨1, Property.objectSize, .number 3⟩] :=
  parse_prop_list_exact.2.2 _ [9] (by decide)

end Bsdroid
