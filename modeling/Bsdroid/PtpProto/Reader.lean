import Bsdroid.Lib.Proc
import Bsdroid.Lib.Utf16
import Bsdroid.PtpProto.Container

/-!
# The cursor that reads fields

A `Reader` takes the bytes that remain and gives a value or a fault, with the
bytes that remain then.  A fault keeps the position it happened at, so a caller
that goes on after one (`orDefault`) reads from there.

Strings are UTF-16 with a count in front.  `pushString` writes one, and cuts a
text the count byte cannot hold; `readString_pushString` reads back the longest
prefix of whole characters that fits.
-/

namespace Bsdroid

open Proc

/-- A read from the cursor: the bytes that remain are the state. -/
abbrev Reader : Type → Type := Proc ParseError Bytes

namespace Reader

/-- Gives a default in place of a fault, and goes on where the fault happened. -/
def orDefault {α : Type} (r : Reader α) (d : α) : Reader α := fun rest =>
  match r rest with
  | (.ok a, rest) => (.ok a, rest)
  | (.error _, rest) => (.ok d, rest)

/-- Takes `n` bytes, or reports how many bytes remain. -/
def take (n : Nat) (field : String) : Reader Bytes := fun rest =>
  if rest.length < n then (.error (.truncated field n rest.length), rest)
  else (.ok (rest.take n), rest.drop n)

def readU8 (field : String) : Reader UInt8 := do
  let b ← take 1 field
  pure (b.headD 0)

def readU16 (field : String) : Reader UInt16 := do
  let b ← take 2 field
  pure (fromLe16 b)

def readU32 (field : String) : Reader UInt32 := do
  let b ← take 4 field
  pure (fromLe32 b)

def readU64 (field : String) : Reader Nat := do
  let b ← take 8 field
  pure (LittleEndian.decode b)

/-- The code units of a buffer, in whole pairs of bytes. -/
def unitsOf : Bytes → List Nat
  | a :: b :: rest => LittleEndian.decode [a, b] :: unitsOf rest
  | _ => []

/-- Reads a PTP string. -/
def readString (field : String) : Reader Str := do
  let count ← readU8 field
  if count = 0 then pure []
  else
    let bytes ← take (count.toNat * 2) field
    let units := unitsOf bytes
    let units := if units.getLast? = some 0 then units.dropLast else units
    match Utf16.decode units with
    | some s => pure s
    | none => fail (.badString field)

/-- Reads elements one after the other. -/
def repeated {α : Type} (read : Reader α) : Nat → Reader (List α)
  | 0 => pure []
  | n + 1 => do
      let a ← read
      let rest ← repeated read n
      pure (a :: rest)

/-- Reads a PTP array.  The count meets the bytes that remain before the first
element is read. -/
def readArray {α : Type} (field : String) (width : Nat) (read : String → Reader α) :
    Reader (List α) := do
  let count ← readU32 field
  let need := count.toNat * width
  fun rest =>
    if rest.length < need then (.error (.truncated field need rest.length), rest)
    else repeated (read field) count.toNat rest

def readU16Array (field : String) : Reader (List UInt16) := readArray field 2 readU16

def readU32Array (field : String) : Reader (List UInt32) := readArray field 4 readU32

end Reader

/-- Reads a PTP array of `u32` from the payload of a data container. -/
def parseU32Array (data : Bytes) : Except ParseError (List UInt32) :=
  (Reader.readU32Array "array" data).1

/-- Writes a PTP string into a buffer.  A text of more than 254 code units does
not fit the count byte, and it is cut between two characters. -/
def pushString (s : Str) : Bytes :=
  if s = [] then [0]
  else
    let units := Utf16.cut 254 (Utf16.encode s)
    UInt8.ofNat (units.length + 1) :: units.flatMap (LittleEndian.encode 2) ++
      LittleEndian.encode 2 0

namespace Reader

/-! ## What a read gives for the bytes a writer put there -/

theorem take_append {a : Bytes} {n : Nat} (h : a.length = n) (field : String)
    (rest : Bytes) : take n field (a ++ rest) = (.ok a, rest) := by
  subst h
  simp [take]

theorem readU8_cons (field : String) (b : UInt8) (rest : Bytes) :
    readU8 field (b :: rest) = (.ok b, rest) :=
  bind_ok (take_append (a := [b]) rfl field rest)

theorem readU16_le16 (field : String) (v : UInt16) (rest : Bytes) :
    readU16 field (le16 v ++ rest) = (.ok v, rest) := by
  rw [readU16, bind_ok (take_append (length_le16 v) field rest), pure_run, fromLe16_le16]

theorem readU32_le32 (field : String) (v : UInt32) (rest : Bytes) :
    readU32 field (le32 v ++ rest) = (.ok v, rest) := by
  rw [readU32, bind_ok (take_append (length_le32 v) field rest), pure_run, fromLe32_le32]

theorem readU64_le64 (field : String) {v : Nat} (h : v < 2 ^ 64) (rest : Bytes) :
    readU64 field (le64 v ++ rest) = (.ok v, rest) := by
  rw [readU64, bind_ok (take_append (length_le64 v) field rest), pure_run, le64,
    LittleEndian.decode_encode_of_lt h]

theorem unitsOf_flatMap (us : List Nat) (h : ∀ u ∈ us, u < 65536) :
    unitsOf (us.flatMap (LittleEndian.encode 2)) = us := by
  induction us with
  | nil => rfl
  | cons u us ih =>
      have htwo : LittleEndian.encode 2 u = [UInt8.ofNat u, UInt8.ofNat (u / 256)] := rfl
      have hu : LittleEndian.decode [UInt8.ofNat u, UInt8.ofNat (u / 256)] = u := by
        rw [← htwo, LittleEndian.decode_encode_of_lt (h u List.mem_cons_self)]
      rw [List.flatMap_cons, htwo]
      simp only [List.cons_append, List.nil_append, unitsOf, hu]
      rw [ih fun v hv => h v (List.mem_cons_of_mem _ hv)]

/-- The code units of a text, a terminator behind them and a count in front
read back as the text. -/
theorem readString_units (field : String) (s : Str) (rest : Bytes)
    (h : (Utf16.encode s).length ≤ 254) :
    readString field (UInt8.ofNat ((Utf16.encode s).length + 1) ::
      ((Utf16.encode s).flatMap (LittleEndian.encode 2) ++ LittleEndian.encode 2 0) ++
        rest) = (.ok s, rest) := by
  have hcount : (UInt8.ofNat ((Utf16.encode s).length + 1)).toNat =
      (Utf16.encode s).length + 1 := UInt8.toNat_ofNat_of_lt' (by
        rw [UInt8.size]; omega)
  have hne : UInt8.ofNat ((Utf16.encode s).length + 1) ≠ 0 := by
    intro h0
    rw [h0] at hcount
    simp at hcount
  have hbytes : (Utf16.encode s).flatMap (LittleEndian.encode 2) ++ LittleEndian.encode 2 0 =
      (Utf16.encode s ++ [0]).flatMap (LittleEndian.encode 2) := by
    rw [List.flatMap_append]; rfl
  have hsize : ((Utf16.encode s ++ [0]).flatMap (LittleEndian.encode 2)).length =
      ((Utf16.encode s).length + 1) * 2 := by
    simp [List.length_flatMap]
    omega
  have hunits : unitsOf ((Utf16.encode s ++ [0]).flatMap (LittleEndian.encode 2)) =
      Utf16.encode s ++ [0] := by
    apply unitsOf_flatMap
    intro u hu
    rcases List.mem_append.mp hu with hu | hu
    · exact Utf16.lt_of_mem_encode hu
    · rw [List.mem_singleton.mp hu]; decide
  rw [hbytes, List.cons_append, readString, bind_ok (readU8_cons field _ _)]
  rw [if_neg hne, hcount, bind_ok (take_append hsize field rest)]
  simp only [hunits, List.getLast?_append, List.getLast?_singleton, Option.some_or,
    if_true, List.dropLast_concat, Utf16.decode_encode]
  rfl

/-- **A string round trip.**  What comes back is the longest prefix of whole
characters that takes at most 254 code units. -/
theorem readString_pushString (field : String) (s : Str) (rest : Bytes) :
    readString field (pushString s ++ rest) = (.ok (Utf16.fit 254 s), rest) := by
  unfold pushString
  split
  · rename_i hnil
    subst hnil
    rw [List.cons_append, List.nil_append, readString, bind_ok (readU8_cons field 0 rest)]
    rfl
  · rw [Utf16.cut_encode, List.cons_append]
    exact readString_units field _ rest (Utf16.length_encode_fit_le 254 s)

/-- Elements written one after the other read back in order. -/
theorem repeated_flatMap {α β : Type} {read : Reader β} {encode : α → Bytes} {value : α → β}
    {xs : List α} (h : ∀ x ∈ xs, ∀ rest, read (encode x ++ rest) = (.ok (value x), rest))
    (rest : Bytes) :
    repeated read xs.length (xs.flatMap encode ++ rest) = (.ok (xs.map value), rest) := by
  induction xs with
  | nil => rfl
  | cons x xs ih =>
      rw [List.length_cons, List.flatMap_cons, List.append_assoc, repeated,
        bind_ok (h x List.mem_cons_self _),
        bind_ok (ih fun y hy => h y (List.mem_cons_of_mem _ hy))]
      rfl

end Reader

end Bsdroid
