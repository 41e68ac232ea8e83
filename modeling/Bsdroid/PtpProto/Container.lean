import Bsdroid.Lib.LittleEndian

/-!
# Containers on the wire

A container is the unit of transfer: a header of 12 bytes and a payload.  The
length field counts the header, so the largest payload is 12 bytes below
`2 ^ 32`.  `Header.parse` reads a header alone, because the first transfer of a
large data phase does not hold the whole container, and `Container.parse` adds
the check of the length field against the buffer.
-/

namespace Bsdroid

abbrev Bytes := List UInt8

/-- A text, as the scalar values it holds. -/
abbrev Str := List Char

/-- The size of a container header, in bytes. -/
def headerLen : Nat := 12

/-- A fault in a byte buffer that holds PTP data. -/
inductive ParseError where
  | shortHeader (got : Nat)
  | lengthMismatch (declared : UInt32) (available : Nat)
  | unknownContainerType (value : UInt16)
  | truncated (field : String) (need got : Nat)
  | badString (field : String)
  | unsupported (field : String) (value : UInt32)
deriving DecidableEq, Repr

/-- The kind of a container. -/
inductive ContainerType where
  | command
  | data
  | response
  | event
deriving DecidableEq, Repr

/-- Converts the wire value to a container type. -/
def ContainerType.fromWire (v : UInt16) : Except ParseError ContainerType :=
  if v = 1 then .ok .command
  else if v = 2 then .ok .data
  else if v = 3 then .ok .response
  else if v = 4 then .ok .event
  else .error (.unknownContainerType v)

/-- Converts the container type to the wire value. -/
def ContainerType.toWire : ContainerType → UInt16
  | .command => 1
  | .data => 2
  | .response => 3
  | .event => 4

theorem ContainerType.fromWire_toWire (t : ContainerType) :
    fromWire t.toWire = .ok t := by
  cases t <;> rfl

/-- A `u16` field. -/
def le16 (v : UInt16) : Bytes := LittleEndian.encode 2 v.toNat

/-- A `u32` field. -/
def le32 (v : UInt32) : Bytes := LittleEndian.encode 4 v.toNat

/-- A `u64` field. -/
def le64 (v : Nat) : Bytes := LittleEndian.encode 8 v

/-- Reads a `u16` field. -/
def fromLe16 (b : Bytes) : UInt16 := UInt16.ofNat (LittleEndian.decode b)

/-- Reads a `u32` field. -/
def fromLe32 (b : Bytes) : UInt32 := UInt32.ofNat (LittleEndian.decode b)

@[simp] theorem length_le16 (v : UInt16) : (le16 v).length = 2 :=
  LittleEndian.length_encode _ _

@[simp] theorem length_le32 (v : UInt32) : (le32 v).length = 4 :=
  LittleEndian.length_encode _ _

@[simp] theorem length_le64 (v : Nat) : (le64 v).length = 8 :=
  LittleEndian.length_encode _ _

@[simp] theorem fromLe16_le16 (v : UInt16) : fromLe16 (le16 v) = v := by
  rw [fromLe16, le16, LittleEndian.decode_encode_of_lt v.toNat_lt, UInt16.ofNat_toNat]

@[simp] theorem fromLe32_le32 (v : UInt32) : fromLe32 (le32 v) = v := by
  rw [fromLe32, le32, LittleEndian.decode_encode_of_lt v.toNat_lt, UInt32.ofNat_toNat]

/-- Two bytes are the field of the value they hold. -/
theorem le16_fromLe16 {b : Bytes} (h : b.length = 2) : le16 (fromLe16 b) = b := by
  have hvalue : (fromLe16 b).toNat = LittleEndian.decode b := by
    refine UInt16.toNat_ofNat_of_lt' ?_
    have hlt := LittleEndian.decode_lt b
    rw [h] at hlt
    exact hlt
  rw [le16, hvalue, ← h, LittleEndian.encode_decode]

/-- Four bytes are the field of the value they hold. -/
theorem le32_fromLe32 {b : Bytes} (h : b.length = 4) : le32 (fromLe32 b) = b := by
  have hvalue : (fromLe32 b).toNat = LittleEndian.decode b := by
    refine UInt32.toNat_ofNat_of_lt' ?_
    have hlt := LittleEndian.decode_lt b
    rw [h] at hlt
    exact hlt
  rw [le32, hvalue, ← h, LittleEndian.encode_decode]

/-- The header of a container, with no payload. -/
structure Header where
  length : UInt32
  kind : ContainerType
  code : UInt16
  transactionId : UInt32
deriving DecidableEq, Repr

/-- Reads a header from the first 12 bytes of a buffer. -/
def Header.parse (buf : Bytes) : Except ParseError Header :=
  if buf.length < headerLen then .error (.shortHeader buf.length)
  else
    match ContainerType.fromWire (fromLe16 ((buf.drop 4).take 2)) with
    | .error e => .error e
    | .ok kind => .ok {
        length := fromLe32 (buf.take 4)
        kind := kind
        code := fromLe16 ((buf.drop 6).take 2)
        transactionId := fromLe32 ((buf.drop 8).take 4) }

/-- The count of payload bytes the container holds. -/
def Header.payloadLen (h : Header) : Nat := h.length.toNat - headerLen

/-- A container, which is the unit of transfer on the wire. -/
structure Container where
  length : UInt32
  kind : ContainerType
  code : UInt16
  transactionId : UInt32
  payload : Bytes
deriving DecidableEq, Repr

/-- Reads a container from a byte buffer. -/
def Container.parse (buf : Bytes) : Except ParseError Container :=
  match Header.parse buf with
  | .error e => .error e
  | .ok h =>
      let declared := h.length.toNat
      if declared < headerLen ∨ buf.length < declared then
        .error (.lengthMismatch h.length buf.length)
      else .ok {
        length := h.length
        kind := h.kind
        code := h.code
        transactionId := h.transactionId
        payload := (buf.take declared).drop headerLen }

/-- The `u32` values of a buffer, in whole groups of four bytes. -/
def wordsOf : Bytes → List UInt32
  | a :: b :: c :: d :: rest => fromLe32 [a, b, c, d] :: wordsOf rest
  | _ => []

/-- Reads the payload as the parameters of a command or a response. -/
def Container.parameters (c : Container) : List UInt32 := wordsOf c.payload

/-- The largest payload one container carries, in bytes. -/
def maxPayloadLen : Nat := 4294967295 - headerLen

/-- The largest count of parameters a command container carries. -/
def maxParams : Nat := 5

/-- A payload that does not fit the length field of a container. -/
structure PayloadTooLarge where
  len : Nat
deriving DecidableEq, Repr

/-- Gives the value of the length field for a payload of this size. -/
def containerLength (payloadLen : Nat) : Except PayloadTooLarge UInt32 :=
  if payloadLen > maxPayloadLen then .error ⟨payloadLen⟩
  else .ok (UInt32.ofNat (headerLen + payloadLen))

/-- Writes the 12 byte header of a container. -/
def pushHeader (length : UInt32) (kind : ContainerType) (code : UInt16)
    (transactionId : UInt32) : Bytes :=
  le32 length ++ le16 kind.toWire ++ le16 code ++ le32 transactionId

/-- Builds a container for the wire. -/
def build (kind : ContainerType) (code : UInt16) (transactionId : UInt32)
    (payload : Bytes) : Except PayloadTooLarge Bytes :=
  match containerLength payload.length with
  | .error e => .error e
  | .ok length => .ok (pushHeader length kind code transactionId ++ payload)

/-- Builds the header of a data container whose payload follows. -/
def buildDataHeader (code : UInt16) (transactionId : UInt32) (payloadLen : Nat) :
    Except PayloadTooLarge Bytes :=
  match containerLength payloadLen with
  | .error e => .error e
  | .ok length => .ok (pushHeader length .data code transactionId)

/-- Builds a command container with `u32` parameters. -/
def buildCommand (code : UInt16) (transactionId : UInt32) (params : List UInt32) : Bytes :=
  let take := min params.length maxParams
  pushHeader (UInt32.ofNat (headerLen + take * 4)) .command code transactionId ++
    (params.take take).flatMap le32

@[simp] theorem length_pushHeader (length : UInt32) (kind : ContainerType)
    (code : UInt16) (tid : UInt32) : (pushHeader length kind code tid).length = 12 := by
  simp [pushHeader]

/-- A header parses from the bytes `pushHeader` writes, whatever follows. -/
theorem Header.parse_pushHeader (length : UInt32) (kind : ContainerType)
    (code : UInt16) (tid : UInt32) (rest : Bytes) :
    Header.parse (pushHeader length kind code tid ++ rest) =
      .ok ⟨length, kind, code, tid⟩ := by
  have hsize : ¬ (pushHeader length kind code tid ++ rest).length < headerLen := by
    simp [headerLen]
  have h0 : (pushHeader length kind code tid ++ rest).take 4 = le32 length := by
    simp [pushHeader]
  have h4 : ((pushHeader length kind code tid ++ rest).drop 4).take 2 =
      le16 kind.toWire := by
    simp [pushHeader]
  have h6 : ((pushHeader length kind code tid ++ rest).drop 6).take 2 = le16 code := by
    simp [pushHeader, List.drop_append, List.drop_of_length_le]
  have h8 : ((pushHeader length kind code tid ++ rest).drop 8).take 4 = le32 tid := by
    simp [pushHeader, List.drop_append, List.drop_of_length_le]
  simp only [Header.parse, hsize, if_false, h0, h4, h6, h8, fromLe16_le16, fromLe32_le32,
    ContainerType.fromWire_toWire]

/-- A built container parses to its fields, whatever bytes follow it. -/
theorem Container.parse_build {kind : ContainerType} {code : UInt16} {tid : UInt32}
    {payload bytes : Bytes} (h : build kind code tid payload = .ok bytes) (rest : Bytes) :
    Container.parse (bytes ++ rest) =
      .ok ⟨UInt32.ofNat (headerLen + payload.length), kind, code, tid, payload⟩ := by
  unfold build containerLength at h
  by_cases hbig : payload.length > maxPayloadLen
  · simp [hbig] at h
  · simp only [hbig, if_false, Except.ok.injEq] at h
    have hlen : headerLen + payload.length < 2 ^ 32 := by
      unfold maxPayloadLen headerLen at *; omega
    have hdeclared : (UInt32.ofNat (headerLen + payload.length)).toNat =
        headerLen + payload.length := UInt32.toNat_ofNat_of_lt' hlen
    subst h
    rw [List.append_assoc]
    unfold Container.parse
    rw [Header.parse_pushHeader]
    have hfits : ¬ (headerLen + payload.length < headerLen ∨
        (pushHeader (UInt32.ofNat (headerLen + payload.length)) kind code tid ++
          (payload ++ rest)).length < headerLen + payload.length) := by
      simp [headerLen]
    simp only [hdeclared, hfits, if_false]
    have hpayload : ((pushHeader (UInt32.ofNat (headerLen + payload.length)) kind code tid ++
        (payload ++ rest)).take (headerLen + payload.length)).drop headerLen = payload := by
      rw [List.take_append, List.drop_append]
      simp [headerLen]
    rw [hpayload]

/-- A word list reads back from its fields. -/
theorem wordsOf_flatMap (ws : List UInt32) : wordsOf (ws.flatMap le32) = ws := by
  induction ws with
  | nil => rfl
  | cons w ws ih =>
      have hfour : ∃ a b c d, le32 w = [a, b, c, d] := ⟨_, _, _, _, rfl⟩
      obtain ⟨a, b, c, d, habcd⟩ := hfour
      have hw : fromLe32 [a, b, c, d] = w := by rw [← habcd, fromLe32_le32]
      rw [List.flatMap_cons, habcd]
      simp only [List.cons_append, List.nil_append, wordsOf, hw, ih]

end Bsdroid
