import Bsdroid.PtpProto.Datasets

/-!
# What is built parses back

`Container.parse` accepts exactly the buffers that start with what `build` writes, and the
three builders write the same framing (`Container.framing_exact`).  An `ObjectInfo` dataset
comes back with each field the host set, and with as much of the name as the count byte
holds (`ObjectInfo.round_trip`).
-/

namespace Bsdroid

/-! ## Containers -/

theorem ContainerType.toWire_of_fromWire {v : UInt16} {kind : ContainerType}
    (h : fromWire v = .ok kind) : kind.toWire = v := by
  unfold fromWire at h
  split at h
  · cases h
    exact (‹v = 1›).symm
  · split at h
    · cases h
      exact (‹v = 2›).symm
    · split at h
      · cases h
        exact (‹v = 3›).symm
      · split at h
        · cases h
          exact (‹v = 4›).symm
        · cases h

/-- A header that parses is the first 12 bytes of the buffer. -/
theorem Header.pushHeader_of_parse {buf : Bytes} {h : Header} (hparse : parse buf = .ok h) :
    headerLen ≤ buf.length ∧
      pushHeader h.length h.kind h.code h.transactionId = buf.take headerLen := by
  unfold parse at hparse
  split at hparse
  · cases hparse
  · rename_i hsize
    have hsize : headerLen ≤ buf.length := Nat.le_of_not_lt hsize
    split at hparse
    · cases hparse
    · rename_i kind hkind
      cases hparse
      refine ⟨hsize, ?_⟩
      have htwelve : 12 ≤ buf.length := hsize
      have h0 : (buf.take 4).length = 4 := by
        rw [List.length_take]
        omega
      have h4 : ((buf.drop 4).take 2).length = 2 := by
        rw [List.length_take, List.length_drop]
        omega
      have h6 : ((buf.drop 6).take 2).length = 2 := by
        rw [List.length_take, List.length_drop]
        omega
      have h8 : ((buf.drop 8).take 4).length = 4 := by
        rw [List.length_take, List.length_drop]
        omega
      -- The four fields stand one behind the other.
      have hfields : buf.take headerLen =
          buf.take 4 ++ (buf.drop 4).take 2 ++ (buf.drop 6).take 2 ++ (buf.drop 8).take 4 := by
        rw [show headerLen = 8 + 4 from rfl, List.take_add, show 8 = 6 + 2 from rfl, List.take_add,
          show 6 = 4 + 2 from rfl, List.take_add]
      rw [pushHeader, ContainerType.toWire_of_fromWire hkind, le32_fromLe32 h0, le16_fromLe16 h4,
        le16_fromLe16 h6, le32_fromLe32 h8, hfields]

/-- A payload that fits is built. -/
theorem build_of_le {kind : ContainerType} {code : UInt16} {tid : UInt32} {payload : Bytes}
    (h : payload.length ≤ maxPayloadLen) : build kind code tid payload =
      .ok (pushHeader (UInt32.ofNat (headerLen + payload.length)) kind code tid ++ payload) := by
  rw [build, containerLength, if_neg (Nat.not_lt_of_le h)]

/-- A container that parses is what the buffer starts with. -/
theorem Container.build_of_parse {b : Bytes} {c : Container} (hparse : parse b = .ok c) :
    (∃ bytes rest, build c.kind c.code c.transactionId c.payload = .ok bytes ∧
      b = bytes ++ rest) ∧ c.length.toNat = headerLen + c.payload.length := by
  unfold parse at hparse
  split at hparse
  · cases hparse
  · rename_i h hheader
    dsimp only at hparse
    split at hparse
    · cases hparse
    · rename_i hfits
      cases hparse
      dsimp only
      rw [not_or, Nat.not_lt, Nat.not_lt] at hfits
      obtain ⟨hlow, hhigh⟩ := hfits
      obtain ⟨-, hpush⟩ := Header.pushHeader_of_parse hheader
      have hpayload : ((b.take h.length.toNat).drop headerLen).length =
          h.length.toNat - headerLen := by
        rw [List.length_drop, List.length_take, Nat.min_eq_left hhigh]
      have hdeclared : h.length.toNat =
          headerLen + ((b.take h.length.toNat).drop headerLen).length := by
        omega
      have hmax : ((b.take h.length.toNat).drop headerLen).length ≤ maxPayloadLen := by
        have hlt := h.length.toNat_lt
        have hlimit : maxPayloadLen = 4294967283 := rfl
        have htwelve : headerLen = 12 := rfl
        omega
      refine ⟨⟨_, b.drop h.length.toNat, build_of_le hmax, ?_⟩, hdeclared⟩
      have hfield : UInt32.ofNat (headerLen + ((b.take h.length.toNat).drop headerLen).length) =
          h.length := by
        rw [← hdeclared, UInt32.ofNat_toNat]
      have hfront : b.take headerLen = (b.take h.length.toNat).take headerLen := by
        rw [List.take_take, Nat.min_eq_left hlow]
      rw [hfield, hpush, hfront, List.take_append_drop, List.take_append_drop]

/-- A command is framed as `build` frames its parameters. -/
theorem buildCommand_eq_build (code : UInt16) (tid : UInt32) {params : List UInt32}
    (h : params.length ≤ maxParams) :
    build .command code tid (params.flatMap le32) = .ok (buildCommand code tid params) := by
  have hwidth : (params.flatMap le32).length = params.length * 4 := by
    rw [List.length_flatMap]
    simp
  have hfive : maxParams = 5 := rfl
  have hmax : (params.flatMap le32).length ≤ maxPayloadLen := by
    have hlimit : maxPayloadLen = 4294967283 := rfl
    omega
  rw [build_of_le hmax, hwidth, buildCommand, Nat.min_eq_left h, List.take_length]

/-- **Container framing is exact.**  A buffer parses exactly when it starts with the bytes that
`build` gives for what was parsed, and then the length field counts them.  So a parse undoes
each build, a command of at most five parameters parses to them, and a data header followed by
its payload is the container of that payload. -/
theorem Container.framing_exact :
    (∀ b c, parse b = .ok c ↔
      (∃ bytes rest, build c.kind c.code c.transactionId c.payload = .ok bytes ∧
        b = bytes ++ rest) ∧ c.length.toNat = headerLen + c.payload.length) ∧
    (∀ kind code tid payload, payload.length ≤ maxPayloadLen →
      ∃ bytes, build kind code tid payload = .ok bytes ∧
        parse bytes = .ok ⟨UInt32.ofNat (headerLen + payload.length), kind, code, tid, payload⟩) ∧
    (∀ code tid params, params.length ≤ maxParams →
      ∃ c, parse (buildCommand code tid params) = .ok c ∧ c.kind = .command ∧ c.code = code ∧
        c.transactionId = tid ∧ c.parameters = params) ∧
    ∀ code tid payload, (buildDataHeader code tid payload.length).map (· ++ payload) =
      build .data code tid payload := by
  have hwhole : ∀ {kind code tid payload bytes}, build kind code tid payload = .ok bytes →
      parse bytes = .ok ⟨UInt32.ofNat (headerLen + payload.length), kind, code, tid, payload⟩ := by
    intro kind code tid payload bytes hbuild
    have hparse := parse_build hbuild []
    rwa [List.append_nil] at hparse
  refine ⟨fun b c => ⟨build_of_parse, ?_⟩, ?_, ?_, ?_⟩
  · intro hsome
    obtain ⟨⟨bytes, rest, hbuild, rfl⟩, hlength⟩ := hsome
    rw [parse_build hbuild rest, ← hlength, UInt32.ofNat_toNat]
  · intro kind code tid payload hmax
    exact ⟨_, build_of_le hmax, hwhole (build_of_le hmax)⟩
  · intro code tid params hfive
    have hbuild := buildCommand_eq_build code tid hfive
    exact ⟨_, hwhole hbuild, rfl, rfl, rfl, wordsOf_flatMap params⟩
  · intro code tid payload
    rw [buildDataHeader, build]
    cases containerLength payload.length with
    | error e => rfl
    | ok length => rfl

/-- A command of two parameters. -/
theorem Container.framing_exact_command : ∃ c, parse (buildCommand 0x1007 3 [1, 2]) = .ok c ∧
    c.kind = .command ∧ c.code = 0x1007 ∧ c.transactionId = 3 ∧ c.parameters = [1, 2] :=
  framing_exact.2.2.1 0x1007 3 [1, 2] (by decide)

/-! ## `ObjectInfo` -/

/-- No text is read from a string that holds none. -/
theorem Reader.orDefault_pushString_nil (field : String) (rest : Bytes) :
    Reader.orDefault (Reader.readString field) [] (pushString [] ++ rest) = (.ok [], rest) := by
  rw [Reader.orDefault, Reader.readString_pushString]
  rfl

/-- The longest prefix of whole characters of a text that takes at most `k` code units. -/
structure LongestFit (k : Nat) (name cut : Str) : Prop where
  whole : cut <+: name
  fits : (Utf16.encode cut).length ≤ k
  longest : ∀ t, t <+: name → (Utf16.encode t).length ≤ k → t.length ≤ cut.length

theorem longestFit_fit (k : Nat) (name : Str) : LongestFit k name (Utf16.fit k name) :=
  ⟨Utf16.fit_prefix k name, Utf16.length_encode_fit_le k name,
    fun _ hpre h => Utf16.length_le_fit hpre h⟩

/-- **The `ObjectInfo` dataset survives a round trip.** -/
theorem ObjectInfo.round_trip (storage parent : UInt32) (name : Str) (size : UInt32)
    (isFolder : Bool) :
    ∃ i, ObjectInfo.parse (ObjectInfo.buildForSend storage parent name size isFolder) = .ok i ∧
      i.storageId = storage ∧ i.parentObject = parent ∧ i.compressedSize = size ∧
      i.isFolder = isFolder ∧ i.associationType = (if isFolder then 1 else 0) ∧
      i.captureDate = [] ∧ i.modificationDate = [] ∧ LongestFit 254 name i.filename ∧
      ((Utf16.encode name).length ≤ 254 → i.filename = name) := by
  refine ⟨⟨storage, if isFolder then Format.association else Format.undefined, 0, size, 0, 0, parent,
    if isFolder then 1 else 0, Utf16.fit 254 name, [], []⟩, ?_, rfl, rfl, rfl, ?_, rfl, rfl, rfl,
    longestFit_fit 254 name, Utf16.fit_eq_self⟩
  · unfold ObjectInfo.parse ObjectInfo.read ObjectInfo.buildForSend
    simp only [List.append_assoc]
    rw [Proc.bind_ok (Reader.readU32_le32 _ _ _), Proc.bind_ok (Reader.readU16_le16 _ _ _),
      Proc.bind_ok (Reader.readU16_le16 _ _ _), Proc.bind_ok (Reader.readU32_le32 _ _ _),
      Proc.bind_ok (Reader.readU16_le16 _ _ _), Proc.bind_ok (Reader.readU32_le32 _ _ _),
      Proc.bind_ok (Reader.readU32_le32 _ _ _), Proc.bind_ok (Reader.readU32_le32 _ _ _),
      Proc.bind_ok (Reader.readU32_le32 _ _ _), Proc.bind_ok (Reader.readU32_le32 _ _ _),
      Proc.bind_ok (Reader.readU32_le32 _ _ _), Proc.bind_ok (Reader.readU32_le32 _ _ _),
      Proc.bind_ok (Reader.readU16_le16 _ _ _), Proc.bind_ok (Reader.readU32_le32 _ _ _),
      Proc.bind_ok (Reader.readU32_le32 _ _ _),
      Proc.bind_ok (Reader.readString_pushString _ _ _),
      Proc.bind_ok (Reader.orDefault_pushString_nil _ _),
      Proc.bind_ok (Reader.orDefault_pushString_nil _ _)]
    rfl
  · cases isFolder
    · rfl
    · rfl

end Bsdroid
