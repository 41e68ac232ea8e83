import Bsdroid.UsbFreebsd.Scanning

/-!
# What a configuration describes

A configuration as a header and a list of descriptors, with their bytes on the wire, and the
interfaces that it describes: each endpoint belongs to the nearest interface before it,
whatever stands between.  `ConfigDescriptor.parse_described` says that the parser gives
exactly these.
-/

namespace Bsdroid

/-! ## Descriptors -/

/-- An interface descriptor, of nine bytes or more. -/
structure InterfaceDescriptor where
  number : UInt8
  alternateSetting : UInt8
  numEndpoints : UInt8
  cls : UInt8
  subclass : UInt8
  protocol : UInt8
  stringIndex : UInt8
  more : Bytes
  fits : 9 + more.length < 256

/-- An endpoint descriptor, of seven bytes or more. -/
structure EndpointDescriptor where
  address : UInt8
  attributes : UInt8
  maxPacketSize : UInt16
  interval : UInt8
  more : Bytes
  fits : 7 + more.length < 256

/-- A class or vendor descriptor, of two bytes or more. -/
structure OtherDescriptor where
  kind : UInt8
  body : Bytes
  notInterface : kind ≠ typeInterface
  notEndpoint : kind ≠ typeEndpoint
  fits : 2 + body.length < 256

inductive Descriptor where
  | interface (d : InterfaceDescriptor)
  | endpoint (d : EndpointDescriptor)
  | other (d : OtherDescriptor)

/-- The bytes of a descriptor, behind its length byte. -/
def Descriptor.body : Descriptor → Bytes
  | .interface d => [typeInterface, d.number, d.alternateSetting, d.numEndpoints, d.cls,
      d.subclass, d.protocol, d.stringIndex] ++ d.more
  | .endpoint d => [typeEndpoint, d.address, d.attributes] ++ le16 d.maxPacketSize ++
      [d.interval] ++ d.more
  | .other d => d.kind :: d.body

/-- A descriptor on the wire. -/
def Descriptor.encode (d : Descriptor) : Bytes := UInt8.ofNat (d.body.length + 1) :: d.body

/-- The header of a configuration that holds so many bytes in all. -/
structure ConfigHeader where
  numInterfaces : UInt8
  configurationValue : UInt8
  index : UInt8
  attributes : UInt8
  maxPower : UInt8

def ConfigHeader.encode (h : ConfigHeader) (total : Nat) : Bytes :=
  [9, typeConfiguration] ++ le16 (UInt16.ofNat total) ++
    [h.numInterfaces, h.configurationValue, h.index, h.attributes, h.maxPower]

/-! ## What they describe -/

/-- The interface of a descriptor, with the endpoints it owns. -/
def InterfaceDescriptor.owning (d : InterfaceDescriptor) (endpoints : List Endpoint) : Interface :=
  ⟨d.number, d.alternateSetting, d.cls, d.subclass, d.protocol, d.stringIndex, endpoints⟩

/-- The endpoint of a descriptor, with the transfer type in the low two attribute bits. -/
def EndpointDescriptor.endpoint (d : EndpointDescriptor) : Endpoint :=
  ⟨d.address, d.attributes &&& 0x03, d.maxPacketSize⟩

/-- The endpoints before the next interface. -/
def owned : List Descriptor → List Endpoint
  | [] => []
  | .interface _ :: _ => []
  | .endpoint d :: ds => d.endpoint :: owned ds
  | .other _ :: ds => owned ds

/-- **The interfaces that descriptors describe**, each with the endpoints before the next
one. -/
def interfacesOf : List Descriptor → List Interface
  | [] => []
  | .interface d :: ds => d.owning (owned ds) :: interfacesOf ds
  | .endpoint _ :: ds => interfacesOf ds
  | .other _ :: ds => interfacesOf ds

/-- Every endpoint comes after some interface. -/
def Owned (ds : List Descriptor) : Prop :=
  ∀ before d after, ds = before ++ .endpoint d :: after → ∃ i, Descriptor.interface i ∈ before

/-! ## Reads behind what was read -/

variable {before xs rest : Bytes} {finish i : Nat}

theorem byteAt_append {b : UInt8} (h : xs[i]? = some b) :
    byteAt (before ++ xs) (before.length + i) = .ok b := by
  unfold byteAt
  rw [List.getElem?_append_right (Nat.le_add_right _ _), Nat.add_sub_cancel_left, h]

theorem u16At_append {low high : UInt8} (hlow : xs[i]? = some low)
    (hhigh : xs[i + 1]? = some high) :
    u16At (before ++ xs) (before.length + i) = .ok (fromLe16 [low, high]) := by
  unfold u16At
  rw [byteAt_append hlow, Nat.add_assoc, byteAt_append hhigh]
  rfl

/-! ## One descriptor -/

namespace Descriptor

theorem length_body (d : Descriptor) : 1 ≤ d.body.length ∧ d.body.length + 1 < 256 := by
  cases d with
  | interface d =>
      have hfits := d.fits
      rw [body, List.length_append]
      simp only [List.length_cons, List.length_nil]
      omega
  | endpoint d =>
      have hfits := d.fits
      rw [body, List.length_append, List.length_append, List.length_append, length_le16]
      simp only [List.length_cons, List.length_nil]
      omega
  | other d =>
      have hfits := d.fits
      rw [body, List.length_cons]
      omega

theorem length_encode (d : Descriptor) : d.encode.length = d.body.length + 1 := List.length_cons

/-- The length byte holds the length of the descriptor. -/
theorem toNat_length (d : Descriptor) :
    (UInt8.ofNat (d.body.length + 1)).toNat = d.encode.length := by
  rw [length_encode]
  exact UInt8.toNat_ofNat_of_lt' d.length_body.2

/-- What a descriptor adds to the interfaces before it. -/
def addTo : Descriptor → List Interface → Except Stop (List Interface)
  | .interface d, interfaces => .ok (interfaces ++ [d.owning []])
  | .endpoint d, interfaces => pushEndpoint d.endpoint interfaces
  | .other _, interfaces => .ok interfaces

/-- The type byte. -/
def kind : Descriptor → UInt8
  | .interface _ => typeInterface
  | .endpoint _ => typeEndpoint
  | .other d => d.kind

theorem kind_at (d : Descriptor) (rest : Bytes) : (d.encode ++ rest)[1]? = some d.kind := by
  cases d with
  | interface d => rfl
  | endpoint d => rfl
  | other d => rfl

theorem take_encode (d : Descriptor) (before rest : Bytes) (interfaces : List Interface) :
    ConfigDescriptor.take (before ++ (d.encode ++ rest)) before.length d.encode.length d.kind
      interfaces = d.addTo interfaces := by
  unfold ConfigDescriptor.take
  cases d with
  | interface d =>
      have hkind : (interface d).kind = typeInterface := rfl
      rw [if_pos hkind, if_neg]
      · unfold Interface.readAt
        rw [byteAt_append rfl, byteAt_append rfl, byteAt_append rfl, byteAt_append rfl,
          byteAt_append rfl, byteAt_append rfl]
        rfl
      · rw [length_encode, body, List.length_append]
        simp only [List.length_cons, List.length_nil]
        omega
  | endpoint d =>
      have hother : typeEndpoint ≠ typeInterface := by decide
      have hkind : (endpoint d).kind = typeEndpoint := rfl
      rw [hkind, if_neg hother, if_pos rfl, if_neg]
      · unfold Endpoint.readAt
        rw [byteAt_append rfl, byteAt_append rfl, u16At_append rfl rfl]
        have hsize : fromLe16 (le16 d.maxPacketSize) = d.maxPacketSize := fromLe16_le16 _
        show pushEndpoint ⟨d.address, d.attributes &&& 0x03, fromLe16 (le16 d.maxPacketSize)⟩
          interfaces = _
        rw [hsize]
        rfl
      · rw [length_encode, body, List.length_append, List.length_append, List.length_append,
          length_le16]
        simp only [List.length_cons, List.length_nil]
        omega
  | other d =>
      rw [kind, if_neg d.notInterface, if_neg d.notEndpoint]
      rfl

/-- **One round reads one descriptor**, and goes on behind it. -/
theorem round_encode (d : Descriptor) (interfaces : List Interface)
    (hfits : before.length + d.encode.length ≤ finish) :
    ConfigDescriptor.round (before ++ (d.encode ++ rest)) finish before.length interfaces =
      (d.addTo interfaces >>= fun out => pure ((before ++ d.encode).length, out)) := by
  unfold ConfigDescriptor.round
  have hlen : byteAt (before ++ (d.encode ++ rest)) before.length =
      .ok (UInt8.ofNat (d.body.length + 1)) := @byteAt_append before (d.encode ++ rest) 0 _ rfl
  have hcheck : checkLength finish before.length d.encode.length = .ok () := by
    unfold checkLength
    rw [if_neg, if_neg (Nat.not_lt.mpr hfits)]
    rw [length_encode]
    exact Nat.succ_ne_zero _
  rw [hlen, byteAt_append (d.kind_at rest)]
  show (checkLength finish before.length (UInt8.ofNat (d.body.length + 1)).toNat >>= fun _ => _) = _
  rw [toNat_length, hcheck]
  show (ConfigDescriptor.take _ before.length d.encode.length d.kind interfaces >>=
    fun out => pure (before.length + d.encode.length, out)) = _
  rw [take_encode, List.length_append]

end Descriptor

/-! ## All of them -/

/-- The bytes of descriptors one after the other. -/
def encodeAll (ds : List Descriptor) : Bytes := ds.flatMap Descriptor.encode

theorem encodeAll_cons (d : Descriptor) (ds : List Descriptor) :
    encodeAll (d :: ds) = d.encode ++ encodeAll ds := List.flatMap_cons

theorem length_le_encodeAll (ds : List Descriptor) : ds.length ≤ (encodeAll ds).length := by
  induction ds with
  | nil => exact Nat.le_refl _
  | cons d ds ih =>
      rw [encodeAll_cons, List.length_append, List.length_cons, d.length_encode]
      omega

theorem pushEndpoint_concat (e : Endpoint) (done : List Interface) (i : Interface) :
    pushEndpoint e (done ++ [i]) = .ok (done ++ [{ i with endpoints := i.endpoints ++ [e] }]) := by
  unfold pushEndpoint
  rw [List.getLast?_concat, List.dropLast_concat]

/-- The loop over the descriptors between `before` and `rest`. -/
def scan (before : Bytes) (ds : List Descriptor) (rest : Bytes) (budget : Nat)
    (interfaces : List Interface) : Except Stop (List Interface) :=
  Rounds.loop (room 2 (before.length + (encodeAll ds).length))
    (ConfigDescriptor.round (before ++ (encodeAll ds ++ rest))
      (before.length + (encodeAll ds).length)) .outOfRounds budget before.length interfaces

theorem scan_nil (before rest : Bytes) (budget : Nat) (interfaces : List Interface) :
    scan before [] rest budget interfaces = .ok interfaces := by
  apply Rounds.loop_stop
  rw [room_iff]
  show ¬before.length + 2 ≤ before.length + 0
  omega

/-- The step of the scan. -/
theorem scan_cons (before : Bytes) (d : Descriptor) (ds : List Descriptor) (rest : Bytes)
    (budget : Nat) {interfaces out : List Interface} (hadd : d.addTo interfaces = .ok out) :
    scan before (d :: ds) rest (budget + 1) interfaces =
      scan (before ++ d.encode) ds rest budget out := by
  unfold scan
  have hpos := d.length_encode
  have hbody := d.length_body.1
  rw [encodeAll_cons]
  have hround := @Descriptor.round_encode before (encodeAll ds ++ rest)
    (before.length + (d.encode ++ encodeAll ds).length) d interfaces
    (by rw [List.length_append]; omega)
  rw [hadd] at hround
  rw [List.append_assoc, Rounds.loop_round _ hround, ← List.append_assoc before]
  · rw [List.length_append, List.length_append, Nat.add_assoc]
  · rw [room_iff, List.length_append]
    omega

/-- From an interface on, the endpoints are its own until the next one. -/
theorem scan_owned (rest : Bytes) (ds : List Descriptor) :
    ∀ (before : Bytes) (budget : Nat) (done : List Interface) (i : Interface),
      ds.length ≤ budget →
      scan before ds rest budget (done ++ [i]) =
        .ok (done ++ { i with endpoints := i.endpoints ++ owned ds } :: interfacesOf ds) := by
  induction ds with
  | nil =>
      intro before budget done i _
      rw [scan_nil, owned, List.append_nil, interfacesOf]
  | cons d ds ih =>
      intro before budget done i hbudget
      obtain ⟨budget, rfl⟩ := Nat.exists_eq_add_of_le' (Nat.le_trans (Nat.le_add_left 1 _) hbudget)
      have hless : ds.length ≤ budget := Nat.le_of_succ_le_succ hbudget
      cases d with
      | interface d =>
          rw [scan_cons before _ ds rest budget rfl, ih _ budget (done ++ [i]) _ hless, owned,
            interfacesOf, List.append_nil, List.append_assoc]
          rfl
      | endpoint d =>
          have hadd : (Descriptor.endpoint d).addTo (done ++ [i]) = _ :=
            pushEndpoint_concat d.endpoint done i
          rw [scan_cons before _ ds rest budget hadd, ih _ budget done _ hless, owned,
            interfacesOf, List.append_assoc]
          rfl
      | other d =>
          rw [scan_cons before _ ds rest budget rfl, ih _ budget done i hless, owned, interfacesOf]

theorem Owned.tail {d : OtherDescriptor} {ds : List Descriptor} (h : Owned (.other d :: ds)) :
    Owned ds := by
  intro before e after hds
  obtain ⟨i, hi⟩ := h (.other d :: before) e after (by rw [hds]; rfl)
  rcases List.mem_cons.mp hi with hi | hi
  · cases hi
  · exact ⟨i, hi⟩

/-- Before the first interface there is no endpoint. -/
theorem scan_fresh (rest : Bytes) (ds : List Descriptor) :
    ∀ (before : Bytes) (budget : Nat), ds.length ≤ budget → Owned ds →
      scan before ds rest budget [] = .ok (interfacesOf ds) := by
  induction ds with
  | nil =>
      intro before budget _ _
      exact scan_nil before rest budget []
  | cons d ds ih =>
      intro before budget hbudget howned
      obtain ⟨budget, rfl⟩ := Nat.exists_eq_add_of_le' (Nat.le_trans (Nat.le_add_left 1 _) hbudget)
      have hless : ds.length ≤ budget := Nat.le_of_succ_le_succ hbudget
      cases d with
      | interface d =>
          rw [scan_cons before _ ds rest budget rfl, scan_owned rest ds _ budget [] _ hless]
          rfl
      | endpoint d =>
          obtain ⟨i, hi⟩ := howned [] d ds rfl
          exact absurd hi List.not_mem_nil
      | other d =>
          rw [scan_cons before _ ds rest budget rfl, ih _ budget hless howned.tail]
          rfl

theorem ConfigHeader.length_encode (header : ConfigHeader) (total : Nat) :
    (header.encode total).length = 9 := by
  unfold ConfigHeader.encode
  rw [List.length_append, List.length_append, length_le16]
  rfl

namespace ConfigDescriptor

/-- **A configuration descriptor parses to what it describes**: the interfaces in order, each
with the endpoints that come before the next one. -/
theorem parse_described (header : ConfigHeader) (ds : List Descriptor) (rest : Bytes)
    (htotal : 9 + (encodeAll ds).length < 65536) (howned : Owned ds) :
    ConfigDescriptor.parse (header.encode (9 + (encodeAll ds).length) ++ (encodeAll ds ++ rest)) =
      .ok ⟨UInt16.ofNat (9 + (encodeAll ds).length), header.numInterfaces,
        header.configurationValue, interfacesOf ds⟩ := by
  generalize hbefore : header.encode (9 + (encodeAll ds).length) = before
  have hnine : before.length = 9 := by
    rw [← hbefore, header.length_encode]
  have hsize : (before ++ (encodeAll ds ++ rest)).length =
      9 + ((encodeAll ds).length + rest.length) := by
    rw [List.length_append, List.length_append, hnine]
  have hvalue : (UInt16.ofNat (9 + (encodeAll ds).length)).toNat = 9 + (encodeAll ds).length :=
    UInt16.toNat_ofNat_of_lt' htotal
  have hfinish : min (before ++ (encodeAll ds ++ rest)).length
      (UInt16.ofNat (9 + (encodeAll ds).length)).toNat = 9 + (encodeAll ds).length := by
    rw [hsize, hvalue]
    omega
  have hscan := scan_fresh rest ds before (before ++ (encodeAll ds ++ rest)).length
    (by have := length_le_encodeAll ds; omega) howned
  unfold scan at hscan
  rw [hnine] at hscan
  have hkind : byteAt (before ++ (encodeAll ds ++ rest)) 1 = .ok typeConfiguration := by
    rw [← hbefore]
    rfl
  have hlength : u16At (before ++ (encodeAll ds ++ rest)) 2 =
      .ok (UInt16.ofNat (9 + (encodeAll ds).length)) := by
    rw [← hbefore, ← fromLe16_le16 (UInt16.ofNat (9 + (encodeAll ds).length))]
    rfl
  have hcount : byteAt (before ++ (encodeAll ds ++ rest)) 4 = .ok header.numInterfaces := by
    rw [← hbefore]
    rfl
  have hvalueAt : byteAt (before ++ (encodeAll ds ++ rest)) 5 = .ok header.configurationValue := by
    rw [← hbefore]
    rfl
  have hfirst : byteAt (before ++ (encodeAll ds ++ rest)) 0 = .ok 9 := by
    rw [← hbefore]
    rfl
  unfold ConfigDescriptor.parse ConfigDescriptor.parseWithin
  rw [if_neg (by omega), hkind, hlength, hcount, hvalueAt, hfirst]
  show (Rounds.loop (room 2 (min _ (UInt16.ofNat (9 + (encodeAll ds).length)).toNat)) _ _ _ 9 [] >>=
    fun interfaces => _) = _
  rw [hfinish, hscan]
  rfl

end ConfigDescriptor

/-- Two interfaces with an audio endpoint of nine bytes and a class descriptor between. -/
def twoInterfaces : List Descriptor :=
  [.interface ⟨0, 0, 1, 1, 3, 0, 0, [], by decide⟩,
    .other ⟨0x24, [1, 0], by decide, by decide, by decide⟩,
    .endpoint ⟨0x81, 2, 512, 0, [0, 0], by decide⟩,
    .interface ⟨1, 0, 0, 6, 1, 1, 4, [], by decide⟩]

theorem owned_twoInterfaces : Owned twoInterfaces := by
  intro before d after h
  cases before with
  | nil => cases h
  | cons b before =>
      obtain ⟨rfl, -⟩ := List.cons.inj h
      exact ⟨_, List.mem_cons_self⟩

theorem ConfigDescriptor.parse_described_twoInterfaces :
    ConfigDescriptor.parse (ConfigHeader.encode ⟨2, 1, 0, 0x80, 50⟩ 40 ++
        (encodeAll twoInterfaces ++ [7, 7])) =
      .ok ⟨40, 2, 1, [⟨0, 0, 1, 3, 0, 0, [⟨0x81, 2, 512⟩]⟩, ⟨1, 0, 6, 1, 1, 4, []⟩]⟩ :=
  ConfigDescriptor.parse_described ⟨2, 1, 0, 0x80, 50⟩ twoInterfaces [7, 7] (by decide)
    owned_twoInterfaces

end Bsdroid
