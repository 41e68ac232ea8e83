import Bsdroid.Lib.Rounds
import Bsdroid.PtpProto.Container

/-!
# USB descriptors

A configuration descriptor is a header and a list of smaller descriptors, each with a length
byte and a type byte in front.  The parsers read the buffer at offsets, so every read here is
checked: a read outside the buffer and a difference below zero, where the program would
panic, are outcomes of their own (`Stop`).
-/

namespace Bsdroid

/-! ## Descriptor types and classes -/

def typeConfiguration : UInt8 := 0x02
def typeInterface : UInt8 := 0x04
def typeEndpoint : UInt8 := 0x05

/-- The interface class for MTP, which the standard calls still imaging. -/
def mtpClass : UInt8 := 0x06
def mtpSubclass : UInt8 := 0x01
def mtpProtocol : UInt8 := 0x01

def vendorClass : UInt8 := 0xff
def vendorMtpSubclass : UInt8 := 0xff
def vendorMtpProtocol : UInt8 := 0x00

/-- The name that Android gives to an MTP interface with a vendor class. -/
def vendorMtpName : Str := ['M', 'T', 'P']

/-- The transfer types, from the low two bits of `bmAttributes`. -/
def transferBulk : UInt8 := 0x02
def transferInterrupt : UInt8 := 0x03

/-- The direction bit of an endpoint address. -/
def directionIn : UInt8 := 0x80

/-- A fault in a byte buffer that holds a descriptor. -/
inductive DescriptorError where
  | tooShort (need got : Nat)
  | wrongType (expected got : UInt8)
  | zeroLength (pos : Nat)
  | runsPastEnd (pos need got : Nat)
  | endpointWithoutInterface
  | noMtpInterface
  | incompleteMtpEndpoints (hasIn hasOut : Bool)
deriving DecidableEq, Repr

/-- Why a parser gave no value. -/
inductive Stop where
  | fault (e : DescriptorError)
  | outOfBounds (index : Nat)
  | underflow
  | outOfRounds
deriving DecidableEq, Repr

/-! ## Reads at an offset -/

/-- `buf[i]`. -/
def byteAt (buf : Bytes) (i : Nat) : Except Stop UInt8 :=
  match buf[i]? with
  | some b => .ok b
  | none => .error (.outOfBounds i)

/-- The `u16` of two bytes. -/
def u16At (buf : Bytes) (i : Nat) : Except Stop UInt16 := do
  let low ← byteAt buf i
  let high ← byteAt buf (i + 1)
  pure (fromLe16 [low, high])

/-- A difference of two `usize`. -/
def minus (a b : Nat) : Except Stop Nat := if a < b then .error .underflow else .ok (a - b)

/-! ## Configurations -/

/-- One endpoint of an interface. -/
structure Endpoint where
  address : UInt8
  transferType : UInt8
  maxPacketSize : UInt16
deriving DecidableEq, Repr

/-- Tells you if the endpoint sends data to the host. -/
def Endpoint.isIn (e : Endpoint) : Bool := e.address &&& directionIn != 0

def Endpoint.isBulk (e : Endpoint) : Bool := e.transferType == transferBulk

def Endpoint.isInterrupt (e : Endpoint) : Bool := e.transferType == transferInterrupt

/-- One interface of a configuration. -/
structure Interface where
  number : UInt8
  alternateSetting : UInt8
  cls : UInt8
  subclass : UInt8
  protocol : UInt8
  stringIndex : UInt8
  endpoints : List Endpoint
deriving DecidableEq, Repr

/-- Tells you if the interface carries MTP. -/
def Interface.isMtp (i : Interface) : Bool :=
  i.cls == mtpClass && i.subclass == mtpSubclass && i.protocol == mtpProtocol

/-- Tells you if the interface could carry MTP with a vendor class. -/
def Interface.isVendorMtpCandidate (i : Interface) : Bool :=
  i.cls == vendorClass && i.subclass == vendorMtpSubclass &&
    i.protocol == vendorMtpProtocol && i.stringIndex != 0

/-- A parsed configuration descriptor. -/
structure ConfigDescriptor where
  totalLength : UInt16
  numInterfaces : UInt8
  configurationValue : UInt8
  interfaces : List Interface
deriving DecidableEq, Repr

/-- The fields of an interface descriptor, with no endpoint yet. -/
def Interface.readAt (buf : Bytes) (pos : Nat) : Except Stop Interface := do
  let number ← byteAt buf (pos + 2)
  let alternateSetting ← byteAt buf (pos + 3)
  let cls ← byteAt buf (pos + 5)
  let subclass ← byteAt buf (pos + 6)
  let protocol ← byteAt buf (pos + 7)
  let stringIndex ← byteAt buf (pos + 8)
  pure { number, alternateSetting, cls, subclass, protocol, stringIndex, endpoints := [] }

/-- The fields of an endpoint descriptor. -/
def Endpoint.readAt (buf : Bytes) (pos : Nat) : Except Stop Endpoint := do
  let address ← byteAt buf (pos + 2)
  let attributes ← byteAt buf (pos + 3)
  let maxPacketSize ← u16At buf (pos + 4)
  pure { address, transferType := attributes &&& 0x03, maxPacketSize }

/-- Gives an endpoint to the last interface. -/
def pushEndpoint (e : Endpoint) (interfaces : List Interface) : Except Stop (List Interface) :=
  match interfaces.getLast? with
  | some i => .ok (interfaces.dropLast ++ [{ i with endpoints := i.endpoints ++ [e] }])
  | none => .error (.fault .endpointWithoutInterface)

/-- What the descriptor at a position adds to the interfaces. -/
def ConfigDescriptor.take (buf : Bytes) (pos len : Nat) (kind : UInt8)
    (interfaces : List Interface) : Except Stop (List Interface) :=
  if kind = typeInterface then
    if len < 9 then .error (.fault (.tooShort 9 len))
    else do
      let i ← Interface.readAt buf pos
      pure (interfaces ++ [i])
  else if kind = typeEndpoint then
    if len < 7 then .error (.fault (.tooShort 7 len))
    else do
      let e ← Endpoint.readAt buf pos
      pushEndpoint e interfaces
  else .ok interfaces -- a class or vendor descriptor, which changes no owner

/-- The check of a length byte against the end, before the descriptor is read. -/
def checkLength (finish pos len : Nat) : Except Stop Unit :=
  if len = 0 then .error (.fault (.zeroLength pos))
  else if finish < pos + len then do
    let got ← minus finish pos
    .error (.fault (.runsPastEnd pos len got))
  else .ok ()

/-- One round of the loop over a configuration. -/
def ConfigDescriptor.round (buf : Bytes) (finish pos : Nat) (interfaces : List Interface) :
    Except Stop (Nat × List Interface) := do
  let len ← byteAt buf pos
  let kind ← byteAt buf (pos + 1)
  checkLength finish pos len.toNat
  let interfaces ← ConfigDescriptor.take buf pos len.toNat kind interfaces
  pure (pos + len.toNat, interfaces)

/-- `pos + n <= end`, the test of the loops. -/
def room (n finish pos : Nat) : Bool := pos + n ≤ finish

/-- Reads a configuration descriptor, in at most `budget` rounds. -/
def ConfigDescriptor.parseWithin (budget : Nat) (buf : Bytes) :
    Except Stop ConfigDescriptor :=
  if buf.length < 9 then .error (.fault (.tooShort 9 buf.length))
  else do
    let kind ← byteAt buf 1
    if kind ≠ typeConfiguration then .error (.fault (.wrongType typeConfiguration kind))
    else do
      let totalLength ← u16At buf 2
      let numInterfaces ← byteAt buf 4
      let configurationValue ← byteAt buf 5
      -- Read no further than the buffer, and no further than the header declares.
      let finish := min buf.length totalLength.toNat
      let pos ← byteAt buf 0
      if pos = 0 then .error (.fault (.zeroLength 0))
      else do
        let interfaces ← Rounds.loop (room 2 finish) (ConfigDescriptor.round buf finish)
          .outOfRounds budget pos.toNat []
        pure { totalLength, numInterfaces, configurationValue, interfaces }

/-- Reads a configuration descriptor.  The buffer has enough bytes for the rounds
(`ConfigDescriptor.parseWithin_of_le`). -/
def ConfigDescriptor.parse (buf : Bytes) : Except Stop ConfigDescriptor :=
  ConfigDescriptor.parseWithin buf.length buf

/-! ## Device capabilities -/

def typeBos : UInt8 := 0x0f
def typeDeviceCapability : UInt8 := 0x10
def capabilitySuperSpeed : UInt8 := 0x03
def capabilitySuperSpeedPlus : UInt8 := 0x0a

/-- What a device says it can do, from the BOS descriptor. -/
structure DeviceCapabilities where
  superSpeed : Bool
  superSpeedPlus : Bool
  speedsSupported : Option UInt16
deriving DecidableEq, Repr

/-- What the capability at a position adds. -/
def DeviceCapabilities.take (buf : Bytes) (pos len : Nat) (kind : UInt8)
    (out : DeviceCapabilities) : Except Stop DeviceCapabilities :=
  if kind = typeDeviceCapability then do
    let capability ← byteAt buf (pos + 2)
    if capability = capabilitySuperSpeed then
      -- wSpeedsSupported sits at offset 4 of the capability.
      if 6 ≤ len then do
        let speeds ← u16At buf (pos + 4)
        pure { out with superSpeed := true, speedsSupported := some speeds }
      else pure { out with superSpeed := true }
    else if capability = capabilitySuperSpeedPlus then pure { out with superSpeedPlus := true }
    else pure out
  else pure out

/-- One round of the loop over the capabilities. -/
def DeviceCapabilities.round (buf : Bytes) (finish pos : Nat) (out : DeviceCapabilities) :
    Except Stop (Nat × DeviceCapabilities) := do
  let len ← byteAt buf pos
  checkLength finish pos len.toNat
  let kind ← byteAt buf (pos + 1)
  let out ← DeviceCapabilities.take buf pos len.toNat kind out
  pure (pos + len.toNat, out)

/-- Reads a BOS descriptor, in at most `budget` rounds. -/
def DeviceCapabilities.parseWithin (budget : Nat) (buf : Bytes) :
    Except Stop DeviceCapabilities :=
  if buf.length < 5 then .error (.fault (.tooShort 5 buf.length))
  else do
    let kind ← byteAt buf 1
    if kind ≠ typeBos then .error (.fault (.wrongType typeBos kind))
    else do
      let total ← u16At buf 2
      let finish := min buf.length total.toNat
      let pos ← byteAt buf 0
      if pos = 0 then .error (.fault (.zeroLength 0))
      else
        Rounds.loop (room 3 finish) (DeviceCapabilities.round buf finish) .outOfRounds budget
          pos.toNat ⟨false, false, none⟩

/-- Reads a BOS descriptor. -/
def DeviceCapabilities.parse (buf : Bytes) : Except Stop DeviceCapabilities :=
  DeviceCapabilities.parseWithin buf.length buf

end Bsdroid
