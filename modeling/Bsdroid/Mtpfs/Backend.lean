import Bsdroid.Mtpfs.Tree
import Bsdroid.MtpSession.Session
import Bsdroid.PtpProto.PropList

/-!
# The session that answers a filesystem request

`Mtp` is the session of a mount with the facts that steer it: the storage, the
operation for a partial read, whether the fast listing still works, and the
bytes read in advance.  It reaches the device through `Link`, one operation at
a time, and a `Session` is one such link.

The arithmetic of the source is checked, because the release profile keeps the
overflow checks on: a sum or a difference that leaves its type ends the call with
`Error.overflow`.
-/

namespace Bsdroid

/-- One operation for the device: the step it is for, its code and parameters,
and for a send the size of the payload and the reader that gives it. -/
structure Request where
  step : String
  code : UInt16
  params : List UInt32
  payload : Option (Nat × List ReadAnswer)
deriving DecidableEq, Repr

/-- A state that can do operations. -/
class Link (σ : Type) where
  exec : Request → Proc SessionError σ Outcome

/-- A session does an operation over its transport. -/
instance {τ : Type} [Transport τ] : Link (Session τ) where
  exec r :=
    match r.payload with
    | none => Session.operation r.step r.code r.params
    | some (size, reader) => fun s =>
        let a := Session.operationSending r.step r.code r.params size (s, reader)
        (a.1, a.2.1)

/-- A fault the filesystem reports. -/
inductive Error where
  | parse (e : ParseError)
  | device (step : String) (code : UInt16)
  | noStorage
  | noPartialRead
  | tooLarge (size : Nat)
  | badListing (handle : UInt32)
  | session (e : SessionError)
  | overflow
deriving DecidableEq, Repr

/-- The count of bytes the host reads in advance. -/
def readAhead : Nat := 4 * 1024 * 1024

/-- The largest value of a `u64` and of a `usize`, plus one. -/
def wordSize : Nat := 2 ^ 64

/-- A sum the release profile checks. -/
def checkedAdd (a b : Nat) : Except Error Nat :=
  if a + b < wordSize then .ok (a + b) else .error .overflow

/-- A difference the release profile checks. -/
def checkedSub (a b : Nat) : Except Error Nat :=
  if b ≤ a then .ok (a - b) else .error .overflow

/-- Removes the folder from the list of the objects the folder holds. -/
def dropTheFolder (records : List PropRecord) (folder : UInt32) : List PropRecord :=
  records.filter (·.handle ≠ folder)

/-- Splits a read that reaches the end of a file.  The flag is true when one
more byte must be read at the end. -/
def splitFinalRead (offset want fileSize packet : Nat) : Nat × Bool :=
  let reachesEnd := min (offset + want) (wordSize - 1) ≥ fileSize
  if reachesEnd ∧ packet ≠ 0 ∧ want ≠ 0 ∧ want % packet = 0 then (want - 1, true)
  else (want, false)

/-- The bytes the host read in advance, for one object. -/
structure ReadCache where
  handle : UInt32
  start : Nat
  data : Bytes
deriving DecidableEq, Repr

/-- Gives the bytes for a read, when the cache holds them.  The answer can be
shorter than `want`. -/
def ReadCache.get (c : ReadCache) (handle : UInt32) (offset want : Nat) :
    Except Error (Option Bytes) :=
  if c.handle ≠ handle ∨ offset < c.start then .ok none
  else
    let start := offset - c.start
    if start ≥ c.data.length then .ok none
    else
      match checkedAdd start want with
      | .error e => .error e
      | .ok stop => .ok (some ((c.data.take (min stop c.data.length)).drop start))

/-- The session a mount holds open. -/
structure Mtp (σ : Type) where
  session : σ
  storage : UInt32
  partialRead : UInt16
  fastList : Bool
  packet : Nat
  cache : Option ReadCache
  info : DeviceInfo

namespace Mtp

variable {σ : Type} [Link σ]

/-- Does one operation on the session. -/
def exec (r : Request) : Proc Error (Mtp σ) Outcome :=
  ((Link.exec r).onPart Mtp.session fun s m => { m with session := s }).mapError .session

/-- Drops the bytes the host read in advance. -/
def dropCache : Proc Error (Mtp σ) Unit :=
  Proc.modify fun m => { m with cache := none }

/-- Turns a fault code of the device into an error. -/
def checked (step : String) (out : Outcome) : Proc Error (Mtp σ) Outcome :=
  if out.isOk then pure out else Proc.fail (.device step out.responseCode)

/-- Does one operation, and gives the payload of the data phase. -/
def operation (step : String) (code : UInt16) (params : List UInt32) :
    Proc Error (Mtp σ) Bytes := do
  let out ← exec ⟨step, code, params, none⟩
  let out ← checked step out
  pure out.data

/-- Does one operation that changes the device, and checks the answer. -/
def operationThatChanges (step : String) (code : UInt16) (params : List UInt32) :
    Proc Error (Mtp σ) (List UInt32) := do
  let out ← exec ⟨step, code, params, none⟩
  dropCache
  let out ← checked step out
  pure out.responseParams

/-- Does one operation that sends a dataset and changes the device. -/
def sendingData (step : String) (code : UInt16) (params : List UInt32) (payload : Bytes) :
    Proc Error (Mtp σ) (List UInt32) := do
  let out ← exec ⟨step, code, params, some (payload.length, [.bytes payload])⟩
  dropCache
  let out ← checked step out
  pure out.responseParams

/-! ## Listings -/

/-- The properties a listing asks for, one request for each. -/
def wanted : List UInt16 :=
  [Property.objectFileName, Property.objectSize, Property.objectFormat]

/-- Asks for each property of the objects of a folder, and joins the answers. -/
def propEntries (arg : UInt32) : List UInt16 → Proc Error (Mtp σ) (List PropEntry)
  | [] => pure []
  | code :: rest => do
      let data ← operation "GetObjectPropList" Op.getObjectPropList
        [arg, 0, code.toUInt32, 0, 1]
      let entries ← (Proc.ofExcept (parseObjectPropList data)).mapError .parse
      let more ← propEntries arg rest
      pure (entries ++ more)

/-- The entries of a folder, from the records of its objects.  A record with no
name is a fault. -/
def entriesOf (parent : UInt32) : List PropRecord → Except Error (List Entry)
  | [] => .ok []
  | r :: rest =>
      if r.name.isEmpty then .error (.badListing r.handle)
      else
        match entriesOf parent rest with
        | .error e => .error e
        | .ok entries => .ok ({
            handle := r.handle
            parent := parent
            name := r.name
            isDir := r.isFolder
            size := r.size } :: entries)

/-- Reads a folder with one request for each property.  The root needs the
handle 0 here. -/
def listByProperties (parent : UInt32) : Proc Error (Mtp σ) (List Entry) := do
  let arg := if parent = root then 0 else parent
  let entries ← propEntries arg wanted
  let records := dropTheFolder (foldPropList entries) arg
  Proc.ofExcept (entriesOf parent records)

/-- Asks for each object in turn.  An object whose dataset does not parse is left
out. -/
def infoEntries (parent : UInt32) : List UInt32 → Proc Error (Mtp σ) (List Entry)
  | [] => pure []
  | h :: rest => do
      let raw ← operation "GetObjectInfo" Op.getObjectInfo [h]
      let more ← infoEntries parent rest
      match ObjectInfo.parse raw with
      | .error _ => pure more
      | .ok info => pure ({
          handle := h
          parent := parent
          name := info.filename
          isDir := info.isFolder
          size := info.compressedSize.toNat } :: more)

/-- Reads a folder with one request for each object.  The root needs the value
`0xffffffff` here. -/
def listOneAtATime (parent : UInt32) : Proc Error (Mtp σ) (List Entry) := do
  let arg := if parent = root then Association.rootOnly else parent
  let m ← Proc.get
  let data ← operation "GetObjectHandles" Op.getObjectHandles [m.storage, 0, arg]
  infoEntries parent (wordsOf (data.drop 4))

/-- Reads the objects a folder holds.  A fault in the fast way turns the fast way
off, and the older way then answers. -/
def list (parent : UInt32) : Proc Error (Mtp σ) (List Entry) := do
  let m ← Proc.get
  if m.fastList then do
    match ← (listByProperties parent).attempt with
    | .ok v => pure v
    | .error _ => do
        Proc.modify fun m => { m with fastList := false }
        listOneAtATime parent
  else listOneAtATime parent

/-! ## Reads -/

/-- Asks the device for a count of bytes, with no workaround. -/
def partialReadAt (handle : UInt32) (offset want : Nat) : Proc Error (Mtp σ) Bytes := do
  let m ← Proc.get
  let params :=
    if m.partialRead = Op.getPartialObject64 then
      [handle, UInt32.ofNat (offset % 2 ^ 32), UInt32.ofNat (offset / 2 ^ 32),
        UInt32.ofNat want]
    else [handle, UInt32.ofNat offset, UInt32.ofNat want]
  operation "GetPartialObject" m.partialRead params

/-- Asks the device for part of an object. -/
def readFromDevice (handle : UInt32) (offset want fileSize : Nat) :
    Proc Error (Mtp σ) Bytes := do
  let m ← Proc.get
  let (first, short) := splitFinalRead offset want fileSize m.packet
  let data ← partialReadAt handle offset first
  -- The read above left one byte, and the count of one is no whole packet.
  if short ∧ data.length = first then do
    let last ← Proc.ofExcept (checkedAdd offset first)
    let tail ← partialReadAt handle last 1
    pure (data ++ tail)
  else pure data

/-- The bytes the cache holds for a read. -/
def cached (handle : UInt32) (offset want : Nat) : Proc Error (Mtp σ) (Option Bytes) := do
  let m ← Proc.get
  match m.cache with
  | none => pure none
  | some c => Proc.ofExcept (c.get handle offset want)

/-- Fills an answer of `want` bytes.  The cache gives the first part, and the
device gives the rest.  Each round gives at least one byte or ends the loop, so
`want` rounds are enough. -/
def fillFrom (handle : UInt32) (offset want fileSize : Nat) :
    Nat → Bytes → Proc Error (Mtp σ) Bytes
  | 0, out => pure out
  | rounds + 1, out =>
      if out.length < want then do
        let at_ ← Proc.ofExcept (checkedAdd offset out.length)
        let need ← Proc.ofExcept (checkedSub want out.length)
        match ← cached handle at_ need with
        | some bytes => fillFrom handle offset want fileSize rounds (out ++ bytes)
        | none => do
            let left ← Proc.ofExcept (checkedSub fileSize at_)
            let data ← readFromDevice handle at_ (min (max need readAhead) left) fileSize
            if data.isEmpty then pure out
            else do
              Proc.modify fun m => { m with cache := some ⟨handle, at_, data⟩ }
              fillFrom handle offset want fileSize rounds
                (out ++ data.take (min need data.length))
      else pure out

/-- Reads part of an object into a buffer. -/
def readAt (handle : UInt32) (offset want fileSize : Nat) : Proc Error (Mtp σ) Bytes :=
  if want = 0 ∨ offset ≥ fileSize then pure []
  else do
    let left ← Proc.ofExcept (checkedSub fileSize offset)
    let want := min want left
    fillFrom handle offset want fileSize want []

/-! ## Changes -/

/-- The value that names a folder as the parent of a new or a moved object. -/
def parentArg (parent : UInt32) : UInt32 := if parent = root then 0xffffffff else parent

/-- Sends `SendObjectInfo`, and gives the handle the device assigns. -/
def announceObject (info : Bytes) (parentArg : UInt32) : Proc Error (Mtp σ) UInt32 := do
  let m ← Proc.get
  let params ← sendingData "SendObjectInfo" Op.sendObjectInfo [m.storage, parentArg] info
  match params[2]? with
  | some handle => pure handle
  | none => Proc.fail (.device "SendObjectInfo" Resp.ok)

/-- Writes a new object to the device, from bytes the caller holds. -/
def sendObject (parent : UInt32) (name : Str) (data : Bytes) (isFolder : Bool) :
    Proc Error (Mtp σ) UInt32 :=
  if data.length > maxPayloadLen then Proc.fail (.tooLarge data.length)
  else do
    let m ← Proc.get
    let info := ObjectInfo.buildForSend m.storage parent name (UInt32.ofNat data.length) isFolder
    let handle ← announceObject info (parentArg parent)
    if isFolder then pure handle
    else do
      let _ ← sendingData "SendObject" Op.sendObject [] data
      pure handle

/-- Writes a new object, and reads the bytes from a reader.  `size` is the count
of bytes the reader has to give. -/
def sendObjectStream (parent : UInt32) (name : Str) (reader : List ReadAnswer) (size : Nat) :
    Proc Error (Mtp σ) UInt32 :=
  if size > maxPayloadLen then Proc.fail (.tooLarge size)
  else do
    let m ← Proc.get
    let info := ObjectInfo.buildForSend m.storage parent name (UInt32.ofNat size) false
    let handle ← announceObject info (parentArg parent)
    let out ← exec ⟨"SendObject", Op.sendObject, [], some (size, reader)⟩
    dropCache
    let _ ← checked "SendObject" out
    pure handle

/-- Reads the size and the free space of the storage. -/
def storageInfo : Proc Error (Mtp σ) (Nat × Nat) := do
  let m ← Proc.get
  let data ← operation "GetStorageInfo" Op.getStorageInfo [m.storage]
  let info ← (Proc.ofExcept (StorageInfo.parse data)).mapError .parse
  pure (info.maxCapacity, info.freeSpaceInBytes)

/-- Gives an object a new name, in the same folder. -/
def renameObject (handle : UInt32) (name : Str) : Proc Error (Mtp σ) Unit := do
  let _ ← sendingData "SetObjectPropValue" Op.setObjectPropValue
    [handle, Property.objectFileName.toUInt32] (pushString name)
  pure ()

/-- Moves an object to another folder. -/
def moveObject (handle newParent : UInt32) : Proc Error (Mtp σ) Unit := do
  let m ← Proc.get
  let _ ← operationThatChanges "MoveObject" Op.moveObject
    [handle, m.storage, parentArg newParent]
  pure ()

/-- Tells you if the device can give an object a new name. -/
def canRename (m : Mtp σ) : Bool := m.info.supports Op.setObjectPropValue

/-- Tells you if the device can move an object to another folder. -/
def canMove (m : Mtp σ) : Bool := m.info.supports Op.moveObject

/-- Removes an object from the device. -/
def deleteObject (handle : UInt32) : Proc Error (Mtp σ) Unit := do
  let _ ← operationThatChanges "DeleteObject" Op.deleteObject [handle, 0]
  pure ()

/-! ## The start of a mount -/

/-- Reads the identifier of the first storage.  A device can answer with none for
a short time, so the host asks again. -/
def firstStorageIn : Nat → Proc Error (Mtp σ) UInt32
  | 0 => Proc.fail .noStorage
  | attempts + 1 => do
      let data ← operation "GetStorageIDs" Op.getStorageIds []
      match wordsOf ((data.drop 4).take 4) with
      | id :: _ => pure id
      | [] => firstStorageIn attempts

def firstStorage : Proc Error (Mtp σ) UInt32 := firstStorageIn 10

/-- The session of a mount before the device told anything. -/
def fresh (session : σ) (packet : Nat) : Mtp σ where
  session := session
  storage := 0
  partialRead := Op.getPartialObject
  fastList := false
  packet := packet
  cache := none
  info := DeviceInfo.default

/-- Reads what the device can do, once a session is open. -/
def readCapabilities (noProplist : Bool) : Proc Error (Mtp σ) Unit := do
  let raw ← operation "GetDeviceInfo" Op.getDeviceInfo []
  let info ← (Proc.ofExcept (DeviceInfo.parse raw)).mapError .parse
  Proc.modify fun m => { m with
    info := info
    fastList := info.supports Op.getObjectPropList && !noProplist }
  if info.supports Op.getPartialObject64 then
    Proc.modify fun m => { m with partialRead := Op.getPartialObject64 }
  else if info.supports Op.getPartialObject then
    Proc.modify fun m => { m with partialRead := Op.getPartialObject }
  else Proc.fail .noPartialRead
  let storage ← firstStorage
  Proc.modify fun m => { m with storage := storage }

end Mtp

end Bsdroid
