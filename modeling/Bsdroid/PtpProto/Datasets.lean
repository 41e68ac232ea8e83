import Bsdroid.PtpProto.Reader

/-!
# Codes and datasets

The operation, response and property codes the filesystem uses, and the
datasets `GetObjectInfo`, `GetStorageInfo` and `GetDeviceInfo` answer with.
Every dataset is read field by field with the cursor of `Reader`.
-/

namespace Bsdroid

/-! ## Codes -/

namespace Op

def getDeviceInfo : UInt16 := 0x1001
def openSession : UInt16 := 0x1002
def closeSession : UInt16 := 0x1003
def getStorageIds : UInt16 := 0x1004
def getStorageInfo : UInt16 := 0x1005
def getObjectHandles : UInt16 := 0x1007
def getObjectInfo : UInt16 := 0x1008
def deleteObject : UInt16 := 0x100b
def sendObjectInfo : UInt16 := 0x100c
def sendObject : UInt16 := 0x100d
def moveObject : UInt16 := 0x1019
def getPartialObject : UInt16 := 0x101b
def getPartialObject64 : UInt16 := 0x95c1
def setObjectPropValue : UInt16 := 0x9804
def getObjectPropList : UInt16 := 0x9805

end Op

namespace Resp

def ok : UInt16 := 0x2001
def sessionNotOpen : UInt16 := 0x2003
def operationNotSupported : UInt16 := 0x2005
def invalidObjectHandle : UInt16 := 0x2009
def storeFull : UInt16 := 0x200d
def sessionAlreadyOpen : UInt16 := 0x201e

end Resp

namespace Property

def storageId : UInt16 := 0xdc01
def objectFormat : UInt16 := 0xdc02
def objectSize : UInt16 := 0xdc04
def objectFileName : UInt16 := 0xdc07
def parentObject : UInt16 := 0xdc0b

end Property

namespace Format

/-- A folder, which PTP calls an association. -/
def association : UInt16 := 0x3001

/-- A file the device does not classify. -/
def undefined : UInt16 := 0x3000

theorem undefined_ne_association : undefined ≠ association := by decide

end Format

namespace Association

/-- The value of `GetObjectHandles` that names the objects of the root folder. -/
def rootOnly : UInt32 := 0xffffffff

end Association

/-! ## `ObjectInfo` -/

/-- What a device reports about one object. -/
structure ObjectInfo where
  storageId : UInt32
  objectFormat : UInt16
  protectionStatus : UInt16
  compressedSize : UInt32
  imagePixWidth : UInt32
  imagePixHeight : UInt32
  parentObject : UInt32
  associationType : UInt16
  filename : Str
  captureDate : Str
  modificationDate : Str
deriving DecidableEq, Repr

/-- Tells you if the object is a folder. -/
def ObjectInfo.isFolder (i : ObjectInfo) : Bool := i.objectFormat == Format.association

/-- Builds an `ObjectInfo` dataset for `SendObjectInfo`. -/
def ObjectInfo.buildForSend (storageId parent : UInt32) (name : Str) (size : UInt32)
    (isFolder : Bool) : Bytes :=
  le32 storageId ++
  le16 (if isFolder then Format.association else Format.undefined) ++
  le16 0 ++ -- protection status
  le32 size ++
  le16 0 ++ le32 0 ++ le32 0 ++ le32 0 ++ -- the thumbnail fields
  le32 0 ++ le32 0 ++ le32 0 ++ -- the image fields
  le32 parent ++
  le16 (if isFolder then 1 else 0) ++
  le32 0 ++ -- association description
  le32 0 ++ -- sequence number
  pushString name ++
  pushString [] ++ -- capture date
  pushString [] ++ -- modification date
  pushString [] -- keywords

/-- The scalar fields of an `ObjectInfo` dataset, in order, and the name. -/
def ObjectInfo.read : Reader ObjectInfo := do
  let storageId ← Reader.readU32 "storage_id"
  let objectFormat ← Reader.readU16 "object_format"
  let protectionStatus ← Reader.readU16 "protection_status"
  let compressedSize ← Reader.readU32 "compressed_size"
  let _thumbFormat ← Reader.readU16 "thumb_format"
  let _thumbCompressedSize ← Reader.readU32 "thumb_compressed_size"
  let _thumbPixWidth ← Reader.readU32 "thumb_pix_width"
  let _thumbPixHeight ← Reader.readU32 "thumb_pix_height"
  let imagePixWidth ← Reader.readU32 "image_pix_width"
  let imagePixHeight ← Reader.readU32 "image_pix_height"
  let _imageBitDepth ← Reader.readU32 "image_bit_depth"
  let parentObject ← Reader.readU32 "parent_object"
  let associationType ← Reader.readU16 "association_type"
  let _associationDesc ← Reader.readU32 "association_desc"
  let _sequenceNumber ← Reader.readU32 "sequence_number"
  let filename ← Reader.readString "filename"
  -- A device can stop here. An absent string is not a fault.
  let captureDate ← Reader.orDefault (Reader.readString "capture_date") []
  let modificationDate ← Reader.orDefault (Reader.readString "modification_date") []
  pure {
    storageId, objectFormat, protectionStatus, compressedSize, imagePixWidth,
    imagePixHeight, parentObject, associationType, filename, captureDate,
    modificationDate }

/-- Reads an `ObjectInfo` dataset from the payload of a data container. -/
def ObjectInfo.parse (payload : Bytes) : Except ParseError ObjectInfo :=
  (ObjectInfo.read payload).1

/-! ## `StorageInfo` -/

/-- What a device reports about one storage. -/
structure StorageInfo where
  storageType : UInt16
  filesystemType : UInt16
  accessCapability : UInt16
  maxCapacity : Nat
  freeSpaceInBytes : Nat
  freeSpaceInObjects : UInt32
  storageDescription : Str
  volumeIdentifier : Str
deriving DecidableEq, Repr

def StorageInfo.read : Reader StorageInfo := do
  let storageType ← Reader.readU16 "storage_type"
  let filesystemType ← Reader.readU16 "filesystem_type"
  let accessCapability ← Reader.readU16 "access_capability"
  let maxCapacity ← Reader.readU64 "max_capacity"
  let freeSpaceInBytes ← Reader.readU64 "free_space_in_bytes"
  let freeSpaceInObjects ← Reader.readU32 "free_space_in_objects"
  let storageDescription ← Reader.readString "storage_description"
  let volumeIdentifier ← Reader.readString "volume_identifier"
  pure {
    storageType, filesystemType, accessCapability, maxCapacity, freeSpaceInBytes,
    freeSpaceInObjects, storageDescription, volumeIdentifier }

/-- Reads a `StorageInfo` dataset from the payload of a data container. -/
def StorageInfo.parse (payload : Bytes) : Except ParseError StorageInfo :=
  (StorageInfo.read payload).1

/-! ## `DeviceInfo` -/

/-- What a device says about itself. -/
structure DeviceInfo where
  standardVersion : UInt16
  vendorExtensionId : UInt32
  vendorExtensionVersion : UInt16
  vendorExtensionDesc : Str
  operationsSupported : List UInt16
  eventsSupported : List UInt16
  devicePropertiesSupported : List UInt16
  captureFormats : List UInt16
  imageFormats : List UInt16
  manufacturer : Str
  model : Str
  deviceVersion : Str
  serialNumber : Str
deriving DecidableEq, Repr

/-- The default value holds no operation. -/
def DeviceInfo.default : DeviceInfo :=
  ⟨0, 0, 0, [], [], [], [], [], [], [], [], [], []⟩

/-- Tells you if the device supports an operation. -/
def DeviceInfo.supports (i : DeviceInfo) (code : UInt16) : Bool :=
  i.operationsSupported.contains code

/-- The fields of a `DeviceInfo` dataset, in order. -/
def DeviceInfo.read : Reader DeviceInfo := do
  let standardVersion ← Reader.readU16 "standard_version"
  let vendorExtensionId ← Reader.readU32 "vendor_extension_id"
  let vendorExtensionVersion ← Reader.readU16 "vendor_extension_version"
  let vendorExtensionDesc ← Reader.readString "vendor_extension_desc"
  -- The functional mode is not useful here, and the field must still move the cursor.
  let _mode ← Reader.readU16 "functional_mode"
  let operationsSupported ← Reader.readU16Array "operations_supported"
  let eventsSupported ← Reader.readU16Array "events_supported"
  let devicePropertiesSupported ← Reader.readU16Array "device_properties_supported"
  let captureFormats ← Reader.readU16Array "capture_formats"
  let imageFormats ← Reader.readU16Array "image_formats"
  let manufacturer ← Reader.orDefault (Reader.readString "manufacturer") []
  let model ← Reader.orDefault (Reader.readString "model") []
  let deviceVersion ← Reader.orDefault (Reader.readString "device_version") []
  let serialNumber ← Reader.orDefault (Reader.readString "serial_number") []
  pure {
    standardVersion, vendorExtensionId, vendorExtensionVersion, vendorExtensionDesc,
    operationsSupported, eventsSupported, devicePropertiesSupported, captureFormats,
    imageFormats, manufacturer, model, deviceVersion, serialNumber }

/-- Reads a `DeviceInfo` dataset from the payload of a data container. -/
def DeviceInfo.parse (payload : Bytes) : Except ParseError DeviceInfo :=
  (DeviceInfo.read payload).1

/-! ## What the datasets of a writer read back as -/

/-- A field that may be absent never ends the read. -/
theorem Reader.orDefault_ok {α : Type} (r : Reader α) (d : α) (rest : Bytes) :
    ∃ a rest', Reader.orDefault r d rest = (.ok a, rest') := by
  unfold Reader.orDefault
  split
  · exact ⟨_, _, rfl⟩
  · exact ⟨_, _, rfl⟩

/-- A dataset with a name that the count byte holds parses, whatever bytes
follow the name: only the two dates come from those. -/
theorem ObjectInfo.parse_dataset (storage : UInt32) (format protection : UInt16)
    (size : UInt32) (thumbFormat : UInt16) (t1 t2 t3 width height depth parent : UInt32)
    (kind : UInt16) (desc number : UInt32) (name : Str) (tail : Bytes) :
    ∃ capture modification,
      ObjectInfo.parse (le32 storage ++ le16 format ++ le16 protection ++ le32 size ++
        le16 thumbFormat ++ le32 t1 ++ le32 t2 ++ le32 t3 ++ le32 width ++ le32 height ++
        le32 depth ++ le32 parent ++ le16 kind ++ le32 desc ++ le32 number ++
        pushString name ++ tail) =
      .ok ⟨storage, format, protection, size, width, height, parent, kind,
        Utf16.fit 254 name, capture, modification⟩ := by
  obtain ⟨capture, rest, hcapture⟩ :=
    Reader.orDefault_ok (Reader.readString "capture_date") [] tail
  obtain ⟨modification, rest', hmodification⟩ :=
    Reader.orDefault_ok (Reader.readString "modification_date") [] rest
  refine ⟨capture, modification, ?_⟩
  simp only [List.append_assoc]
  unfold ObjectInfo.parse ObjectInfo.read
  rw [Proc.bind_ok (Reader.readU32_le32 _ _ _), Proc.bind_ok (Reader.readU16_le16 _ _ _),
    Proc.bind_ok (Reader.readU16_le16 _ _ _), Proc.bind_ok (Reader.readU32_le32 _ _ _),
    Proc.bind_ok (Reader.readU16_le16 _ _ _), Proc.bind_ok (Reader.readU32_le32 _ _ _),
    Proc.bind_ok (Reader.readU32_le32 _ _ _), Proc.bind_ok (Reader.readU32_le32 _ _ _),
    Proc.bind_ok (Reader.readU32_le32 _ _ _), Proc.bind_ok (Reader.readU32_le32 _ _ _),
    Proc.bind_ok (Reader.readU32_le32 _ _ _), Proc.bind_ok (Reader.readU32_le32 _ _ _),
    Proc.bind_ok (Reader.readU16_le16 _ _ _), Proc.bind_ok (Reader.readU32_le32 _ _ _),
    Proc.bind_ok (Reader.readU32_le32 _ _ _),
    Proc.bind_ok (Reader.readString_pushString _ _ _),
    Proc.bind_ok hcapture, Proc.bind_ok hmodification]
  rfl

/-- What the host announces reads back with the same size, folder, kind and
the name the count byte could hold. -/
theorem ObjectInfo.parse_buildForSend (storage parent : UInt32) (name : Str)
    (size : UInt32) (isFolder : Bool) :
    ∃ i, ObjectInfo.parse (ObjectInfo.buildForSend storage parent name size isFolder) =
        .ok i ∧
      i.parentObject = parent ∧ i.compressedSize = size ∧
      i.isFolder = isFolder ∧ i.filename = Utf16.fit 254 name := by
  obtain ⟨capture, modification, h⟩ := ObjectInfo.parse_dataset storage
    (if isFolder then Format.association else Format.undefined) 0 size 0 0 0 0 0 0 0 parent
    (if isFolder then 1 else 0) 0 0 name (pushString [] ++ pushString [] ++ pushString [])
  have hsame : ObjectInfo.buildForSend storage parent name size isFolder = _ ++ _ ++
      (pushString [] ++ pushString [] ++ pushString []) :=
    (List.append_assoc _ _ _).trans (List.append_assoc _ _ _)
  refine ⟨_, (congrArg ObjectInfo.parse hsame).trans h, rfl, rfl, ?_, rfl⟩
  cases isFolder <;> rfl

/-- A storage dataset reads back. -/
theorem StorageInfo.parse_dataset (kind filesystem access : UInt16) {capacity free : Nat}
    (objects : UInt32) (description volume : Str) (hcapacity : capacity < 2 ^ 64)
    (hfree : free < 2 ^ 64) :
    StorageInfo.parse (le16 kind ++ le16 filesystem ++ le16 access ++ le64 capacity ++
        le64 free ++ le32 objects ++ pushString description ++ pushString volume) =
      .ok ⟨kind, filesystem, access, capacity, free, objects, Utf16.fit 254 description,
        Utf16.fit 254 volume⟩ := by
  have hlast := Reader.readString_pushString "volume_identifier" volume []
  rw [List.append_nil] at hlast
  simp only [List.append_assoc]
  unfold StorageInfo.parse StorageInfo.read
  rw [Proc.bind_ok (Reader.readU16_le16 _ _ _), Proc.bind_ok (Reader.readU16_le16 _ _ _),
    Proc.bind_ok (Reader.readU16_le16 _ _ _),
    Proc.bind_ok (Reader.readU64_le64 _ hcapacity _),
    Proc.bind_ok (Reader.readU64_le64 _ hfree _), Proc.bind_ok (Reader.readU32_le32 _ _ _),
    Proc.bind_ok (Reader.readString_pushString _ _ _), Proc.bind_ok hlast]
  rfl

end Bsdroid
