import Bsdroid.Lib.Forest
import Bsdroid.Mtpfs.Backend

/-!
# A cellphone behind a session

The far end as the standard describes it: a store of objects, which is a forest
below the root, and one answer for each operation.  A `Policy` settles what a
device is free to do: which operations fail and how, which handles new objects
get, how much of a range a partial read gives, how much space is free, whether a
listing of properties names the folder itself, and whether an announced object
shows before its bytes arrive.  What is proved for every policy is proved for
every such device.

The cellphone keeps the requests of the call in progress, and the store after
each of them, so that a statement about every point of a call is a statement
about `trace`.
-/

namespace Bsdroid

/-! ## The store -/

/-- What an object holds beside its name.  `whole` is false while the bytes of a
new object are still to come, and it holds none then. -/
structure Content where
  format : UInt16
  ordinary : format ≠ Format.association
  bytes : Bytes
  whole : Bool
  waiting : whole = false → bytes = []
deriving DecidableEq

abbrev Object := Node UInt32 Str Content

abbrev Objects := Forest UInt32 Str Content root

/-- The format code of an object. -/
def Object.format (x : Object) : UInt16 :=
  if x.folder then Format.association else x.content.format

/-- The size of an object, in bytes. -/
def Object.size (x : Object) : Nat := x.content.bytes.length

/-- An object every operation can speak about: its handle names one object, the
count byte holds its name, and 64 bits hold its size. -/
structure Object.Sound (x : Object) : Prop where
  single : x.key ≠ 0xffffffff
  named : (Utf16.encode x.name).length ≤ 254
  sized : x.size < 2 ^ 64

/-- The objects of a cellphone, and every handle it ever gave. -/
structure Store where
  objects : Objects
  used : List UInt32
  covers : ∀ x ∈ objects.nodes, x.key ∈ used
  sound : ∀ x ∈ objects.nodes, Object.Sound x

namespace Store

/-- The object with a handle. -/
def find (s : Store) (h : UInt32) : Option Object := s.objects.find h

/-- The objects a folder holds. -/
def children (s : Store) (p : UInt32) : List Object := s.objects.children p

/-- A handle a device can list: the root, or an object. -/
def Lists (s : Store) (p : UInt32) : Prop := p = root ∨ (s.find p).isSome

instance (s : Store) (p : UInt32) : Decidable (s.Lists p) := inferInstanceAs (Decidable (_ ∨ _))

/-- Removes an object, and everything a folder holds with it. -/
def remove (s : Store) (h : UInt32) : Store where
  objects := s.objects.remove h
  used := s.used
  covers x hx := s.covers x (s.objects.mem_remove.mp hx).1
  sound x hx := s.sound x (s.objects.mem_remove.mp hx).1

/-- Gives an object another name.  A name that takes too many code units arrives
cut. -/
def rename (s : Store) (h : UInt32) (name : Str) : Store where
  objects := s.objects.rename h (Utf16.fit 254 name)
  used := s.used
  covers y hy := by
    obtain ⟨x, hx, rfl⟩ := s.objects.mem_adjust.mp hy
    split
    · exact s.covers x hx
    · exact s.covers x hx
  sound y hy := by
    obtain ⟨x, hx, rfl⟩ := s.objects.mem_adjust.mp hy
    have hs := s.sound x hx
    split
    · exact ⟨hs.single, Utf16.length_encode_fit_le 254 name, hs.sized⟩
    · exact hs

/-- Puts the bytes of an announced object in their place. -/
def write (s : Store) (h : UInt32) (c : Content) : Option Store :=
  if hc : c.bytes.length < 2 ^ 64 then
    some {
      objects := s.objects.write h c
      used := s.used
      covers := by
        intro y hy
        obtain ⟨x, hx, rfl⟩ := s.objects.mem_adjust.mp hy
        split
        · exact s.covers x hx
        · exact s.covers x hx
      sound := by
        intro y hy
        obtain ⟨x, hx, rfl⟩ := s.objects.mem_adjust.mp hy
        have hs := s.sound x hx
        split
        · exact ⟨hs.single, hs.named, hc⟩
        · exact hs }
  else none

/-- Puts an object into another folder. -/
def move (s : Store) (h p : UInt32) : Option Store :=
  match hmove : s.objects.move h p with
  | none => none
  | some objects =>
      some {
        objects := objects
        used := s.used
        covers := by
          intro y hy
          rw [(s.objects.move_eq_some hmove).2.2.2] at hy
          obtain ⟨x, hx, rfl⟩ := s.objects.mem_adjust.mp hy
          split
          · exact s.covers x hx
          · exact s.covers x hx
        sound := by
          intro y hy
          rw [(s.objects.move_eq_some hmove).2.2.2] at hy
          obtain ⟨x, hx, rfl⟩ := s.objects.mem_adjust.mp hy
          have hs := s.sound x hx
          split
          · exact ⟨hs.single, hs.named, hs.sized⟩
          · exact hs }

/-- Adds an object under a handle the cellphone never gave before. -/
def insert (s : Store) (x : Object) : Option Store :=
  if hx : x.key ∉ s.used ∧ x.key ≠ 0xffffffff ∧ (Utf16.encode x.name).length ≤ 254 ∧
      x.size < 2 ^ 64 then
    match hins : s.objects.insert x with
    | none => none
    | some objects =>
        some {
          objects := objects
          used := x.key :: s.used
          covers := by
            intro y hy
            rw [(s.objects.insert_eq_some hins).2.2] at hy
            rcases List.mem_append.mp hy with hold | hnew
            · exact List.mem_cons_of_mem _ (s.covers y hold)
            · rw [List.mem_singleton.mp hnew]
              exact List.mem_cons_self
          sound := by
            intro y hy
            rw [(s.objects.insert_eq_some hins).2.2] at hy
            rcases List.mem_append.mp hy with hold | hnew
            · exact s.sound y hold
            · rw [List.mem_singleton.mp hnew]
              exact ⟨hx.2.1, hx.2.2.1, hx.2.2.2⟩ }
  else none

/-- The empty store. -/
def empty : Store where
  objects := ⟨[], List.nodup_nil, by simp, by simp, ⟨fun _ => 0, by simp⟩⟩
  used := []
  covers := by simp
  sound := by simp

end Store

/-! ## What a device is free to do -/

/-- A fault of one operation.  A `code` and a `transport` fault have no effect,
and a `lost` one has the whole effect and no answer. -/
inductive Fault where
  | code (c : UInt16) (fails : c ≠ Resp.ok)
  | transport (e : SessionError)
  | lost (e : SessionError)

/-- The fields of an `ObjectInfo` dataset that no listing reads, and what
follows the name. -/
structure Dressing where
  protection : UInt16
  thumbFormat : UInt16
  thumbSize : UInt32
  thumbWidth : UInt32
  thumbHeight : UInt32
  width : UInt32
  height : UInt32
  depth : UInt32
  description : UInt32
  number : UInt32
  tail : Bytes

/-- What a device does where the standard leaves a choice.  Each choice may
depend on the requests of the call so far and on the store. -/
structure Policy where
  fault : List Request → Store → Request → Option Fault
  alloc : List Request → Store → UInt32
  given : List Request → Store → Nat
  capacity : List Request → Store → Nat
  free : List Request → Store → Nat
  includesFolder : Bool
  keeps : Bool
  dressing : UInt32 → Dressing

/-- A device that does every operation, gives whole ranges, and numbers new
objects upwards. -/
def Policy.obliging : Policy where
  fault _ _ _ := none
  alloc _ s := s.used.foldr max 0 + 1
  given _ _ := 2 ^ 64
  capacity _ _ := 2 ^ 63
  free _ _ := 2 ^ 62
  includesFolder := false
  keeps := false
  dressing _ := ⟨0, 0, 0, 0, 0, 0, 0, 0, 0, 0, []⟩

/-- A cellphone. -/
structure Phone where
  store : Store
  announced : Option Object
  storage : UInt32
  policy : Policy
  log : List Request
  trace : List Store

namespace Phone

/-! ## Answers -/

/-- The answer of an operation that worked. -/
def accept (data : Bytes) (params : List UInt32) : Outcome := ⟨Resp.ok, data, params, 1⟩

@[simp] theorem accept_data (data : Bytes) (params : List UInt32) :
    (accept data params).data = data := rfl

@[simp] theorem accept_isOk (data : Bytes) (params : List UInt32) :
    (accept data params).isOk = true := rfl

/-- The answer of an operation the device refuses. -/
def refuse (code : UInt16) : Outcome := ⟨code, [], [], 1⟩

theorem refuse_isOk {code : UInt16} (h : code ≠ Resp.ok) : (refuse code).isOk = false :=
  decide_eq_false h

/-- One element of a property list. -/
def propElement (code : UInt16) (x : Object) : Bytes :=
  le32 x.key ++ le16 code ++
    (if code = Property.objectFileName then le16 DataType.str ++ pushString x.name
    else if code = Property.objectSize then le16 DataType.uint64 ++ le64 x.size
    else le16 DataType.uint16 ++ le16 x.format)

/-- The objects a property list names: those of the folder, and with some
devices the folder itself. -/
def named (p : Phone) (arg : UInt32) : List Object :=
  (if p.policy.includesFolder then (p.store.find arg).toList else []) ++ p.store.children arg

/-- `GetObjectPropList`, for one property of the objects of a folder. -/
def propList (p : Phone) : List UInt32 → Outcome
  | [arg, _, code, _, _] =>
      if p.store.Lists arg ∧ code.toUInt16 ∈ Mtp.wanted then
        let objects := p.named arg
        accept (le32 (UInt32.ofNat objects.length) ++
          objects.flatMap (propElement code.toUInt16)) []
      else refuse Resp.invalidObjectHandle
  | _ => refuse Resp.invalidObjectHandle

/-- The folder an argument names: the root has a value of its own. -/
def folderOf (arg : UInt32) : UInt32 := if arg = Association.rootOnly then root else arg

/-- `GetObjectHandles`. -/
def handles (p : Phone) : List UInt32 → Outcome
  | [_, _, arg] =>
      if p.store.Lists (folderOf arg) then
        let keys := (p.store.children (folderOf arg)).map Node.key
        accept (le32 (UInt32.ofNat keys.length) ++ keys.flatMap le32) []
      else refuse Resp.invalidObjectHandle
  | _ => refuse Resp.invalidObjectHandle

/-- The dataset of one object.  A size that 32 bits do not hold reads as
`0xffffffff`. -/
def dataset (p : Phone) (x : Object) : Bytes :=
  let d := p.policy.dressing x.key
  le32 p.storage ++ le16 x.format ++ le16 d.protection ++
    le32 (UInt32.ofNat (min x.size 0xffffffff)) ++
    le16 d.thumbFormat ++ le32 d.thumbSize ++ le32 d.thumbWidth ++ le32 d.thumbHeight ++
    le32 d.width ++ le32 d.height ++ le32 d.depth ++ le32 x.parent ++
    le16 (if x.folder then 1 else 0) ++ le32 d.description ++ le32 d.number ++
    pushString x.name ++ d.tail

/-- `GetObjectInfo`. -/
def objectInfo (p : Phone) : List UInt32 → Outcome
  | [h] =>
      match p.store.find h with
      | some x => accept (p.dataset x) []
      | none => refuse Resp.invalidObjectHandle
  | _ => refuse Resp.invalidObjectHandle

/-- A prefix of a range of an object. -/
def partialObject (p : Phone) (h : UInt32) (offset want : Nat) : Outcome :=
  match p.store.find h with
  | some x =>
      accept (((x.content.bytes.drop offset).take want).take (p.policy.given p.log p.store)) []
  | none => refuse Resp.invalidObjectHandle

/-- `GetStorageInfo`. -/
def storageInfo (p : Phone) : Outcome :=
  accept (le16 3 ++ le16 2 ++ le16 0 ++ le64 (p.policy.capacity p.log p.store % 2 ^ 64) ++
    le64 (p.policy.free p.log p.store % 2 ^ 64) ++ le32 0xffffffff ++ pushString [] ++
    pushString []) []

/-- `DeleteObject`. -/
def deleteObject (p : Phone) : List UInt32 → Outcome × Phone
  | h :: _ =>
      if (p.store.find h).isSome then
        (accept [] [], { p with store := p.store.remove h })
      else (refuse Resp.invalidObjectHandle, p)
  | [] => (refuse Resp.invalidObjectHandle, p)

/-- `MoveObject`. -/
def moveObject (p : Phone) : List UInt32 → Outcome × Phone
  | [h, _, arg] =>
      match p.store.move h (folderOf arg) with
      | some store => (accept [] [], { p with store := store })
      | none => (refuse Resp.invalidObjectHandle, p)
  | _ => (refuse Resp.invalidObjectHandle, p)

/-- `SetObjectPropValue`, for the name of an object. -/
def setObjectName (p : Phone) (payload : Bytes) : List UInt32 → Outcome × Phone
  | [h, code] =>
      match (Reader.readString "prop_str" payload).1 with
      | .ok name =>
          if code = Property.objectFileName.toUInt32 ∧ (p.store.find h).isSome then
            (accept [] [], { p with store := p.store.rename h name })
          else (refuse Resp.invalidObjectHandle, p)
      | .error _ => (refuse Resp.invalidObjectHandle, p)
  | _ => (refuse Resp.invalidObjectHandle, p)

/-- The object `SendObjectInfo` announces. -/
def announcement (handle parent : UInt32) (info : ObjectInfo) : Object where
  key := handle
  parent := parent
  name := info.filename
  folder := info.isFolder
  content :=
    if h : info.objectFormat = Format.association then
      ⟨Format.undefined, Format.undefined_ne_association, [], true, fun _ => rfl⟩
    else ⟨info.objectFormat, h, [], info.isFolder, fun _ => rfl⟩

/-- `SendObjectInfo`.  A folder is there at once.  A file waits for its bytes,
and some devices show it meanwhile. -/
def sendObjectInfo (p : Phone) (payload : Bytes) : List UInt32 → Outcome × Phone
  | [storage, arg] =>
      match ObjectInfo.parse payload with
      | .error _ => (refuse Resp.invalidObjectHandle, p)
      | .ok info =>
          let x := announcement (p.policy.alloc p.log p.store) (folderOf arg) info
          match p.store.insert x with
          | none => (refuse Resp.storeFull, p)
          | some store =>
              let answer := accept [] [storage, x.parent, x.key]
              if x.folder then (answer, { p with store := store, announced := none })
              else if p.policy.keeps then
                (answer, { p with store := store, announced := some x })
              else (answer, { p with announced := some x })
  | _ => (refuse Resp.invalidObjectHandle, p)

/-- The content of an object whose bytes arrived. -/
def Content.filled (c : Content) (bytes : Bytes) : Content :=
  { c with bytes := bytes, whole := true, waiting := by simp }

/-- The store once the bytes of the announced object `x` arrived. -/
def fill (s : Store) (x : Object) (bytes : Bytes) : Option Store :=
  match s.find x.key with
  | none => s.insert { x with content := Content.filled x.content bytes }
  | some y =>
      if y.content.whole then none else s.write x.key (Content.filled y.content bytes)

/-- `SendObject`: the bytes of the announced object. -/
def sendObject (p : Phone) (payload : Bytes) : Outcome × Phone :=
  match p.announced with
  | none => (refuse Resp.invalidObjectHandle, p)
  | some x =>
      match fill p.store x payload with
      | some store => (accept [] [], { p with store := store, announced := none })
      | none => (refuse Resp.storeFull, p)

/-- The answer for each operation, and the cellphone after it. -/
def serve (p : Phone) (code : UInt16) (params : List UInt32) (payload : Bytes) :
    Outcome × Phone :=
  if code = Op.getObjectPropList then (p.propList params, p)
  else if code = Op.getObjectHandles then (p.handles params, p)
  else if code = Op.getObjectInfo then (p.objectInfo params, p)
  else if code = Op.getPartialObject64 then
    match params with
    | [h, low, high, want] => (p.partialObject h (low.toNat + high.toNat * 2 ^ 32) want.toNat, p)
    | _ => (refuse Resp.invalidObjectHandle, p)
  else if code = Op.getPartialObject then
    match params with
    | [h, offset, want] => (p.partialObject h offset.toNat want.toNat, p)
    | _ => (refuse Resp.invalidObjectHandle, p)
  else if code = Op.getStorageInfo then (p.storageInfo, p)
  else if code = Op.deleteObject then p.deleteObject params
  else if code = Op.moveObject then p.moveObject params
  else if code = Op.setObjectPropValue then p.setObjectName payload params
  else if code = Op.sendObjectInfo then p.sendObjectInfo payload params
  else if code = Op.sendObject then p.sendObject payload
  else (refuse Resp.operationNotSupported, p)

/-- The payload the device takes, once the reader gave all of it. -/
def received (r : Request) : Except SessionError Bytes :=
  match r.payload with
  | none => .ok []
  | some (size, reader) =>
      match containerLength size with
      | .error e => .error (.build r.step e)
      | .ok _ => (readExactOrShort r.step size [] reader).1

/-- An operation without a fault.  A payload that the host cannot give in full
ends it with no effect. -/
def perform (p : Phone) (r : Request) : Except SessionError Outcome × Phone :=
  match received r with
  | .error e => (.error e, p)
  | .ok payload =>
      let a := p.serve r.code r.params payload
      (.ok a.1, a.2)

/-- Notes a request, and the store after it. -/
def record (p : Phone) (r : Request) : Phone :=
  { p with log := p.log ++ [r], trace := p.trace ++ [p.store] }

/-- One operation, with the fault the policy gives it. -/
def exec (r : Request) : Proc SessionError Phone Outcome := fun p =>
  match p.policy.fault p.log p.store r with
  | none => ((p.perform r).1, (p.perform r).2.record r)
  | some (.code c _) => (.ok (refuse c), p.record r)
  | some (.transport e) => (.error e, p.record r)
  | some (.lost e) => (.error e, (p.perform r).2.record r)

instance : Link Phone where
  exec := exec

/-- A cellphone between two calls. -/
def holding (store : Store) (policy : Policy) : Phone where
  store := store
  announced := none
  storage := 0x00010001
  policy := policy
  log := []
  trace := []

end Phone

end Bsdroid
