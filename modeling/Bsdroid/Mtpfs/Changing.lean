import Bsdroid.Cellphone.Changes
import Bsdroid.MtpSession.Sending
import Bsdroid.Mtpfs.Operation

/-!
# What a change does on the cellphone

Each operation that changes the device either works, and the store is the store after
its change, or fails.  Without a fault it fails only where the cellphone refuses it.
-/

namespace Bsdroid

/-- A fault without an effect. -/
def Fault.Idle : Fault → Prop
  | .code _ _ => True
  | .transport _ => True
  | .lost _ => False

/-- The device does the operation, and says so. -/
def Phone.Works (p : Phone) (r : Request) : Prop :=
  ∃ out, (Phone.exec r p).1 = .ok out ∧ out.isOk = true

namespace Mtp

/-- Between two states of a mount the device is the same device, and the mount knows the
same facts about it.  The objects can differ. -/
structure SamePhone (m m' : Mtp Phone) : Prop where
  device : m'.session.storage = m.session.storage
  policy : m'.session.policy = m.session.policy
  storage : m'.storage = m.storage
  partialRead : m'.partialRead = m.partialRead
  packet : m'.packet = m.packet
  info : m'.info = m.info

theorem SamePhone.trans {a b c : Mtp Phone} (h : SamePhone a b) (h' : SamePhone b c) :
    SamePhone a c :=
  ⟨h'.device.trans h.device, h'.policy.trans h.policy, h'.storage.trans h.storage,
    h'.partialRead.trans h.partialRead, h'.packet.trans h.packet, h'.info.trans h.info⟩

theorem SameDevice.samePhone {m m' : Mtp Phone} (h : SameDevice m m') : SamePhone m m' :=
  ⟨h.device, h.policy, h.storage, h.partialRead, h.packet, h.info⟩

/-! ## The requests -/

def deleteRequest (h : UInt32) : Request := ⟨"DeleteObject", Op.deleteObject, [h, 0], none⟩

def renameRequest (h : UInt32) (name : Str) : Request :=
  ⟨"SetObjectPropValue", Op.setObjectPropValue, [h, Property.objectFileName.toUInt32],
    some ((pushString name).length, [.bytes (pushString name)])⟩

def moveRequest (storage h p : UInt32) : Request :=
  ⟨"MoveObject", Op.moveObject, [h, storage, parentArg p], none⟩

/-! ## What they do -/

/-- The device made one change, and holds these objects now. -/
structure Turned (m m' : Mtp Phone) (s : Store) : Prop extends SamePhone m m' where
  store : m'.session.store = s
  announced : m'.session.announced = m.session.announced

section

variable {m : Mtp Phone} {h p : UInt32} {name : Str} {s : Store}

/-- Without a fault the device does the operation. -/
theorem exec_unfaulted {r : Request}
    (hfault : m.session.policy.fault m.session.log m.session.store r = none) :
    exec r m = ((m.session.perform r).1.mapError .session,
      { m with session := (m.session.perform r).2.record r }) := by
  rw [exec_run, Phone.exec, hfault]

/-- The mount after a change the device made. -/
def changed (m : Mtp Phone) (q : Phone) (r : Request) : Mtp Phone :=
  { m with session := q.record r, cache := none }

/-- An operation that changes the device, when the device does it. -/
theorem operationThatChanges_ok {step : String} {code : UInt16} {params : List UInt32}
    {out : Outcome} {q : Phone}
    (hfault : m.session.policy.fault m.session.log m.session.store
      ⟨step, code, params, none⟩ = none)
    (hserve : m.session.serve code params [] = (out, q)) (hok : out.isOk = true) :
    operationThatChanges step code params m =
      (.ok out.responseParams, changed m q ⟨step, code, params, none⟩) := by
  have hexec : exec ⟨step, code, params, none⟩ m =
      (.ok out, { m with session := q.record ⟨step, code, params, none⟩ }) := by
    rw [exec_unfaulted hfault]
    show ((Except.ok (m.session.serve code params []).1 : Except SessionError Outcome).mapError
      Error.session, { m with session := (m.session.serve code params []).2.record _ }) = _
    rw [hserve]
    rfl
  rw [operationThatChanges, Proc.bind_ok hexec, dropCache, Proc.bind_ok (Proc.modify_run _ _),
    checked, if_pos hok]
  rfl

/-- The device takes the bytes of a dataset as they are. -/
theorem received_bytes (step : String) (code : UInt16) (params : List UInt32) {payload : Bytes}
    (hsize : payload.length ≤ maxPayloadLen) :
    Phone.received ⟨step, code, params, some (payload.length, [.bytes payload])⟩ = .ok payload := by
  have hgiven : given [.bytes payload] = payload := by
    cases payload with
    | nil => rfl
    | cons b bs => exact List.append_nil _
  obtain ⟨rest, hread, -⟩ := @readExactOrShort_enough step payload.length []
    [.bytes payload] (by rw [hgiven]; exact Nat.le_add_left _ _) (Nat.zero_le _)
  rw [hgiven, List.nil_append, List.length_nil, Nat.sub_zero, List.take_length] at hread
  have hlength : containerLength payload.length =
      .ok (UInt32.ofNat (headerLen + payload.length)) := if_neg (Nat.not_lt_of_le hsize)
  simp only [Phone.received, hlength, hread]

/-- An operation that carries a dataset, when the device does it. -/
theorem sendingData_ok {step : String} {code : UInt16} {params : List UInt32} {payload : Bytes}
    {out : Outcome} {q : Phone}
    (hfault : m.session.policy.fault m.session.log m.session.store
      ⟨step, code, params, some (payload.length, [.bytes payload])⟩ = none)
    (hsize : payload.length ≤ maxPayloadLen)
    (hserve : m.session.serve code params payload = (out, q)) (hok : out.isOk = true) :
    sendingData step code params payload m = (.ok out.responseParams,
      changed m q ⟨step, code, params, some (payload.length, [.bytes payload])⟩) := by
  have hreceived := received_bytes step code params hsize
  have hexec : exec ⟨step, code, params, some (payload.length, [.bytes payload])⟩ m =
      (.ok out, { m with
        session := q.record ⟨step, code, params, some (payload.length, [.bytes payload])⟩ }) := by
    rw [exec_unfaulted hfault, Phone.perform, hreceived]
    dsimp only
    rw [hserve]
    rfl
  rw [sendingData, Proc.bind_ok hexec, dropCache, Proc.bind_ok (Proc.modify_run _ _),
    checked, if_pos hok]
  rfl

/-- An operation that meets a fault fails, and leaves the device as it is unless the fault is
a lost answer. -/
theorem checked_faulted (step : String) {r : Request} {f : Fault}
    (hfault : m.session.policy.fault m.session.log m.session.store r = some f) :
    ∃ e m', (do
        let out ← exec r
        dropCache
        let out ← checked step out
        pure out.responseParams : Proc Error (Mtp Phone) (List UInt32)) m = (.error e, m') ∧
      (f.Idle → Turned m m' m.session.store) := by
  have hidle : Turned m (changed m m.session r) m.session.store :=
    ⟨⟨rfl, rfl, rfl, rfl, rfl, rfl⟩, rfl, rfl⟩
  have hexec := exec_run r m
  rw [Phone.exec, hfault] at hexec
  cases f with
  | code c fails =>
      refine ⟨.device step c, changed m m.session r, ?_, fun _ => hidle⟩
      rw [Proc.bind_ok hexec, dropCache, Proc.bind_ok (Proc.modify_run _ _), checked,
        Phone.refuse_isOk fails, if_neg Bool.false_ne_true]
      rfl
  | transport e =>
      refine ⟨.session e, { m with session := m.session.record r }, ?_, fun _ => ?_⟩
      · rw [Proc.bind_error hexec]
      · exact ⟨⟨rfl, rfl, rfl, rfl, rfl, rfl⟩, rfl, rfl⟩
  | lost e => exact ⟨.session e, _, by rw [Proc.bind_error hexec], fun hidle => hidle.elim⟩

/-- An operation that the device refuses. -/
theorem checked_refused (step : String) {r : Request} {q : Phone} {out : Outcome}
    (hfault : m.session.policy.fault m.session.log m.session.store r = none)
    (hperform : m.session.perform r = (.ok out, q)) (hno : out.isOk = false) :
    ∃ e m', (do
        let out ← exec r
        dropCache
        let out ← checked step out
        pure out.responseParams : Proc Error (Mtp Phone) (List UInt32)) m = (.error e, m') := by
  have hexec := exec_unfaulted hfault
  rw [hperform] at hexec
  refine ⟨.device step out.responseCode, changed m q r, ?_⟩
  rw [Proc.bind_ok hexec, dropCache, Proc.bind_ok (Proc.modify_run _ _), checked, hno,
    if_neg Bool.false_ne_true]
  rfl

/-- **An operation that carried a dataset and worked** got the honest answer. -/
theorem sendingData_of_ok {step : String} {code : UInt16} {params out : List UInt32}
    {payload : Bytes} {m' : Mtp Phone} (hsize : payload.length ≤ maxPayloadLen)
    (hrun : sendingData step code params payload m = (.ok out, m')) :
    (m.session.serve code params payload).1.isOk = true ∧
      out = (m.session.serve code params payload).1.responseParams ∧
      m' = changed m (m.session.serve code params payload).2
        ⟨step, code, params, some (payload.length, [.bytes payload])⟩ := by
  cases hfault : m.session.policy.fault m.session.log m.session.store
      ⟨step, code, params, some (payload.length, [.bytes payload])⟩ with
  | some f =>
      obtain ⟨e, m'', hrun', -⟩ := checked_faulted step hfault
      cases hrun.symm.trans hrun'
  | none =>
      by_cases hok : (m.session.serve code params payload).1.isOk = true
      · rw [sendingData_ok hfault hsize rfl hok] at hrun
        cases hrun
        exact ⟨hok, rfl, rfl⟩
      · have hperform : m.session.perform
            ⟨step, code, params, some (payload.length, [.bytes payload])⟩ =
              (.ok (m.session.serve code params payload).1,
                (m.session.serve code params payload).2) := by
          rw [Phone.perform, received_bytes step code params hsize]
        obtain ⟨e, m'', hrun'⟩ := checked_refused step hfault hperform (Bool.not_eq_true _ ▸ hok)
        cases hrun.symm.trans hrun'

/-- A name takes at most 511 bytes. -/
theorem length_pushString_le_bytes (name : Str) : (pushString name).length ≤ 511 := by
  rw [pushString]
  by_cases hnil : name = []
  · rw [if_pos hnil]
    decide
  · rw [if_neg hnil]
    have hcut : (Utf16.cut 254 (Utf16.encode name)).length ≤ 254 := by
      rw [Utf16.cut_encode]
      exact Utf16.length_encode_fit_le 254 name
    have htwo : ∀ us : List Nat, (us.flatMap (LittleEndian.encode 2)).length = 2 * us.length := by
      intro us
      induction us with
      | nil => rfl
      | cons u us ih =>
          rw [List.flatMap_cons, List.length_append, ih, LittleEndian.length_encode,
            List.length_cons]
          omega
    simp only [List.length_append, List.length_cons, htwo, LittleEndian.length_encode]
    omega

/-- A name fits a container. -/
theorem length_pushString_le (name : Str) : (pushString name).length ≤ maxPayloadLen :=
  Nat.le_trans (length_pushString_le_bytes name) (by decide)

/-- An announcement fits a container. -/
theorem length_buildForSend_le (storage parent : UInt32) (name : Str) (size : UInt32)
    (isFolder : Bool) :
    (ObjectInfo.buildForSend storage parent name size isFolder).length ≤ maxPayloadLen := by
  have hname := length_pushString_le_bytes name
  have hnil : (pushString []).length = 1 := by decide
  have hword : ∀ v : UInt32, (le32 v).length = 4 := fun v => LittleEndian.length_encode 4 _
  have hhalf : ∀ v : UInt16, (le16 v).length = 2 := fun v => LittleEndian.length_encode 2 _
  have hmax : 566 ≤ maxPayloadLen := by decide
  simp only [ObjectInfo.buildForSend, List.length_append, hnil, hword, hhalf]
  omega

/-- **A delete** of an object the device holds. -/
theorem deleteObject_ok
    (hfault : m.session.policy.fault m.session.log m.session.store (deleteRequest h) = none)
    (hfind : (m.session.store.find h).isSome) :
    ∃ m', deleteObject h m = (.ok (), m') ∧ Turned m m' (m.session.store.remove h) := by
  have hserve : m.session.serve Op.deleteObject [h, 0] [] =
      (Phone.accept [] [], { m.session with store := m.session.store.remove h }) := by
    change m.session.deleteObject [h, 0] = _
    rw [Phone.deleteObject, if_pos hfind]
  refine ⟨changed m { m.session with store := m.session.store.remove h } (deleteRequest h), ?_, ?_⟩
  · rw [deleteObject, Proc.bind_ok (operationThatChanges_ok hfault hserve rfl)]
    rfl
  · exact ⟨⟨rfl, rfl, rfl, rfl, rfl, rfl⟩, rfl, rfl⟩

/-- The device renames an object that it holds. -/
theorem serve_rename (q : Phone) (h : UInt32) (name : Str) :
    q.serve Op.setObjectPropValue [h, Property.objectFileName.toUInt32] (pushString name) =
      if (q.store.find h).isSome then
        (Phone.accept [] [], { q with store := q.store.rename h name })
      else (Phone.refuse Resp.invalidObjectHandle, q) := by
  have hread : (Reader.readString "prop_str" (pushString name)).1 = .ok (Utf16.fit 254 name) := by
    have hread := Reader.readString_pushString "prop_str" name []
    rw [List.append_nil] at hread
    rw [hread]
  have hcut : q.store.rename h (Utf16.fit 254 name) = q.store.rename h name := by
    have hfit : Utf16.fit 254 (Utf16.fit 254 name) = Utf16.fit 254 name :=
      Utf16.fit_eq_self (Utf16.length_encode_fit_le 254 name)
    simp only [Store.rename, hfit]
  change q.setObjectName (pushString name) [h, Property.objectFileName.toUInt32] = _
  rw [Phone.setObjectName, hread]
  dsimp only
  by_cases hfind : (q.store.find h).isSome
  · rw [if_pos ⟨rfl, hfind⟩, if_pos hfind, hcut]
  · rw [if_neg fun hboth => hfind hboth.2, if_neg hfind]

/-- **A rename** of an object the device holds. -/
theorem renameObject_ok
    (hfault : m.session.policy.fault m.session.log m.session.store (renameRequest h name) = none)
    (hfind : (m.session.store.find h).isSome) :
    ∃ m', renameObject h name m = (.ok (), m') ∧ Turned m m' (m.session.store.rename h name) := by
  have hserve := serve_rename m.session h name
  rw [if_pos hfind] at hserve
  refine ⟨changed m { m.session with store := m.session.store.rename h name }
    (renameRequest h name), ?_, ?_⟩
  · rw [renameObject, Proc.bind_ok (sendingData_ok hfault (length_pushString_le name) hserve rfl)]
    rfl
  · exact ⟨⟨rfl, rfl, rfl, rfl, rfl, rfl⟩, rfl, rfl⟩

/-- The device reads the folder that an argument names. -/
theorem folderOf_parentArg (hp : p ≠ 0xffffffff) : Phone.folderOf (parentArg p) = p := by
  rw [parentArg]
  by_cases hroot : p = root
  · rw [if_pos hroot, hroot]
    rfl
  · rw [if_neg hroot]
    exact if_neg hp

/-- The device moves an object where it can. -/
theorem serve_move (q : Phone) (h storage : UInt32) (hp : p ≠ 0xffffffff) :
    q.serve Op.moveObject [h, storage, parentArg p] [] =
      (q.store.move h p).elim (Phone.refuse Resp.invalidObjectHandle, q)
        fun s => (Phone.accept [] [], { q with store := s }) := by
  change q.moveObject [h, storage, parentArg p] = _
  rw [Phone.moveObject, folderOf_parentArg hp]
  cases q.store.move h p with
  | none => rfl
  | some s => rfl

/-- **A move** of an object the device can put into a folder. -/
theorem moveObject_ok
    (hfault : m.session.policy.fault m.session.log m.session.store (moveRequest m.storage h p) =
      none)
    (hp : p ≠ 0xffffffff) (hmove : m.session.store.move h p = some s) :
    ∃ m', moveObject h p m = (.ok (), m') ∧ Turned m m' s := by
  have hserve := serve_move m.session h m.storage hp
  rw [hmove, Option.elim_some] at hserve
  refine ⟨changed m { m.session with store := s } (moveRequest m.storage h p), ?_, ?_⟩
  · rw [moveObject, Proc.bind_ok (Proc.get_run _),
      Proc.bind_ok (operationThatChanges_ok hfault hserve rfl)]
    rfl
  · exact ⟨⟨rfl, rfl, rfl, rfl, rfl, rfl⟩, rfl, rfl⟩

/-! ## What they do not do -/

theorem deleteObject_faulted {f : Fault}
    (hfault : m.session.policy.fault m.session.log m.session.store (deleteRequest h) = some f) :
    ∃ e m', deleteObject h m = (.error e, m') ∧ (f.Idle → Turned m m' m.session.store) := by
  obtain ⟨e, m', hrun, hidle⟩ := checked_faulted "DeleteObject" hfault
  exact ⟨e, m', Proc.bind_error hrun, hidle⟩

theorem renameObject_faulted {f : Fault}
    (hfault : m.session.policy.fault m.session.log m.session.store (renameRequest h name) =
      some f) :
    ∃ e m', renameObject h name m = (.error e, m') ∧ (f.Idle → Turned m m' m.session.store) := by
  obtain ⟨e, m', hrun, hidle⟩ := checked_faulted "SetObjectPropValue" hfault
  exact ⟨e, m', Proc.bind_error hrun, hidle⟩

theorem moveObject_faulted {f : Fault}
    (hfault : m.session.policy.fault m.session.log m.session.store (moveRequest m.storage h p) =
      some f) :
    ∃ e m', moveObject h p m = (.error e, m') ∧ (f.Idle → Turned m m' m.session.store) := by
  obtain ⟨e, m', hrun, hidle⟩ := checked_faulted "MoveObject" hfault
  refine ⟨e, m', ?_, hidle⟩
  rw [moveObject, Proc.bind_ok (Proc.get_run _)]
  exact Proc.bind_error hrun

/-- A rename that worked met no fault. -/
theorem unfaulted_of_renameObject {m' : Mtp Phone} (hrun : renameObject h name m = (.ok (), m')) :
    m.session.policy.fault m.session.log m.session.store (renameRequest h name) = none := by
  by_contra hfault
  obtain ⟨f, hf⟩ := Option.ne_none_iff_exists'.mp hfault
  obtain ⟨e, m'', hrun', -⟩ := renameObject_faulted hf
  rw [hrun'] at hrun
  cases hrun

/-- **A rename that worked** gave the object its name. -/
theorem renameObject_of_ok {m' : Mtp Phone} (hrun : renameObject h name m = (.ok (), m')) :
    (m.session.store.find h).isSome ∧ Turned m m' (m.session.store.rename h name) := by
  have hfault := unfaulted_of_renameObject hrun
  by_cases hfind : (m.session.store.find h).isSome
  · obtain ⟨m'', hrun', hturned⟩ := renameObject_ok hfault hfind
    cases hrun.symm.trans hrun'
    exact ⟨hfind, hturned⟩
  · rw [renameObject] at hrun
    obtain ⟨out, m₁, hsent, -⟩ := Proc.bind_eq_ok hrun
    have hok := (sendingData_of_ok (length_pushString_le name) hsent).1
    rw [serve_rename, if_neg hfind] at hok
    cases hok

/-- A move that worked met no fault. -/
theorem unfaulted_of_moveObject {m' : Mtp Phone} (hrun : moveObject h p m = (.ok (), m')) :
    m.session.policy.fault m.session.log m.session.store (moveRequest m.storage h p) = none := by
  by_contra hfault
  obtain ⟨f, hf⟩ := Option.ne_none_iff_exists'.mp hfault
  obtain ⟨e, m'', hrun', -⟩ := moveObject_faulted hf
  rw [hrun'] at hrun
  cases hrun

/-- **A move that worked** put the object into the folder. -/
theorem moveObject_of_ok {m' : Mtp Phone} (hp : p ≠ 0xffffffff)
    (hrun : moveObject h p m = (.ok (), m')) :
    ∃ s, m.session.store.move h p = some s ∧ Turned m m' s := by
  have hfault := unfaulted_of_moveObject hrun
  cases hmove : m.session.store.move h p with
  | some s =>
      obtain ⟨m'', hrun', hturned⟩ := moveObject_ok hfault hp hmove
      cases hrun.symm.trans hrun'
      exact ⟨s, rfl, hturned⟩
  | none =>
      have hperform : m.session.perform (moveRequest m.storage h p) =
          (.ok (Phone.refuse Resp.invalidObjectHandle), m.session) := by
        have hserve := serve_move m.session h m.storage hp
        rw [hmove, Option.elim_none] at hserve
        show (Except.ok (m.session.serve Op.moveObject [h, m.storage, parentArg p] []).1,
          (m.session.serve Op.moveObject [h, m.storage, parentArg p] []).2) = _
        rw [hserve]
      obtain ⟨e, m'', hrun'⟩ := checked_refused "MoveObject" hfault hperform rfl
      rw [moveObject, Proc.bind_ok (Proc.get_run _)] at hrun
      cases hrun.symm.trans (Proc.bind_error hrun')

end

/-! ## How they end -/

section

variable {m : Mtp Phone}

/-- What the mount is after a request of the device. -/
structure Answered (m m' : Mtp Phone) (r : Request) : Prop where
  session : m'.session = (Phone.exec r m.session).2
  info : m'.info = m.info
  storage : m'.storage = m.storage

/-- An operation ends as the device answers it. -/
theorem checked_ends (step : String) (r : Request) :
    ∃ m', Answered m m' r ∧
      ((m.session.Works r ∧ ∃ params, (do
          let out ← exec r
          dropCache
          let out ← checked step out
          pure out.responseParams : Proc Error (Mtp Phone) (List UInt32)) m = (.ok params, m')) ∨
        (¬ m.session.Works r ∧ ∃ e, (do
          let out ← exec r
          dropCache
          let out ← checked step out
          pure out.responseParams : Proc Error (Mtp Phone) (List UInt32)) m = (.error e, m'))) := by
  have hexec := exec_run r m
  cases hout : (Phone.exec r m.session).1 with
  | error e =>
      rw [hout] at hexec
      refine ⟨{ m with session := (Phone.exec r m.session).2 }, ⟨rfl, rfl, rfl⟩,
        .inr ⟨?_, .session e, Proc.bind_error hexec⟩⟩
      intro hworks
      obtain ⟨out, hout', -⟩ := hworks
      cases hout.symm.trans hout'
  | ok out =>
      rw [hout] at hexec
      refine ⟨{ m with session := (Phone.exec r m.session).2, cache := none }, ⟨rfl, rfl, rfl⟩, ?_⟩
      rw [Proc.bind_ok hexec, dropCache, Proc.bind_ok (Proc.modify_run _ _), checked]
      by_cases hok : out.isOk = true
      · rw [if_pos hok]
        exact .inl ⟨⟨out, hout, hok⟩, out.responseParams, rfl⟩
      · rw [if_neg hok]
        refine .inr ⟨?_, .device step out.responseCode, rfl⟩
        intro hworks
        obtain ⟨out', hout', hok'⟩ := hworks
        cases hout.symm.trans hout'
        exact hok hok'

theorem renameObject_ends (h : UInt32) (name : Str) (m : Mtp Phone) :
    ∃ m', Answered m m' (renameRequest h name) ∧
      ((m.session.Works (renameRequest h name) ∧ renameObject h name m = (.ok (), m')) ∨
        (¬ m.session.Works (renameRequest h name) ∧
          ∃ e, renameObject h name m = (.error e, m'))) := by
  obtain ⟨m', hasked, hends⟩ := @checked_ends m "SetObjectPropValue" (renameRequest h name)
  refine ⟨m', hasked, hends.imp ?_ ?_⟩
  · intro hok
    obtain ⟨hworks, params, hrun⟩ := hok
    exact ⟨hworks, Proc.bind_ok hrun⟩
  · intro herror
    obtain ⟨hnot, e, hrun⟩ := herror
    exact ⟨hnot, e, Proc.bind_error hrun⟩

theorem deleteObject_ends (h : UInt32) (m : Mtp Phone) :
    ∃ m', Answered m m' (deleteRequest h) ∧
      ((m.session.Works (deleteRequest h) ∧ deleteObject h m = (.ok (), m')) ∨
        (¬ m.session.Works (deleteRequest h) ∧ ∃ e, deleteObject h m = (.error e, m'))) := by
  obtain ⟨m', hanswered, hends⟩ := @checked_ends m "DeleteObject" (deleteRequest h)
  refine ⟨m', hanswered, hends.imp ?_ ?_⟩
  · intro hok
    obtain ⟨hworks, params, hrun⟩ := hok
    exact ⟨hworks, Proc.bind_ok hrun⟩
  · intro herror
    obtain ⟨hnot, e, hrun⟩ := herror
    exact ⟨hnot, e, Proc.bind_error hrun⟩

theorem moveObject_ends (h p : UInt32) (m : Mtp Phone) :
    ∃ m', Answered m m' (moveRequest m.storage h p) ∧
      ((m.session.Works (moveRequest m.storage h p) ∧ moveObject h p m = (.ok (), m')) ∨
        (¬ m.session.Works (moveRequest m.storage h p) ∧
          ∃ e, moveObject h p m = (.error e, m'))) := by
  obtain ⟨m', hasked, hends⟩ := @checked_ends m "MoveObject" (moveRequest m.storage h p)
  refine ⟨m', hasked, ?_⟩
  rw [moveObject, Proc.bind_ok (Proc.get_run _)]
  refine hends.imp ?_ ?_
  · intro hok
    obtain ⟨hworks, params, hrun⟩ := hok
    exact ⟨hworks, Proc.bind_ok hrun⟩
  · intro herror
    obtain ⟨hnot, e, hrun⟩ := herror
    exact ⟨hnot, e, Proc.bind_error hrun⟩

end

end Mtp

end Bsdroid
