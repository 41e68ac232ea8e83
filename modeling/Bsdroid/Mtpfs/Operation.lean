import Bsdroid.Cellphone.Phone

/-!
# One operation of a mount

An operation that succeeds gives the honest answer, whatever faults the policy
holds: a fault code, a transport fault and a lost answer all end it with an
error.  An operation that only reads leaves the device alone in every case.
-/

namespace Bsdroid

/-- A policy without faults. -/
def Policy.Faultless (policy : Policy) : Prop := ∀ log s r, policy.fault log s r = none

namespace Mtp

/-- Between two states of a mount the device did not change, and the mount knows
the same facts about it. -/
structure SameDevice (m m' : Mtp Phone) : Prop where
  store : m'.session.store = m.session.store
  announced : m'.session.announced = m.session.announced
  device : m'.session.storage = m.session.storage
  policy : m'.session.policy = m.session.policy
  storage : m'.storage = m.storage
  partialRead : m'.partialRead = m.partialRead
  packet : m'.packet = m.packet
  info : m'.info = m.info
  trace : ∀ s ∈ m'.session.trace, s ∈ m.session.trace ∨ s = m.session.store

theorem SameDevice.refl (m : Mtp Phone) : SameDevice m m :=
  ⟨rfl, rfl, rfl, rfl, rfl, rfl, rfl, rfl, fun _ h => .inl h⟩

theorem SameDevice.trans {a b c : Mtp Phone} (h : SameDevice a b) (h' : SameDevice b c) :
    SameDevice a c where
  store := h'.store.trans h.store
  announced := h'.announced.trans h.announced
  device := h'.device.trans h.device
  policy := h'.policy.trans h.policy
  storage := h'.storage.trans h.storage
  partialRead := h'.partialRead.trans h.partialRead
  packet := h'.packet.trans h.packet
  info := h'.info.trans h.info
  trace s hs := by
    rcases h'.trace s hs with hs | hs
    · exact h.trace s hs
    · exact .inr (hs.trans h.store)

/-! ## One operation -/

section Operation

variable {step : String} {code : UInt16} {params : List UInt32} {m m' : Mtp Phone}
  {data : Bytes}

/-- The mount after an operation the device served. -/
def served (m : Mtp Phone) (step : String) (code : UInt16) (params : List UInt32) : Mtp Phone :=
  { m with session := (m.session.serve code params []).2.record ⟨step, code, params, none⟩ }

theorem exec_run (r : Request) (m : Mtp Phone) :
    exec r m = ((Phone.exec r m.session).1.mapError .session,
      { m with session := (Phone.exec r m.session).2 }) := rfl

/-- Without a fault, an operation gives the answer of the device. -/
theorem exec_of_faultless
    (hfault : m.session.policy.fault m.session.log m.session.store
      ⟨step, code, params, none⟩ = none) :
    exec ⟨step, code, params, none⟩ m =
      (.ok (m.session.serve code params []).1, served m step code params) := by
  rw [exec_run, Phone.exec, hfault]
  rfl

/-- Without a fault, an operation the device can serve succeeds. -/
theorem operation_of_faultless
    (hfault : m.session.policy.fault m.session.log m.session.store
      ⟨step, code, params, none⟩ = none)
    (hok : (m.session.serve code params []).1.isOk = true) :
    operation step code params m =
      (.ok (m.session.serve code params []).1.data, served m step code params) := by
  have hchecked : ∀ t : Mtp Phone, checked step (m.session.serve code params []).1 t =
      (.ok (m.session.serve code params []).1, t) := by
    intro t
    rw [checked, if_pos hok]
    rfl
  rw [operation, Proc.bind_ok (exec_of_faultless hfault), Proc.bind_ok (hchecked _)]
  rfl

/-- An operation that succeeds met no fault. -/
theorem operation_unfaulted (h : operation step code params m = (.ok data, m')) :
    m.session.policy.fault m.session.log m.session.store ⟨step, code, params, none⟩ = none := by
  obtain ⟨out, m₁, hexec, h⟩ := Proc.bind_eq_ok h
  obtain ⟨out', m₂, hchecked, -⟩ := Proc.bind_eq_ok h
  rw [exec_run, Phone.exec] at hexec
  cases hfault : m.session.policy.fault m.session.log m.session.store
      ⟨step, code, params, none⟩ with
  | none => rfl
  | some f =>
      rw [hfault] at hexec
      cases f with
      | code c hc =>
          cases hexec
          rw [checked, Phone.refuse_isOk hc, if_neg Bool.false_ne_true] at hchecked
          cases hchecked
      | transport e => cases hexec
      | lost e => cases hexec

/-- **An operation that succeeds got the honest answer.** -/
theorem operation_ok (h : operation step code params m = (.ok data, m')) :
    (m.session.serve code params []).1.isOk = true ∧
      data = (m.session.serve code params []).1.data ∧ m' = served m step code params := by
  have hfault := operation_unfaulted h
  by_cases hok : (m.session.serve code params []).1.isOk = true
  · rw [operation_of_faultless hfault hok] at h
    cases h
    exact ⟨hok, rfl, rfl⟩
  · rw [operation, Proc.bind_ok (exec_of_faultless hfault)] at h
    obtain ⟨out, m₁, hchecked, -⟩ := Proc.bind_eq_ok h
    rw [checked, if_neg hok] at hchecked
    cases hchecked

/-- The operations that only read. -/
def readsOnly : List UInt16 :=
  [Op.getObjectPropList, Op.getObjectHandles, Op.getObjectInfo, Op.getPartialObject64,
    Op.getPartialObject, Op.getStorageInfo]

theorem serve_readsOnly (p : Phone) (h : code ∈ readsOnly) (payload : Bytes) :
    (p.serve code params payload).2 = p := by
  simp only [readsOnly, List.mem_cons, List.not_mem_nil, or_false] at h
  rcases h with rfl | rfl | rfl | rfl | rfl | rfl
  · rfl
  · rfl
  · rfl
  · unfold Phone.serve
    simp only [show ¬ Op.getPartialObject64 = Op.getObjectPropList by decide,
      show ¬ Op.getPartialObject64 = Op.getObjectHandles by decide,
      show ¬ Op.getPartialObject64 = Op.getObjectInfo by decide, if_false, if_true]
    split <;> rfl
  · unfold Phone.serve
    simp only [show ¬ Op.getPartialObject = Op.getObjectPropList by decide,
      show ¬ Op.getPartialObject = Op.getObjectHandles by decide,
      show ¬ Op.getPartialObject = Op.getObjectInfo by decide,
      show ¬ Op.getPartialObject = Op.getPartialObject64 by decide, if_false, if_true]
    split <;> rfl
  · rfl

theorem sameDevice_record (m : Mtp Phone) (r : Request) :
    SameDevice m { m with session := m.session.record r } := by
  refine ⟨rfl, rfl, rfl, rfl, rfl, rfl, rfl, rfl, ?_⟩
  intro s hs
  rcases List.mem_append.mp hs with hs | hs
  · exact .inl hs
  · exact .inr (List.mem_singleton.mp hs)

theorem sameDevice_served (h : code ∈ readsOnly) :
    SameDevice m (served m step code params) := by
  rw [served, serve_readsOnly _ h]
  exact sameDevice_record m _

/-- An operation that only reads leaves the device alone, whatever it answers. -/
theorem operation_steps (step : String) (params : List UInt32) (h : code ∈ readsOnly) :
    Proc.Steps SameDevice (operation step code params : Proc Error (Mtp Phone) Bytes) := by
  refine Proc.Steps.bind (R := SameDevice) SameDevice.trans ?_ fun out => ?_
  · intro m
    have hperform : (m.session.perform ⟨step, code, params, none⟩).2 = m.session :=
      serve_readsOnly _ h _
    change SameDevice m { m with session := (Phone.exec ⟨step, code, params, none⟩ m.session).2 }
    rw [Phone.exec]
    split
    · rw [hperform]; exact sameDevice_record m _
    · exact sameDevice_record m _
    · exact sameDevice_record m _
    · rw [hperform]; exact sameDevice_record m _
  · refine Proc.Steps.bind (R := SameDevice) SameDevice.trans ?_ fun out => Proc.Steps.pure SameDevice.refl _
    unfold checked
    split
    · exact Proc.Steps.pure SameDevice.refl _
    · exact Proc.Steps.fail SameDevice.refl _

/-- The question for the free space leaves the device alone. -/
theorem storageInfo_same :
    Proc.Steps SameDevice (storageInfo : Proc Error (Mtp Phone) (Nat × Nat)) := by
  refine Proc.Steps.bind (R := SameDevice) SameDevice.trans (.get SameDevice.refl) fun m => ?_
  refine Proc.Steps.bind (R := SameDevice) SameDevice.trans
    (operation_steps "GetStorageInfo" _ (by decide)) fun data => ?_
  refine Proc.Steps.bind (R := SameDevice) SameDevice.trans
    (.mapError (.ofExcept SameDevice.refl _)) fun info => .pure SameDevice.refl _

end Operation

/-! ## A mount to compute with -/

/-- A mount on a cellphone that gives every operation, over a USB 2.0 link. -/
def standard (p : Phone) : Mtp Phone where
  session := p
  storage := p.storage
  partialRead := Op.getPartialObject64
  fastList := true
  packet := usb2Packet
  cache := none
  info := { DeviceInfo.default with
    operationsSupported := [Op.getObjectPropList, Op.getPartialObject64, Op.getPartialObject,
      Op.setObjectPropValue, Op.moveObject] }

/-- A file in the root that holds only zeros. -/
def zeros (handle : UInt32) (name : Str) (size : Nat) : Object where
  key := handle
  parent := root
  name := name
  folder := false
  content := ⟨Format.undefined, Format.undefined_ne_association, List.replicate size 0, true,
    fun h => nomatch h⟩

/-- A store with one such file. -/
def storeOfZeros (size : Nat) (h : size < 2 ^ 64) : Store where
  objects :=
    { nodes := [zeros 1 ['a'] size]
      nodup := List.nodup_singleton _
      rootless := List.forall_mem_singleton.mpr (show (1 : UInt32) ≠ 0 by decide)
      housed := List.forall_mem_singleton.mpr (.inl rfl)
      grounded := ⟨fun _ => 0, List.forall_mem_singleton.mpr (.inl rfl)⟩ }
  used := [1]
  covers := List.forall_mem_singleton.mpr (List.mem_singleton.mpr rfl)
  sound := List.forall_mem_singleton.mpr
    ⟨show (1 : UInt32) ≠ 0xffffffff by decide,
      show (Utf16.encode ['a']).length ≤ 254 by decide,
      show (List.replicate size (0 : UInt8)).length < 2 ^ 64 by rwa [List.length_replicate]⟩

theorem three_fits : 3 < 2 ^ 64 := by decide

end Mtp

end Bsdroid
