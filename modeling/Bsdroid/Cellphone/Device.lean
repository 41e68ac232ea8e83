import Bsdroid.Mtpfs.Backend

/-!
# Any device

A `Phone` follows the standard.  A `Device` answers as it likes: an answer is any
function of the request and of the requests before it.  What is proved for every
`Device` needs nothing of the far end.
-/

namespace Bsdroid

/-- A device whose answers are known, and nothing else of it. -/
structure Device where
  answer : List Request → Request → Except SessionError Outcome
  log : List Request

instance : Link Device where
  exec r := fun d => (d.answer d.log r, { d with log := d.log ++ [r] })

/-- A device that answers every request with the same payload. -/
def Device.alwaysGives (data : Bytes) : Device where
  answer _ _ := .ok ⟨Resp.ok, data, [], 1⟩
  log := []

namespace Mtp

variable {m m' : Mtp Device} {step : String} {code : UInt16} {params : List UInt32}
  {out : Outcome} {data : Bytes}

/-- The mount after a request. -/
def told (m : Mtp Device) (r : Request) : Mtp Device :=
  { m with session := { m.session with log := m.session.log ++ [r] } }

/-- What the device answers to the next request. -/
def answerTo (m : Mtp Device) (r : Request) : Except SessionError Outcome :=
  m.session.answer m.session.log r

@[simp] theorem told_log (m : Mtp Device) (r : Request) :
    (m.told r).session.log = m.session.log ++ [r] := rfl

@[simp] theorem told_answer (m : Mtp Device) (r : Request) :
    (m.told r).session.answer = m.session.answer := rfl

@[simp] theorem told_storage (m : Mtp Device) (r : Request) :
    (m.told r).storage = m.storage := rfl

theorem exec_told (m : Mtp Device) (r : Request) :
    exec r m = ((m.answerTo r).mapError .session, m.told r) := rfl

/-- An operation the device does. -/
theorem operation_done (hanswer : m.answerTo ⟨step, code, params, none⟩ = .ok out)
    (hok : out.isOk = true) :
    operation step code params m = (.ok out.data, m.told ⟨step, code, params, none⟩) := by
  have hexec : exec ⟨step, code, params, none⟩ m =
      (.ok out, m.told ⟨step, code, params, none⟩) := by
    rw [exec_told, hanswer]
    rfl
  rw [operation, Proc.bind_ok hexec, checked, if_pos hok]
  rfl

/-- An operation either was done or failed, and the device has one request more. -/
theorem operation_told (m : Mtp Device) (step : String) (code : UInt16) (params : List UInt32) :
    (∃ out, m.answerTo ⟨step, code, params, none⟩ = .ok out ∧ out.isOk = true ∧
      operation step code params m = (.ok out.data, m.told ⟨step, code, params, none⟩)) ∨
    ∃ e, (∀ out, m.answerTo ⟨step, code, params, none⟩ = .ok out → out.isOk = false) ∧
      operation step code params m = (.error e, m.told ⟨step, code, params, none⟩) := by
  have hexec := exec_told m ⟨step, code, params, none⟩
  cases hanswer : m.answerTo ⟨step, code, params, none⟩ with
  | error e =>
      right
      rw [hanswer] at hexec
      exact ⟨.session e, nofun, Proc.bind_error hexec⟩
  | ok out =>
      by_cases hok : out.isOk = true
      · exact .inl ⟨out, rfl, hok, operation_done hanswer hok⟩
      · right
        rw [hanswer] at hexec
        refine ⟨.device step out.responseCode, ?_, ?_⟩
        · rintro _ ⟨⟩
          exact Bool.eq_false_of_not_eq_true hok
        · rw [operation, Proc.bind_ok hexec, checked, if_neg hok]
          rfl

end Mtp

end Bsdroid
