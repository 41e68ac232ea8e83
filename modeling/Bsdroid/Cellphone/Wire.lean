import Bsdroid.Cellphone.Phone
import Bsdroid.Lib.Packets
import Bsdroid.MtpSession.Receiving
import Bsdroid.MtpSession.Sending

/-!
# A cellphone behind a cable

The cellphone of `Phone` does an operation at once.  Here it sits behind two bulk endpoints:
it reads a command from a write, waits for the data phase of an operation that has one, does
the operation, and queues the answer in packets.  The bytes of a command are the whole of it
(`Wire.hear_command`), and those of a data phase arrive in any pieces (`Wire.hear_more`).
-/

namespace Bsdroid

open Proc Packets

/-- The operations with a data phase from the host. -/
def Op.takesData (code : UInt16) : Bool :=
  code = Op.sendObjectInfo ∨ code = Op.sendObject ∨ code = Op.setObjectPropValue

/-- The request a device makes of what arrives. -/
def Request.heard (code : UInt16) (params : List UInt32) (payload : Bytes) : Request where
  step := ""
  code := code
  params := params
  payload := if Op.takesData code then some (payload.length, [.bytes payload]) else none

/-- Where a device is between two commands. -/
inductive Phase where
  | idle
  | asked (code : UInt16) (tid : UInt32) (params : List UInt32)
  | taking (code : UInt16) (tid : UInt32) (params : List UInt32) (size : Nat) (payload : Bytes)

/-- A cellphone behind a cable.  `emptyPhases` says whether a data phase comes also when it
holds nothing. -/
structure Wire where
  phone : Phone
  packet : Nat
  emptyPhases : Bool
  phase : Phase
  waiting : List Bytes

namespace Wire

/-- The payload of a container, when it fits one. -/
def container (kind : ContainerType) (code : UInt16) (tid : UInt32) (payload : Bytes) :
    List Sent :=
  if fits : payload.length ≤ maxPayloadLen then [⟨tid, ⟨kind, code, payload, fits⟩⟩] else []

/-- The containers of an answer. -/
def answer (emptyPhases : Bool) (code : UInt16) (tid : UInt32) (out : Outcome) : List Sent :=
  (if out.data.isEmpty && !emptyPhases then [] else container .data code tid out.data) ++
    container .response out.responseCode tid (out.responseParams.flatMap le32)

/-- The device does an operation, and queues the answer. -/
def execute (code : UInt16) (tid : UInt32) (params : List UInt32) (payload : Bytes)
    (d : Wire) : Wire :=
  match Phone.exec (.heard code params payload) d.phone with
  | (.ok out, phone) => {
      d with
      phone := phone
      phase := .idle
      waiting := d.waiting ++
        (answer d.emptyPhases code tid out).flatMap fun c => framed d.packet c.wire }
  | (.error _, phone) => { d with phone := phone, phase := .idle }

/-- The device takes a part of a data phase. -/
def collectData (code : UInt16) (tid : UInt32) (params : List UInt32) (size : Nat)
    (payload : Bytes) (d : Wire) : Wire :=
  if payload.length < size then { d with phase := .taking code tid params size payload }
  else d.execute code tid params payload

/-- The device takes a write of the host. -/
def hear (bytes : Bytes) (d : Wire) : Wire :=
  match d.phase with
  | .idle =>
      match Header.parse bytes with
      | .error _ => d
      | .ok h =>
          if h.kind = .command then
            if Op.takesData h.code then {
              d with
              phase := .asked h.code h.transactionId (wordsOf (bytes.drop headerLen)) }
            else d.execute h.code h.transactionId (wordsOf (bytes.drop headerLen)) []
          else d
  | .asked code tid params =>
      match Header.parse bytes with
      | .error _ => d
      | .ok h => d.collectData code tid params h.payloadLen (bytes.drop headerLen)
  | .taking code tid params size payload => d.collectData code tid params size (payload ++ bytes)

instance : Transport Wire where
  write bytes _ := fun d => (.ok bytes.length, d.hear bytes)
  read capacity _ := fun d =>
    match collect d.packet capacity d.waiting with
    | some (bytes, rest) => (.ok bytes, { d with waiting := rest })
    | none => (.error (.transfer 0x81 .timedOut), d)
  clearStalls d := d

end Wire

/-! ## What the device makes of a request -/

/-- A payload that reaches a device is the first bytes its reader gives. -/
theorem Phone.received_some {r : Request} {size : Nat} {reader : List ReadAnswer}
    {payload : Bytes} (hsent : r.payload = some (size, reader))
    (hpayload : received r = .ok payload) :
    size ≤ maxPayloadLen ∧ size ≤ (given reader).length ∧ payload = (given reader).take size := by
  rw [received, hsent] at hpayload
  dsimp only at hpayload
  by_cases hsize : size ≤ maxPayloadLen
  · rw [Session.containerLength_ok hsize] at hpayload
    dsimp only at hpayload
    by_cases henough : size ≤ (given reader).length
    · obtain ⟨rest, hrun, -⟩ := @readExactOrShort_enough r.step size [] reader
        (by rw [List.length_nil]; omega) (Nat.zero_le _)
      rw [hrun, List.length_nil, Nat.sub_zero, List.nil_append] at hpayload
      exact ⟨hsize, henough, (Except.ok.inj hpayload).symm⟩
    · obtain ⟨e, rest, hrun⟩ := @readExactOrShort_short r.step size [] reader
        (by rw [List.length_nil]; omega)
      rw [hrun] at hpayload
      cases hpayload
  · rw [containerLength, if_pos (Nat.not_le.mp hsize)] at hpayload
    cases hpayload

/-- The device receives what it heard. -/
theorem Phone.received_heard {r : Request} {payload : Bytes}
    (hpayload : received r = .ok payload) (hphase : r.payload.isSome = Op.takesData r.code) :
    received (.heard r.code r.params payload) = .ok payload := by
  rw [received, Request.heard, ← hphase]
  cases hsent : r.payload with
  | none =>
      rw [received, hsent] at hpayload
      exact hpayload
  | some sent =>
      obtain ⟨hsize, henough, htake⟩ := received_some hsent hpayload
      have hlen : payload.length ≤ maxPayloadLen := by
        rw [htake, List.length_take]
        omega
      have hgiven : given [.bytes payload] = payload := by
        rw [given, given, List.append_nil]
        split
        · rename_i hnil
          exact (List.isEmpty_iff.mp hnil).symm
        · rfl
      obtain ⟨rest, hrun, -⟩ := @readExactOrShort_enough "" payload.length [] [.bytes payload]
        (by rw [hgiven, List.length_nil]; omega) (Nat.zero_le _)
      rw [hgiven, List.length_nil, Nat.sub_zero, List.nil_append, List.take_length] at hrun
      simp only [Option.isSome, if_true]
      rw [Session.containerLength_ok hlen]
      dsimp only
      rw [hrun]

/-! ## What the device makes of a write -/

namespace Wire

variable (d : Wire) (code : UInt16) (tid : UInt32) (params : List UInt32) {size : Nat}

theorem drop_header (length : UInt32) (kind : ContainerType) (rest : Bytes) :
    (pushHeader length kind code tid ++ rest).drop headerLen = rest :=
  List.drop_left' (length_pushHeader length kind code tid)

/-- A command is heard whole. -/
theorem hear_command (hidle : d.phase = .idle) (hparams : params.length ≤ maxParams) :
    d.hear (buildCommand code tid params) =
      if Op.takesData code then { d with phase := .asked code tid params }
      else d.execute code tid params [] := by
  have htake : params.take (min params.length maxParams) = params := by
    rw [Nat.min_eq_left hparams, List.take_length]
  have hwords : wordsOf ((buildCommand code tid params).drop headerLen) = params := by
    rw [buildCommand, htake, drop_header, wordsOf_flatMap]
  rw [hear, hidle]
  dsimp only
  rw [hwords, buildCommand, Header.parse_pushHeader]
  rfl

/-- The header of a data phase, and the bytes behind it. -/
theorem hear_first (hasked : d.phase = .asked code tid params) (hsize : size ≤ maxPayloadLen)
    (bytes : Bytes) :
    d.hear (Session.dataHeader code tid size ++ bytes) =
      d.collectData code tid params size bytes := by
  have hlen : (UInt32.ofNat (headerLen + size)).toNat = headerLen + size := by
    unfold maxPayloadLen headerLen at *
    exact UInt32.toNat_ofNat_of_lt' (show 12 + size < 2 ^ 32 by omega)
  rw [hear, hasked]
  dsimp only
  rw [Session.dataHeader, Header.parse_pushHeader, drop_header]
  dsimp only
  rw [Header.payloadLen, hlen, Nat.add_sub_cancel_left]

/-- Whatever phase the device is in, a part of a data phase sets it. -/
theorem collectData_phase (phase : Phase) (bytes : Bytes) :
    collectData code tid params size bytes { d with phase := phase } =
      d.collectData code tid params size bytes := by
  have hexec : execute code tid params bytes { d with phase := phase } =
      d.execute code tid params bytes := by
    unfold execute
    dsimp only
  unfold collectData
  split
  · rfl
  · exact hexec

/-- **A data phase arrives in any pieces.** -/
theorem hear_more {bytes : Bytes} (hmore : bytes.length < size) (more : Bytes) :
    (d.collectData code tid params size bytes).hear more =
      d.collectData code tid params size (bytes ++ more) := by
  have hphase : d.collectData code tid params size bytes =
      { d with phase := .taking code tid params size bytes } := if_pos hmore
  rw [hphase]
  exact collectData_phase d code tid params _ _

/-- An empty write between two commands says nothing. -/
theorem hear_nil (hidle : d.phase = .idle) : d.hear [] = d := by
  rw [hear, hidle]
  rfl

theorem execute_idle (payload : Bytes) : (d.execute code tid params payload).phase = .idle := by
  unfold execute
  rcases Phone.exec (.heard code params payload) d.phone with ⟨e | out, q⟩
  · rfl
  · rfl

/-- **The device does an operation, and is idle again.** -/
theorem execute_eq {out : Outcome} {q : Phone} {payload : Bytes}
    (hrun : Phone.exec (.heard code params payload) d.phone = (.ok out, q)) :
    d.execute code tid params payload = {
      d with
      phone := q
      phase := .idle
      waiting := d.waiting ++
        (answer d.emptyPhases code tid out).flatMap fun c => framed d.packet c.wire } := by
  rw [execute, hrun]

end Wire

end Bsdroid
