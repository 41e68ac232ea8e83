import Bsdroid.Lib.Packets
import Bsdroid.MtpSession.Session

/-!
# A device that counts packets

The far end of a send.  A transfer of the host arrives in packets, all of them or,
when the transfer fails, the first few.  After a data header of length `L` the
device takes every byte as payload until `L - 12` bytes arrived or a packet that is
not full ended the phase.  Outside a data phase it reads a transfer as a container
of its own.

What the device answers to a read is any function of the reads so far.
-/

namespace Bsdroid

open Packets

/-- A device that counts packets.  `plan` gives for each transfer of the host the
count of packets that arrive before it fails, when it fails. -/
structure Receiver where
  packet : Nat
  plan : Nat → Option (Nat × UsbError)
  answers : Nat → Except UsbError Bytes
  reads : Nat
  wrote : List Bytes
  outstanding : Nat
  payload : Bytes
  commands : List Bytes

namespace Receiver

/-- The device takes the packets of one transfer. -/
def take (packets : List Bytes) (r : Receiver) : Receiver :=
  let ends := packets.any fun p => p.length < r.packet
  if 0 < r.outstanding then {
    r with
    payload := r.payload ++ packets.flatten.take r.outstanding
    outstanding := if ends then 0 else r.outstanding - packets.flatten.length }
  else
    match Header.parse packets.flatten with
    | .error _ => r
    | .ok h =>
        match h.kind with
        | .command => { r with commands := r.commands ++ [packets.flatten] }
        | .data => {
            r with
            payload := r.payload ++ packets.flatten.drop headerLen
            outstanding :=
              if ends then 0 else h.payloadLen - (packets.flatten.length - headerLen) }
        | _ => r

/-- The packets of the next transfer that arrive. -/
def arriving (bytes : Bytes) (r : Receiver) : List Bytes :=
  match r.plan r.wrote.length with
  | none => carry r.packet bytes
  | some (count, _) => (carry r.packet bytes).take count

instance : Transport Receiver where
  write bytes _ := fun r =>
    let next := { r.take (r.arriving bytes) with wrote := r.wrote ++ [bytes] }
    match r.plan r.wrote.length with
    | none => (.ok bytes.length, next)
    | some (_, e) => (.error e, next)
  read capacity _ := fun r =>
    ((r.answers r.reads).map (List.take capacity), { r with reads := r.reads + 1 })
  clearStalls r := r

/-- The device reads the next command container as a command, and no part of it
as payload of an earlier send. -/
def Hears (r : Receiver) : Prop := ∀ code tid params,
  let q := r.take (carry r.packet (buildCommand code tid params))
  q.commands = r.commands ++ [buildCommand code tid params] ∧ q.payload = r.payload

section Taking

variable {r : Receiver} {packets : List Bytes}

@[simp] theorem take_packet : (r.take packets).packet = r.packet := by
  unfold take
  split
  · rfl
  · split
    · rfl
    · split <;> rfl

@[simp] theorem take_plan : (r.take packets).plan = r.plan := by
  unfold take
  split
  · rfl
  · split
    · rfl
    · split <;> rfl

/-- Packets of the payload count down what is outstanding. -/
theorem take_outstanding (hopen : 0 < r.outstanding)
    (hends : ∀ p ∈ packets, p.length < r.packet → r.outstanding ≤ packets.flatten.length) :
    (r.take packets).outstanding = r.outstanding - packets.flatten.length := by
  unfold take
  dsimp only
  rw [if_pos hopen]
  dsimp only
  by_cases hany : packets.any fun p => p.length < r.packet
  · obtain ⟨p, hp, hshort⟩ := List.any_eq_true.mp hany
    rw [if_pos hany, Nat.sub_eq_zero_of_le (hends p hp (of_decide_eq_true hshort))]
  · rw [if_neg hany]

/-- A transfer without a header opens no data phase. -/
theorem take_short (hidle : r.outstanding = 0) (hshort : packets.flatten.length < headerLen) :
    r.take packets = r := by
  unfold take
  dsimp only
  rw [if_neg (by omega), Header.parse, if_pos hshort]

/-- A data header opens a data phase. -/
theorem take_header (hidle : r.outstanding = 0) {code : UInt16} {tid : UInt32} {size : Nat}
    {bytes : Bytes} (hsize : size ≤ maxPayloadLen)
    (hbytes : packets.flatten =
      pushHeader (UInt32.ofNat (headerLen + size)) .data code tid ++ bytes)
    (hends : ∀ p ∈ packets, p.length < r.packet → size ≤ bytes.length) :
    (r.take packets).outstanding = size - bytes.length := by
  have hlt : headerLen + size < 2 ^ 32 := by
    unfold maxPayloadLen headerLen at *
    omega
  have hopen : (Header.payloadLen ⟨UInt32.ofNat (headerLen + size), .data, code, tid⟩) =
      size := by
    rw [Header.payloadLen, UInt32.toNat_ofNat_of_lt' hlt]
    omega
  unfold take
  dsimp only
  rw [if_neg (by omega), hbytes, Header.parse_pushHeader]
  simp only [hopen, List.length_append, length_pushHeader]
  by_cases hany : packets.any fun p => p.length < r.packet
  · obtain ⟨p, hp, hshort⟩ := List.any_eq_true.mp hany
    rw [if_pos hany, Nat.sub_eq_zero_of_le (hends p hp (of_decide_eq_true hshort))]
  · rw [if_neg hany, headerLen, Nat.add_sub_cancel_left]

/-- **The device hears the next command exactly when no payload is
outstanding.** -/
theorem hears_iff (hpacket : 0 < r.packet) : r.Hears ↔ r.outstanding = 0 := by
  constructor
  · intro h
    by_contra hopen
    have hpayload := (h 0 0 []).2
    unfold take at hpayload
    dsimp only at hpayload
    rw [if_pos (Nat.pos_of_ne_zero hopen), flatten_carry hpacket] at hpayload
    have hlen := congrArg List.length hpayload
    rw [List.length_append, List.length_take] at hlen
    have hcommand : 0 < (buildCommand 0 0 []).length := by decide
    omega
  · intro hidle code tid params
    dsimp only
    unfold take
    dsimp only
    rw [if_neg (by omega), flatten_carry hpacket, buildCommand, Header.parse_pushHeader]
    exact ⟨rfl, rfl⟩

end Taking

end Receiver

end Bsdroid
