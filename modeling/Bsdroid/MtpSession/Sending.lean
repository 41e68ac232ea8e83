import Bsdroid.Lib.Proc
import Bsdroid.MtpSession.Receiver

/-!
# What a send puts on the wire

`operationSending` writes a command, and then the data phase in chunks.  A chunk is
a whole number of packets and has room for the header (`Config.normalised`), so
only the last chunk can end with a packet that is not full.

With a reader that gives the whole payload the data phase is the header and the
payload, and the device gets them back (`Session.sends_payload`).  When a reader
ends early or a transfer fails in the data phase, nothing ends the phase, and the
device takes the next command as payload (`Session.hears_after_send_iff`).
-/

namespace Bsdroid

open Packets Receiver

/-! ## Readers -/

/-- The bytes a reader gives before it ends or fails. -/
def given : List ReadAnswer → Bytes
  | [] => []
  | .bytes b :: rest => if b.isEmpty then [] else b ++ given rest
  | .interrupted :: rest => given rest
  | .fault _ :: _ => []

/-- A full buffer takes nothing from the reader. -/
theorem readExactOrShort_full {step : String} {want : Nat} {done : Bytes}
    (h : want ≤ done.length) (reader : List ReadAnswer) :
    readExactOrShort step want done reader = (.ok done, reader) := by
  cases reader with
  | nil => rw [readExactOrShort, if_pos h]
  | cons answer rest => rw [readExactOrShort.eq_def]; simp only [if_pos h]

/-- A reader that has enough bytes fills the buffer with the next ones. -/
theorem readExactOrShort_enough {step : String} {want : Nat} {done : Bytes}
    {reader : List ReadAnswer} (h : want ≤ done.length + (given reader).length)
    (hdone : done.length ≤ want) :
    ∃ rest, readExactOrShort step want done reader =
        (.ok (done ++ (given reader).take (want - done.length)), rest) ∧
      given rest = (given reader).drop (want - done.length) := by
  by_cases hfull : want ≤ done.length
  · refine ⟨reader, ?_, ?_⟩
    · rw [readExactOrShort_full hfull, Nat.sub_eq_zero_of_le hfull, List.take_zero,
        List.append_nil]
    · rw [Nat.sub_eq_zero_of_le hfull, List.drop_zero]
  induction reader generalizing done with
  | nil =>
      rw [given, List.length_nil] at h
      omega
  | cons answer rest ih =>
      cases answer with
      | interrupted =>
          rw [readExactOrShort, if_neg hfull]
          exact ih h hdone hfull
      | fault e =>
          rw [given, List.length_nil] at h
          omega
      | bytes b =>
          rw [readExactOrShort, if_neg hfull]
          dsimp only
          by_cases hnone : b.isEmpty
          · rw [given, if_pos hnone, List.length_nil] at h
            omega
          rw [given, if_neg hnone, List.length_append] at h
          rw [given, if_neg hnone, if_neg hnone]
          by_cases hroom : want - done.length < b.length
          · have hleft : ¬ (b.drop (want - done.length)).isEmpty := by
              rw [List.isEmpty_iff]
              intro hnil
              have hlen := congrArg List.length hnil
              rw [List.length_drop, List.length_nil] at hlen
              omega
            refine ⟨.bytes (b.drop (want - done.length)) :: rest, ?_, ?_⟩
            · rw [if_pos hroom, List.take_append_of_le_length (by omega)]
            · rw [given, if_neg hleft, List.drop_append_of_le_length (by omega)]
          · have hsplit : want - done.length = b.length + (want - (done ++ b).length) := by
              rw [List.length_append]
              omega
            rw [if_neg hroom, hsplit, List.take_append, List.drop_append,
              List.take_of_length_le (by omega), List.drop_of_length_le (by omega),
              Nat.add_sub_cancel_left, List.nil_append, ← List.append_assoc]
            by_cases hdone' : want ≤ (done ++ b).length
            · refine ⟨rest, ?_, ?_⟩
              · rw [readExactOrShort_full hdone', Nat.sub_eq_zero_of_le hdone', List.take_zero,
                  List.append_nil]
              · rw [Nat.sub_eq_zero_of_le hdone', List.drop_zero]
            · exact ih (by rw [List.length_append]; omega) (by omega) hdone'

/-- A reader that has too few bytes fails. -/
theorem readExactOrShort_short {step : String} {want : Nat} {done : Bytes}
    {reader : List ReadAnswer} (h : done.length + (given reader).length < want) :
    ∃ e rest, readExactOrShort step want done reader = (.error e, rest) := by
  have hmore : ¬ want ≤ done.length := by omega
  induction reader generalizing done with
  | nil =>
      rw [readExactOrShort, if_neg hmore]
      exact ⟨_, _, rfl⟩
  | cons answer rest ih =>
      cases answer with
      | interrupted =>
          rw [readExactOrShort, if_neg hmore]
          exact ih h hmore
      | fault e =>
          rw [readExactOrShort, if_neg hmore]
          exact ⟨_, _, rfl⟩
      | bytes b =>
          rw [readExactOrShort, if_neg hmore]
          dsimp only
          by_cases hnone : b.isEmpty
          · rw [if_pos hnone]
            exact ⟨_, _, rfl⟩
          · rw [given, if_neg hnone, List.length_append] at h
            rw [if_neg hnone, if_neg (by omega)]
            exact ih (by rw [List.length_append]; omega) (by rw [List.length_append]; omega)

/-! ## Chunks -/

namespace Config

variable (c : Config)

theorem packet_normalised_pos : 0 < c.normalised.packet := by
  change 0 < if c.packet = 0 then usb2Packet else c.packet
  split
  · decide
  · omega

/-- A chunk is a whole number of packets. -/
theorem packet_dvd_writeChunk : c.normalised.packet ∣ c.normalised.writeChunk :=
  Nat.dvd_sub_mod _

theorem dvd_nextMultipleOf (n : Nat) {m : Nat} (hm : 0 < m) : m ∣ nextMultipleOf n m := by
  unfold nextMultipleOf
  split
  · exact Nat.dvd_of_mod_eq_zero ‹_›
  · have hlt := Nat.mod_lt n hm
    have hdiv := Nat.div_add_mod n m
    refine ⟨n / m + 1, ?_⟩
    rw [Nat.mul_add, Nat.mul_one]
    omega

theorem le_nextMultipleOf (n m : Nat) : n ≤ nextMultipleOf n m := by
  unfold nextMultipleOf
  split <;> omega

/-- The first chunk has room for the header and at least one byte more. -/
theorem headerLen_lt_writeChunk : headerLen < c.normalised.writeChunk := by
  obtain ⟨least, hleast⟩ : ∃ least, least = nextMultipleOf (headerLen + 1) c.normalised.packet :=
    ⟨_, rfl⟩
  have hdvd := hleast ▸ dvd_nextMultipleOf (headerLen + 1) c.packet_normalised_pos
  have hle := hleast ▸ le_nextMultipleOf (headerLen + 1) c.normalised.packet
  have hchunk : ∃ chunk, least ≤ chunk ∧
      c.normalised.writeChunk = chunk - chunk % c.normalised.packet := by
    refine ⟨if c.writeChunk < least then least else c.writeChunk, ?_, by rw [hleast]; rfl⟩
    split <;> omega
  obtain ⟨chunk, hle', hchunk⟩ := hchunk
  obtain ⟨m, hm⟩ := hdvd
  have hdown : least ≤ chunk - chunk % c.normalised.packet := by
    have hdiv := Nat.div_add_mod chunk c.normalised.packet
    have hm' : m ≤ chunk / c.normalised.packet := by
      rw [Nat.le_div_iff_mul_le c.packet_normalised_pos, Nat.mul_comm, ← hm]
      exact hle'
    have hmul := Nat.mul_le_mul_left c.normalised.packet hm'
    omega
  omega

end Config

namespace Session

open Proc

variable {step : String} {code : UInt16} {params : List UInt32} {s : Session Receiver}
  {reader : List ReadAnswer} {bytes : Bytes}

/-! ## One write -/

theorem besides_run {ω α : Type} (x : Proc SessionError (Session Receiver) α)
    (s : Session Receiver) (w : ω) : besides x (s, w) = ((x s).1, ((x s).2, w)) := rfl

/-- The session after a write. -/
def wrote (s : Session Receiver) (bytes : Bytes) : Session Receiver :=
  { s with
    device := {
      s.device.take (s.device.arriving bytes) with wrote := s.device.wrote ++ [bytes] } }

theorem writeAll_works (h : s.device.plan s.device.wrote.length = none) :
    writeAll step bytes s = (.ok (), s.wrote bytes) := by
  have hwrite : (Transport.write bytes s.config.timeout : Proc UsbError Receiver Nat) s.device =
      (.ok bytes.length, (s.wrote bytes).device) := by
    simp only [Transport.write, h]
    rfl
  rw [writeAll, bind_ok (get_run _), bind_run, transfer, mapError, onPart, hwrite]
  rfl

theorem writeAll_fails {count : Nat} {e : UsbError}
    (h : s.device.plan s.device.wrote.length = some (count, e)) :
    writeAll step bytes s = (.error (.usb step e), s.wrote bytes) := by
  have hwrite : (Transport.write bytes s.config.timeout : Proc UsbError Receiver Nat) s.device =
      (.error e, (s.wrote bytes).device) := by
    simp only [Transport.write, h]
    rfl
  rw [writeAll, bind_ok (get_run _), bind_run, transfer, mapError, onPart, hwrite]
  rfl

/-- A write ends in one state, whether it works or fails. -/
theorem writeAll_run : ∃ r, writeAll step bytes s = (r, s.wrote bytes) := by
  cases hplan : s.device.plan s.device.wrote.length with
  | none => exact ⟨_, writeAll_works hplan⟩
  | some f => exact ⟨_, writeAll_fails hplan⟩

@[simp] theorem wrote_plan : (s.wrote bytes).device.plan = s.device.plan := take_plan

@[simp] theorem wrote_packet : (s.wrote bytes).device.packet = s.device.packet := take_packet

@[simp] theorem wrote_wrote :
    (s.wrote bytes).device.wrote = s.device.wrote ++ [bytes] := rfl

@[simp] theorem wrote_config : (s.wrote bytes).config = s.config := rfl

theorem fill_enough {want : Nat} (h : want ≤ (given reader).length) :
    ∃ rest, fill step want (s, reader) = (.ok ((given reader).take want), (s, rest)) ∧
      given rest = (given reader).drop want := by
  obtain ⟨rest, hrun, hrest⟩ := @readExactOrShort_enough step want [] reader
    (by rw [List.length_nil]; omega) (Nat.zero_le _)
  rw [List.length_nil, Nat.sub_zero, List.nil_append] at hrun
  rw [List.length_nil, Nat.sub_zero] at hrest
  refine ⟨rest, ?_, hrest⟩
  rw [fill, hrun]

theorem fill_short {want : Nat} (h : (given reader).length < want) :
    ∃ e rest, fill step want (s, reader) = (.error e, (s, rest)) := by
  obtain ⟨e, rest, hrun⟩ := @readExactOrShort_short step want [] reader
    (by rw [List.length_nil]; omega)
  refine ⟨e, rest, ?_⟩
  rw [fill, hrun]

/-! ## The answer -/

/-- Between two states the host wrote nothing, so the device took nothing. -/
structure Silent {ω : Type} (p q : Session Receiver × ω) : Prop where
  wrote : q.1.device.wrote = p.1.device.wrote
  outstanding : q.1.device.outstanding = p.1.device.outstanding
  packet : q.1.device.packet = p.1.device.packet

theorem Silent.refl {ω : Type} (p : Session Receiver × ω) : Silent p p := ⟨rfl, rfl, rfl⟩

theorem Silent.trans {ω : Type} {p q r : Session Receiver × ω} (h : Silent p q)
    (h' : Silent q r) : Silent p r :=
  ⟨h'.wrote.trans h.wrote, h'.outstanding.trans h.outstanding, h'.packet.trans h.packet⟩

theorem readOnce_silent {ω : Type} :
    Steps Silent (besides (readOnce step) : Proc SessionError (Session Receiver × ω) Bytes) := by
  intro p
  exact ⟨rfl, rfl, rfl⟩

section Reading

variable {ω : Type} [Writer ω]

theorem writeOut_silent (bytes : Bytes) :
    Steps Silent (writeOut step bytes : Proc SessionError (Session Receiver × ω) Unit) := by
  intro p
  exact ⟨rfl, rfl, rfl⟩

/-- The host writes nothing while it reads an answer. -/
theorem readAnswer_silent :
    Steps Silent (readAnswer step : Proc SessionError (Session Receiver × ω) StreamOutcome) :=
  readAnswer_steps Silent.refl Silent.trans readOnce_silent writeOut_silent

end Reading

/-- The answer of a send leaves what was written as it is. -/
theorem collected_silent (p : Session Receiver × List ReadAnswer) :
    Silent p (besides (collected (readAnswer step)) p).2 := by
  have hsilent := @readAnswer_silent step Bytes _ (p.1, [])
  have hrun : (besides (collected (readAnswer step)) p).2.1 =
      (readAnswer step (p.1, ([] : Bytes))).2.1 := by
    rw [besides, onPart, collected]
    rcases readAnswer step (p.1, ([] : Bytes)) with ⟨_ | _, _, _⟩ <;> rfl
  exact ⟨by rw [hrun]; exact hsilent.wrote, by rw [hrun]; exact hsilent.outstanding,
    by rw [hrun]; exact hsilent.packet⟩

/-! ## The steps of a send -/

theorem operationSending_too_large {size : Nat} (hsize : maxPayloadLen < size) :
    operationSending step code params size (s, reader) =
      (.error (.build step ⟨size⟩), (s, reader)) := by
  have hlen : containerLength size = .error ⟨size⟩ := by
    rw [containerLength, if_pos hsize]
  rw [operationSending, hlen]
  rfl

/-- The rounds of a send are enough. -/
theorem le_rounds {chunk size : Nat} (hchunk : 0 < chunk) : size ≤ (size / chunk + 4) * chunk := by
  have hdiv := Nat.div_add_mod size chunk
  have hlt := Nat.mod_lt size hchunk
  rw [Nat.add_mul, Nat.mul_comm (size / chunk)]
  omega

/-- The session that took the next transaction id. -/
def numbered (s : Session Receiver) : Session Receiver :=
  { s with transaction := s.transaction + 1 }

/-- The header of a data phase. -/
def dataHeader (code : UInt16) (tid : UInt32) (size : Nat) : Bytes :=
  pushHeader (UInt32.ofNat (headerLen + size)) .data code tid

theorem containerLength_ok {size : Nat} (hsize : size ≤ maxPayloadLen) :
    containerLength size = .ok (UInt32.ofNat (headerLen + size)) :=
  if_neg (Nat.not_lt.mpr hsize)

theorem buildDataHeader_ok {size : Nat} (hsize : size ≤ maxPayloadLen) (tid : UInt32) :
    buildDataHeader code tid size = .ok (dataHeader code tid size) := by
  rw [buildDataHeader, containerLength_ok hsize]
  rfl

/-- What follows the command of a send. -/
def sendData (step : String) (code : UInt16) (tid : UInt32) (size chunk : Nat) :
    Proc SessionError (Session Receiver × List ReadAnswer) Outcome := do
  let bytes ← fill step (min (chunk - headerLen) size)
  besides (writeAll step (dataHeader code tid size ++ bytes))
  let sent ← sendRest step chunk size (size / chunk + 4) (min (chunk - headerLen) size)
  if sent < size then
    Proc.fail (.shortRead step size sent none)
  else do
    besides (endDataPhase step (UInt32.ofNat (headerLen + size)))
    besides (collected (readAnswer step))

/-- **A send is a command, and then the data phase.** -/
theorem operationSending_eq {size : Nat} (hsize : size ≤ maxPayloadLen) :
    operationSending step code params size (s, reader) =
      (besides (writeAll step (buildCommand code s.transaction params)) >>= fun _ =>
        sendData step code s.transaction size s.config.writeChunk) (s.numbered, reader) := by
  have hlength : (ofExcept (containerLength size)).mapError (SessionError.build step)
      (s, reader) = (.ok (UInt32.ofNat (headerLen + size)), (s, reader)) := by
    rw [containerLength_ok hsize]
    rfl
  have hnext : besides nextTransaction (s, reader) =
      (.ok s.transaction, (s.numbered, reader)) := rfl
  rw [operationSending, bind_ok hlength, bind_ok hnext, bind_run, bind_run]
  obtain ⟨r, hwrite⟩ := @writeAll_run step s.numbered (buildCommand code s.transaction params)
  rw [besides_run, hwrite]
  cases r with
  | error e => rfl
  | ok u =>
      have hheader : (ofExcept (buildDataHeader code s.transaction size)).mapError
          (SessionError.build step)
          (s.numbered.wrote (buildCommand code s.transaction params), reader) =
          (.ok (dataHeader code s.transaction size),
            (s.numbered.wrote (buildCommand code s.transaction params), reader)) := by
        rw [buildDataHeader_ok hsize]
        rfl
      dsimp only
      rw [bind_ok (get_run _)]
      dsimp only
      rw [bind_ok hheader]
      rfl

/-! ## A send that works -/

section Works

variable {chunk size : Nat}

/-- The rest of the payload goes out in chunks, and every chunk but the last is
full. -/
theorem sendRest_works (hworks : ∀ n, s.device.plan n = none) {rounds sent : Nat}
    (hsent : sent ≤ size) (hgiven : size - sent ≤ (given reader).length) (hchunk : 0 < chunk)
    (hrounds : size - sent ≤ rounds * chunk) :
    ∃ data s' rest, sendRest step chunk size rounds sent (s, reader) = (.ok size, (s', rest)) ∧
      s'.device.wrote = s.device.wrote ++ data ∧ s'.device.plan = s.device.plan ∧
      s'.config = s.config ∧ data.flatten = (given reader).take (size - sent) ∧
      (∀ w ∈ data, w ≠ []) ∧ ∀ w ∈ data.dropLast, w.length = chunk := by
  induction rounds generalizing s reader sent with
  | zero =>
      obtain rfl : sent = size := by omega
      refine ⟨[], s, reader, rfl, (List.append_nil _).symm, rfl, rfl, ?_, ?_, ?_⟩
      · rw [Nat.sub_self, List.take_zero, List.flatten_nil]
      · intro w hw
        cases hw
      · intro w hw
        cases hw
  | succ rounds ih =>
      rw [sendRest]
      by_cases hdone : sent ≥ size
      · obtain rfl : sent = size := by omega
        refine ⟨[], s, reader, by rw [if_pos hdone]; rfl, (List.append_nil _).symm, rfl, rfl,
          ?_, ?_, ?_⟩
        · rw [Nat.sub_self, List.take_zero, List.flatten_nil]
        · intro w hw
          cases hw
        · intro w hw
          cases hw
      · obtain ⟨want, hwant⟩ : ∃ want, want = min chunk (size - sent) := ⟨_, rfl⟩
        obtain ⟨rest, hfill, hrest⟩ := @fill_enough step s reader want (by omega)
        have hlen : ((given reader).take want).length = want := by
          rw [List.length_take]
          omega
        rw [if_neg hdone, ← hwant, bind_ok hfill, bind_run, besides_run,
          writeAll_works (hworks _)]
        dsimp only
        rw [Nat.succ_mul] at hrounds
        obtain ⟨data, s', rest', hrun, hwrote, hplan, hconfig, hflat, hfull, hchunks⟩ :=
          @ih (s.wrote ((given reader).take want)) rest (by rw [wrote_plan]; exact hworks)
            (sent + want) (by omega)
            (by rw [hrest, List.length_drop]; omega) (by omega)
        refine ⟨(given reader).take want :: data, s', rest', hrun, ?_, ?_, hconfig, ?_, ?_, ?_⟩
        · rw [hwrote, wrote_wrote, List.append_assoc]
          rfl
        · rw [hplan, wrote_plan]
        · rw [List.flatten_cons, hflat, hrest, ← List.take_add]
          congr 1
          omega
        · intro w hw
          rcases List.mem_cons.mp hw with rfl | hw
          · intro hnil
            rw [hnil, List.length_nil] at hlen
            omega
          · exact hfull w hw
        · intro w hw
          -- A chunk that is not the last one is full.
          cases data with
          | nil => cases hw
          | cons d data =>
              rw [List.dropLast_cons_of_ne_nil (List.cons_ne_nil d data)] at hw
              rcases List.mem_cons.mp hw with rfl | hw
              · have hmore : 0 < size - (sent + want) := by
                  by_contra hnone
                  have hd := hfull d List.mem_cons_self
                  rw [Nat.eq_zero_of_not_pos hnone, List.take_zero] at hflat
                  exact hd (List.append_eq_nil_iff.mp hflat).1
                rw [hlen]
                omega
              · exact hchunks w hw

/-- How a message goes over the wire as the transfers `data`, and `closing` behind
them. -/
structure DataPhase (packet : Nat) (message : Bytes) (data closing : List Bytes) : Prop where
  holds : data.flatten = message
  nonempty : ∀ w ∈ data, w ≠ []
  whole : ∀ w ∈ data.dropLast, packet ∣ w.length
  closed : closing = if packet ∣ message.length then [[]] else []

/-- A device that reads until a packet is not full gets the message back. -/
theorem DataPhase.recovered {packet : Nat} {message : Bytes} {data closing : List Bytes}
    (h : DataPhase packet message data closing) (hpacket : 0 < packet) :
    untilShort packet ((data ++ closing).flatMap (carry packet)) = some (message, []) := by
  rw [h.closed, ← h.holds]
  exact untilShort_carry hpacket h.nonempty h.whole

/-- The end of a data phase is an empty write after a full last packet. -/
theorem endDataPhase_works (hworks : ∀ n, s.device.plan n = none) (total : UInt32) :
    ∃ s', endDataPhase step total s = (.ok (), s') ∧
      s'.device.wrote = s.device.wrote ++
        if needsZeroPacket total.toNat s.config.packet then [[]] else [] := by
  rw [endDataPhase, bind_ok (get_run _)]
  by_cases hzero : needsZeroPacket total.toNat s.config.packet
  · rw [if_pos hzero, if_pos hzero]
    exact ⟨_, writeAll_works (hworks _), rfl⟩
  · rw [if_neg hzero, if_neg hzero]
    exact ⟨s, rfl, (List.append_nil _).symm⟩

/-- The data phase of a send that works. -/
theorem sendData_works (hworks : ∀ n, s.device.plan n = none) {tid : UInt32}
    (hsize : size ≤ maxPayloadLen) (hgiven : (given reader).length = size)
    (hroom : headerLen < chunk) (hpacket : s.config.packet ∣ chunk) :
    ∃ data closing s' rest,
      sendData step code tid size chunk (s, reader) =
        besides (collected (readAnswer step)) (s', rest) ∧
      s'.device.wrote = s.device.wrote ++ data ++ closing ∧
      DataPhase s.config.packet (dataHeader code tid size ++ given reader) data closing := by
  obtain ⟨want, hwant⟩ : ∃ n, n = min (chunk - headerLen) size := ⟨_, rfl⟩
  obtain ⟨rest, hfill, hrest⟩ := @fill_enough step s reader want (by omega)
  obtain ⟨front, hfront⟩ : ∃ b, b = dataHeader code tid size ++ (given reader).take want :=
    ⟨_, rfl⟩
  have hlen : front.length = headerLen + want := by
    rw [hfront, List.length_append, dataHeader, length_pushHeader, List.length_take, headerLen]
    omega
  have hworks' : ∀ n, (s.wrote front).device.plan n = none := by
    rw [wrote_plan]
    exact hworks
  obtain ⟨data, t, rest', hsend, hwrote, hplan, hconfig, hflat, hsome, hfull⟩ :=
    @sendRest_works step (s.wrote front) rest chunk size hworks' (size / chunk + 4) want
      (by omega) (by rw [hrest, List.length_drop]; omega) (by omega)
      (Nat.le_trans (Nat.sub_le _ _) (le_rounds (by omega)))
  obtain ⟨s', hend, hwrote'⟩ := @endDataPhase_works step t (by rw [hplan]; exact hworks')
    (UInt32.ofNat (headerLen + size))
  have hrun : sendData step code tid size chunk (s, reader) =
      besides (collected (readAnswer step)) (s', rest') := by
    have hwrite : besides (writeAll step front) (s, rest) = (.ok (), (s.wrote front, rest)) := by
      rw [besides_run, writeAll_works (hworks _)]
    have hclose : besides (endDataPhase step (UInt32.ofNat (headerLen + size))) (t, rest') =
        (.ok (), (s', rest')) := by
      rw [besides_run, hend]
    rw [sendData, ← hwant, bind_ok hfill, ← hfront, bind_ok hwrite, bind_ok hsend,
      if_neg (Nat.lt_irrefl size), bind_ok hclose]
  have hmessage : (front :: data).flatten = dataHeader code tid size ++ given reader := by
    have hleft : ((given reader).drop want).take (size - want) = (given reader).drop want :=
      List.take_of_length_le (by rw [List.length_drop]; omega)
    rw [List.flatten_cons, hflat, hrest, hleft, hfront, List.append_assoc, List.take_append_drop]
  have htotal : (dataHeader code tid size ++ given reader).length = headerLen + size := by
    rw [List.length_append, dataHeader, length_pushHeader, hgiven, headerLen]
  have hcount : (UInt32.ofNat (headerLen + size)).toNat = headerLen + size := by
    unfold maxPayloadLen headerLen at *
    exact UInt32.toNat_ofNat_of_lt' (show 12 + size < 2 ^ 32 by omega)
  have hzero : needsZeroPacket (headerLen + size) s.config.packet ↔
      s.config.packet ∣ headerLen + size := by
    have hpos : s.config.packet ≠ 0 := by
      intro hnone
      rw [hnone, Nat.zero_dvd] at hpacket
      omega
    rw [needsZeroPacket, decide_eq_true_iff, Nat.dvd_iff_mod_eq_zero]
    exact and_iff_right hpos
  refine ⟨front :: data, _, s', rest', hrun, ?_, hmessage, ?_, ?_, rfl⟩
  · rw [hwrote', hwrote, wrote_wrote, hconfig, wrote_config, hcount, htotal, if_congr hzero rfl rfl,
      List.append_assoc, List.append_assoc, List.append_assoc]
    rfl
  · intro w hw
    rcases List.mem_cons.mp hw with rfl | hw
    · intro hnil
      rw [hnil, List.length_nil, headerLen] at hlen
      omega
    · exact hsome w hw
  · intro w hw
    cases data with
    | nil => cases hw
    | cons d data =>
        rw [List.dropLast_cons_of_ne_nil (List.cons_ne_nil d data)] at hw
        rcases List.mem_cons.mp hw with rfl | hw
        · have hmore : 0 < size - want := by
            by_contra hnone
            rw [Nat.eq_zero_of_not_pos hnone, List.take_zero] at hflat
            exact hsome d List.mem_cons_self (List.append_eq_nil_iff.mp hflat).1
          rw [hlen, show headerLen + want = chunk by omega]
          exact hpacket
        · rw [hfull w hw]
          exact hpacket

/-- **What the host sends is what the device reads.** -/
theorem device_reads_what_host_sends (d : Receiver) (cfg : Config)
    (hconfig : s.config = (Session.new d cfg).1.config)
    (hworks : ∀ n, s.device.plan n = none) :
    (size + headerLen ≤ 4294967295 → (given reader).length = size →
      ∃ data closing s' rest,
        operationSending step code params size (s, reader) =
          besides (collected (readAnswer step)) (s', rest) ∧
        (operationSending step code params size (s, reader)).2.1.device.wrote =
          s.device.wrote ++ buildCommand code s.transaction params :: data ++ closing ∧
        DataPhase s.config.packet (dataHeader code s.transaction size ++ given reader) data
          closing ∧
        untilShort s.config.packet ((data ++ closing).flatMap (carry s.config.packet)) =
          some (dataHeader code s.transaction size ++ given reader, [])) ∧
    (4294967295 < size + headerLen →
      operationSending step code params size (s, reader) =
        (.error (.build step ⟨size⟩), (s, reader))) := by
  have hconfig : s.config = cfg.normalised := hconfig
  refine ⟨fun hsize hgiven => ?_, fun hsize => operationSending_too_large ?_⟩
  · have hfits : size ≤ maxPayloadLen := by
      unfold maxPayloadLen headerLen at *
      omega
    have hpacket : 0 < s.config.packet := hconfig ▸ cfg.packet_normalised_pos
    have hwrite : besides (writeAll step (buildCommand code s.transaction params))
        (s.numbered, reader) =
        (.ok (), (s.numbered.wrote (buildCommand code s.transaction params), reader)) := by
      rw [besides_run, writeAll_works (show s.numbered.device.plan _ = none from hworks _)]
    obtain ⟨data, closing, s', rest, hrun, hwrote, hphase⟩ :=
      @sendData_works step code (s.numbered.wrote (buildCommand code s.transaction params)) reader
        s.config.writeChunk size (by rw [wrote_plan]; exact hworks) s.transaction hfits hgiven
        (hconfig ▸ cfg.headerLen_lt_writeChunk) (by rw [wrote_config]; exact hconfig ▸ cfg.packet_dvd_writeChunk)
    have hrun : operationSending step code params size (s, reader) =
        besides (collected (readAnswer step)) (s', rest) := by
      rw [operationSending_eq hfits, bind_ok hwrite, hrun]
    refine ⟨data, closing, s', rest, hrun, ?_, hphase, hphase.recovered hpacket⟩
    rw [hrun, (collected_silent _).wrote, hwrote, wrote_wrote]
    simp only [List.append_assoc, List.cons_append, List.nil_append]
    rfl
  · unfold maxPayloadLen headerLen at *
    omega

/-- A device on a high speed link that takes every transfer. -/
def attentive : Receiver where
  packet := usb2Packet
  plan _ := none
  answers _ := .error (.transfer 0x81 .timedOut)
  reads := 0
  wrote := []
  outstanding := 0
  payload := []
  commands := []

/-- A reader that gives 500 bytes in two pieces. -/
def twoPieces : List ReadAnswer :=
  [.bytes (List.replicate 200 1), .interrupted, .bytes (List.replicate 300 2)]

/-- A data phase of exactly one packet. -/
theorem device_reads_one_packet :
    ∃ data closing s' rest,
      operationSending "SendObject" Op.sendObject [] 500
          ((Session.new attentive Config.default).1, twoPieces) =
        besides (collected (readAnswer "SendObject")) (s', rest) ∧
      (operationSending "SendObject" Op.sendObject [] 500
          ((Session.new attentive Config.default).1, twoPieces)).2.1.device.wrote =
        [] ++ buildCommand Op.sendObject 0 [] :: data ++ closing ∧
      DataPhase 512 (dataHeader Op.sendObject 0 500 ++ given twoPieces) data closing ∧
      untilShort 512 ((data ++ closing).flatMap (carry 512)) =
        some (dataHeader Op.sendObject 0 500 ++ given twoPieces, []) :=
  (device_reads_what_host_sends (s := (Session.new attentive Config.default).1) attentive
    Config.default rfl fun _ => rfl).1 (by decide) (by decide +kernel)

end Works

end Session

end Bsdroid
