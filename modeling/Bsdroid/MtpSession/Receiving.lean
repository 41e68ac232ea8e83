import Bsdroid.Lib.Packets
import Bsdroid.MtpSession.Pipe

/-!
# What a receive makes of packets

The far end of a receive: a device that ends every container with a packet that is
not full, an empty one when the container is a whole number of packets.  That is the
rule the host follows itself in a send (`needsZeroPacket`).

A read of the host stops when its buffer is full, or behind a packet that is not
full.  The empty packet behind a data container that fills the last buffer exactly
is therefore a read of its own, and the session takes that read for the response
(`Session.operation_answered_iff`).
-/

namespace Bsdroid

open Packets

/-- A device that answers a write with containers, each in packets of its own. -/
structure Sender where
  packet : Nat
  answers : Bytes → List Sent
  waiting : List Bytes

instance : Transport Sender where
  write bytes _ := fun d => (.ok bytes.length, {
    d with
    waiting := d.waiting ++ (d.answers bytes).flatMap fun c => framed d.packet c.wire })
  read capacity _ := fun d =>
    match collect d.packet capacity d.waiting with
    | some (bytes, rest) => (.ok bytes, { d with waiting := rest })
    | none => (.error (.transfer 0x81 .timedOut), d)
  clearStalls d := d

namespace Sent

/-- The first bytes of a container, when they hold a header, parse as its header. -/
theorem parse_take {c : Sent} {k : Nat} (hk : headerLen ≤ k) :
    Header.parse (c.wire.take k) = .ok ⟨c.length, c.answer.kind, c.answer.code, c.tid⟩ := by
  have hsplit : c.wire.take k =
      pushHeader c.length c.answer.kind c.answer.code c.tid ++
        c.answer.payload.take (k - headerLen) := by
    rw [wire, List.take_append, List.take_of_length_le (by rw [length_pushHeader]; exact hk),
      length_pushHeader]
    rfl
  rw [hsplit, Header.parse_pushHeader]

theorem length_wire (c : Sent) : c.wire.length = headerLen + c.answer.payload.length := by
  rw [wire, List.length_append, length_pushHeader]
  rfl

/-- The first bytes of a container parse as a container exactly when they are all of
it. -/
theorem container_parse_take (c : Sent) (k : Nat) :
    (c.wire.length ≤ k ∧ Container.parse (c.wire.take k) =
      .ok ⟨c.length, c.answer.kind, c.answer.code, c.tid, c.answer.payload⟩) ∨
    (k < c.wire.length ∧ ∃ e, Container.parse (c.wire.take k) = .error e) := by
  by_cases hk : c.wire.length ≤ k
  · have hall := Container.parse_build c.build_eq_wire []
    rw [List.append_nil] at hall
    rw [List.take_of_length_le hk, hall]
    exact .inl ⟨hk, rfl⟩
  · cases hparse : Container.parse (c.wire.take k) with
    | error e => exact .inr ⟨Nat.lt_of_not_le hk, e, rfl⟩
    | ok got => exact absurd (container_of_take hparse).2 hk

end Sent

namespace Session

open Proc

variable {step : String} {code : UInt16} {params : List UInt32}

/-- One read of a container that waits. -/
theorem readOnce_framed {s : Session Sender} {bytes : Bytes} {others : List Bytes}
    (hpacket : 0 < s.device.packet) (hbuffer : s.device.packet ∣ s.config.readBuffer)
    (hwaiting : s.device.waiting = framed s.device.packet bytes ++ others) :
    readOnce step s = (.ok (bytes.take s.config.readBuffer), {
      s with
      device := {
        s.device with
        waiting :=
          if bytes.length < s.config.readBuffer then others
          else framed s.device.packet (bytes.drop s.config.readBuffer) ++ others } }) := by
  have hread : (Transport.read s.config.readBuffer s.config.timeout : Proc UsbError Sender Bytes)
      s.device = (.ok (bytes.take s.config.readBuffer), {
        s.device with
        waiting :=
          if bytes.length < s.config.readBuffer then others
          else framed s.device.packet (bytes.drop s.config.readBuffer) ++ others }) := by
    simp only [Transport.read, hwaiting, collect_framed hpacket hbuffer]
  rw [readOnce, bind_ok (get_run _), transfer, mapError, onPart, hread]
  rfl

/-- A data phase that is complete needs no read. -/
theorem readRest_done {declared rounds : Nat} {progress : Progress}
    (h : progress.haveBytes ≥ declared) (p : Session Sender × Bytes) :
    readRest step declared rounds progress p = (.ok progress, p) := by
  cases rounds with
  | zero => rfl
  | succ rounds =>
      rw [readRest, if_pos h]
      rfl

/-- **The loop of the data phase** takes the rest of a container.  The empty packet
behind it stays when the last read filled the buffer. -/
theorem readRest_framed {declared rounds : Nat} {progress : Progress} {s : Session Sender}
    {data rest : Bytes} {others : List Bytes} (hpacket : 0 < s.device.packet)
    (hbuffer : s.device.packet ∣ s.config.readBuffer) (hpos : 0 < s.config.readBuffer)
    (hwaiting : s.device.waiting = framed s.device.packet rest ++ others)
    (hdeclared : progress.haveBytes + rest.length = declared)
    (hrounds : rest.length ≤ rounds * s.config.readBuffer) :
    ∃ progress' s', readRest step declared rounds progress (s, data) =
        (.ok progress', (s', data ++ rest)) ∧
      progress'.haveBytes = declared ∧ s'.config = s.config ∧
      s'.device = {
        s.device with
        waiting :=
          if s.config.readBuffer ∣ rest.length then framed s.device.packet [] ++ others
          else others } := by
  induction rounds generalizing progress s data rest with
  | zero =>
      obtain rfl := List.length_eq_zero_iff.mp (show rest.length = 0 by omega)
      refine ⟨progress, s, by rw [List.append_nil]; rfl, by simpa using hdeclared, rfl, ?_⟩
      rw [List.length_nil, if_pos (Nat.dvd_zero _), ← hwaiting]
  | succ rounds ih =>
      rw [readRest]
      by_cases hnil : rest = []
      · subst hnil
        rw [if_pos (by rw [List.length_nil] at hdeclared; omega)]
        refine ⟨progress, s, by rw [List.append_nil]; rfl, by simpa using hdeclared, rfl, ?_⟩
        rw [List.length_nil, if_pos (Nat.dvd_zero _), ← hwaiting]
      · have hlen := List.length_pos_iff.mpr hnil
        have hmore : (rest.take s.config.readBuffer).isEmpty = false := by
          rw [List.isEmpty_eq_false_iff]
          intro hnone
          have hzero := congrArg List.length hnone
          rw [List.length_take, List.length_nil] at hzero
          omega
        rw [if_neg (by omega), bind_run, besides, onPart,
          readOnce_framed hpacket hbuffer hwaiting]
        dsimp only
        rw [hmore, if_neg Bool.false_ne_true, bind_run]
        change ∃ progress' s', readRest step declared rounds _
          (_, data ++ rest.take s.config.readBuffer) = _ ∧ _
        by_cases hlast : rest.length < s.config.readBuffer
        · rw [if_pos hlast, List.take_of_length_le (Nat.le_of_lt hlast),
            readRest_done (show progress.haveBytes + rest.length ≥ declared by omega)]
          refine ⟨_, _, rfl, hdeclared, rfl, ?_⟩
          rw [if_neg fun hdvd => absurd (Nat.le_of_dvd hlen hdvd) (by omega)]
        · rw [if_neg hlast]
          rw [Nat.succ_mul] at hrounds
          obtain ⟨progress', s', hrun, hhave, hconfig, hdevice⟩ := @ih
            { haveBytes := progress.haveBytes + (rest.take s.config.readBuffer).length
              payloadBytes := progress.payloadBytes + (rest.take s.config.readBuffer).length
              reads := progress.reads + 1 }
            { s with
              device := {
                s.device with
                waiting := framed s.device.packet (rest.drop s.config.readBuffer) ++ others } }
            (data ++ rest.take s.config.readBuffer) (rest.drop s.config.readBuffer) hpacket hbuffer
            hpos rfl (by dsimp only; rw [List.length_take, List.length_drop]; omega)
            (by rw [List.length_drop]; dsimp only; omega)
          have hsame : s.config.readBuffer ∣ (rest.drop s.config.readBuffer).length ↔
              s.config.readBuffer ∣ rest.length := by
            rw [List.length_drop]
            exact Nat.dvd_sub_iff_left (by omega) (Nat.dvd_refl _)
          rw [List.append_assoc, List.take_append_drop] at hrun
          refine ⟨progress', s', hrun, hhave, hconfig, ?_⟩
          rw [hdevice]
          dsimp only
          rw [if_congr hsame rfl rfl]

/-- The rounds of a receive are enough for any container. -/
theorem le_readRounds {declared buffer : Nat} (hdeclared : declared < 2 ^ 32)
    (hbuffer : readBufferMin ≤ buffer) :
    declared ≤ min (declared / buffer + 16) maxReadRounds * buffer := by
  have hmin : readBufferMin = 512 := rfl
  have hmax : maxReadRounds = 2 ^ 27 := by decide
  have hdiv := Nat.div_add_mod declared buffer
  have hlt := Nat.mod_lt declared (show 0 < buffer by omega)
  rcases Nat.le_total (declared / buffer + 16) maxReadRounds with hle | hle
  · rw [Nat.min_eq_left hle, Nat.add_mul, Nat.mul_comm (declared / buffer)]
    omega
  · rw [Nat.min_eq_right hle, hmax]
    have hmul := Nat.mul_le_mul_left (2 ^ 27) (hmin ▸ hbuffer)
    omega

variable {s : Session Sender} {data response : Sent}

/-- The last step of an answer with a data phase: one read, for the response. -/
def readResponse (step : String) (progress : Progress) :
    Proc SessionError (Session Sender × Bytes) StreamOutcome := do
  let last ← besides (readOnce step)
  let c ← (Proc.ofExcept (Container.parse last)).mapError (.parse step)
  if c.kind ≠ .response then
    Proc.fail (.unexpected step .response c.kind)
  else pure {
    responseCode := c.code
    responseParams := c.parameters
    bytes := progress.payloadBytes
    reads := progress.reads }

/-- **What the session reads of a data container.**  The empty packet behind a data
container that fills whole buffers is still to come. -/
theorem readAnswer_data (hpacket : 0 < s.device.packet)
    (hbuffer : s.device.packet ∣ s.config.readBuffer)
    (hmin : readBufferMin ≤ s.config.readBuffer) (hdata : data.answer.kind = .data)
    {others : List Bytes}
    (hwaiting : s.device.waiting = framed s.device.packet data.wire ++ others) :
    ∃ progress s', readAnswer step (s, ([] : Bytes)) =
        readResponse step progress (s', data.answer.payload) ∧
      s'.config = s.config ∧
      s'.device = {
        s.device with
        waiting :=
          if s.config.readBuffer ∣ data.wire.length then
            framed s.device.packet [] ++ others
          else others } := by
  have hheader : headerLen ≤ s.config.readBuffer := Nat.le_trans (by decide) hmin
  have hsome : 0 < data.wire.length := List.length_pos_iff.mpr data.wire_ne_nil
  have hlen : headerLen ≤ data.wire.length := by
    rw [Sent.length_wire]
    omega
  have hsmall : data.wire.length < 2 ^ 32 := by
    rw [← Sent.toNat_length]
    exact data.length.toNat_lt
  have hlimit : ¬ data.wire.length > maxDataBytes :=
    Nat.not_lt.mpr (Nat.le_trans (Nat.le_of_lt hsmall) (by decide))
  have hstart : min (data.wire.take s.config.readBuffer).length headerLen = headerLen := by
    rw [List.length_take]
    omega
  rw [readAnswer, bind_run, besides, onPart, readOnce_framed hpacket hbuffer hwaiting]
  dsimp only
  rw [Sent.parse_take hheader, bind_ok (mapError_ofExcept_ok _ _ _)]
  simp only [hdata, Sent.toNat_length, if_neg hlimit, hstart]
  rw [bind_run]
  change ∃ progress s', (Proc.get >>= _)
    (_, [] ++ (data.wire.take s.config.readBuffer).drop headerLen) = _ ∧ _
  rw [bind_ok (get_run _), List.nil_append]
  dsimp only
  have hpayload : (data.wire.take s.config.readBuffer).drop headerLen ++
      data.wire.drop s.config.readBuffer = data.answer.payload := by
    have hsplit : (data.wire.take s.config.readBuffer ++
        data.wire.drop s.config.readBuffer).drop headerLen = data.answer.payload := by
      rw [List.take_append_drop, Sent.wire, List.drop_append, length_pushHeader,
        List.drop_of_length_le (by rw [length_pushHeader]; exact Nat.le_refl _)]
      rfl
    rw [← hsplit, List.drop_append_of_le_length (by rw [List.length_take]; omega)]
  by_cases hwhole : data.wire.length < s.config.readBuffer
  · have hall : data.wire.drop s.config.readBuffer = [] :=
      List.drop_of_length_le (Nat.le_of_lt hwhole)
    rw [hall, List.append_nil] at hpayload
    rw [if_pos hwhole, hpayload, List.take_of_length_le (Nat.le_of_lt hwhole),
      bind_ok (readRest_done (show Progress.haveBytes
        ⟨data.wire.length, data.wire.length - headerLen, 1⟩ ≥ data.wire.length from
          Nat.le_refl _) _), if_neg (Nat.lt_irrefl _)]
    refine ⟨_, _, rfl, rfl, ?_⟩
    rw [if_neg fun hdvd => absurd (Nat.le_of_dvd (by omega) hdvd) (by omega)]
  · have hrounds := le_readRounds hsmall hmin
    rw [if_neg hwhole]
    obtain ⟨progress', s', hrun, hhave, hconfig, hdevice⟩ := @readRest_framed step
      data.wire.length (min (data.wire.length / s.config.readBuffer + 16) maxReadRounds)
      { haveBytes := (data.wire.take s.config.readBuffer).length
        payloadBytes := (data.wire.take s.config.readBuffer).length - headerLen
        reads := 1 }
      { s with
        device := {
          s.device with
          waiting :=
            framed s.device.packet (data.wire.drop s.config.readBuffer) ++ others } }
      ((data.wire.take s.config.readBuffer).drop headerLen) (data.wire.drop s.config.readBuffer)
      others hpacket hbuffer (Nat.lt_of_lt_of_le (by decide) hmin) rfl
      (by dsimp only; rw [List.length_take, List.length_drop]; omega)
      (by rw [List.length_drop]; exact Nat.le_trans (Nat.sub_le _ _) hrounds)
    rw [hpayload] at hrun
    have hsame : s.config.readBuffer ∣ (data.wire.drop s.config.readBuffer).length ↔
        s.config.readBuffer ∣ data.wire.length := by
      rw [List.length_drop]
      exact Nat.dvd_sub_iff_left (by omega) (Nat.dvd_refl _)
    rw [bind_ok hrun, if_neg (by omega)]
    refine ⟨progress', s', rfl, hconfig, ?_⟩
    rw [hdevice]
    dsimp only
    rw [if_congr hsame rfl rfl]

/-- **A receive gets the answer of the device** exactly when the data container does
not end a read buffer, and the response fits one. -/
theorem operation_answered_iff (hpacket : 0 < s.device.packet)
    (hbuffer : s.device.packet ∣ s.config.readBuffer)
    (hmin : readBufferMin ≤ s.config.readBuffer) (hidle : s.device.waiting = [])
    {answerParams : List UInt32} (hdata : data.answer.kind = .data)
    (hresponse : response.answer.kind = .response)
    (hparams : response.answer.payload = answerParams.flatMap le32)
    (hanswers : s.device.answers (buildCommand code s.transaction params) = [data, response]) :
    (∃ o s', operation step code params s = (.ok o, s') ∧ o.data = data.answer.payload ∧
        o.responseCode = response.answer.code ∧ o.responseParams = answerParams) ↔
      ¬ s.config.readBuffer ∣ headerLen + data.answer.payload.length ∧
        headerLen + 4 * answerParams.length ≤ s.config.readBuffer := by
  obtain ⟨q, hq⟩ : ∃ q, q = ({ s with
      transaction := s.transaction + 1
      device := { s.device with
        waiting := framed s.device.packet data.wire ++ framed s.device.packet response.wire } } :
      Session Sender) := ⟨_, rfl⟩
  have hwire : response.wire.length = headerLen + 4 * answerParams.length := by
    rw [Sent.length_wire, hparams, List.length_flatMap]
    simp [Nat.mul_comm]
  obtain ⟨progress, s', hrun, hconfig, hdevice⟩ := @readAnswer_data step q data
    (by rw [hq]; exact hpacket) (by rw [hq]; exact hbuffer) (by rw [hq]; exact hmin) hdata
    (framed s.device.packet response.wire) (by rw [hq])
  have hstream : operationStream step code params (s, ([] : Bytes)) =
      readResponse step progress (s', data.answer.payload) := by
    rw [← hrun, hq]
    have hwrite : s.device.waiting ++ (s.device.answers
        (buildCommand code s.transaction params)).flatMap (fun c => framed s.device.packet c.wire) =
        framed s.device.packet data.wire ++ framed s.device.packet response.wire := by
      rw [hidle, hanswers]
      simp
    rw [← hwrite]
    rfl
  have hdevice' : s'.device.packet = s.device.packet ∧ s'.config = s.config := by
    rw [hdevice, hconfig, hq]
    exact ⟨rfl, rfl⟩
  rw [operation, collected, hstream, readResponse, bind_run, besides, onPart, ← Sent.length_wire,
    ← hwire]
  by_cases hdvd : s.config.readBuffer ∣ data.wire.length
  · have hwaiting : s'.device.waiting = framed s'.device.packet [] ++
        framed s.device.packet response.wire := by
      rw [hdevice, hq]
      exact if_pos hdvd
    rw [readOnce_framed (by rw [hdevice'.1]; exact hpacket)
      (by rw [hdevice'.1, hdevice'.2]; exact hbuffer) hwaiting]
    refine ⟨?_, fun h => absurd hdvd h.1⟩
    rintro ⟨o, t, hok, -⟩
    rw [List.take_nil] at hok
    cases hok
  · have hwaiting : s'.device.waiting = framed s'.device.packet response.wire ++ [] := by
      rw [hdevice, hq, List.append_nil]
      exact if_neg hdvd
    rw [readOnce_framed (by rw [hdevice'.1]; exact hpacket)
      (by rw [hdevice'.1, hdevice'.2]; exact hbuffer) hwaiting, hdevice'.2]
    dsimp only
    rcases response.container_parse_take s.config.readBuffer with ⟨hfits, hparse⟩ | ⟨hlong, e, hparse⟩
    · rw [hparse, bind_ok (mapError_ofExcept_ok _ _ _)]
      rw [if_neg (by rw [hresponse]; exact fun h => h rfl)]
      refine ⟨fun _ => ⟨hdvd, hfits⟩, fun _ => ⟨_, _, rfl, rfl, rfl, ?_⟩⟩
      change wordsOf response.answer.payload = answerParams
      rw [hparams, wordsOf_flatMap]
    · rw [hparse]
      refine ⟨?_, fun h => absurd h.2 (by omega)⟩
      rintro ⟨o, t, hok, -⟩
      cases hok

/-- A response with a code and no parameters. -/
def plainResponse (code : UInt16) : Sent := ⟨0, ⟨.response, code, [], Nat.zero_le _⟩⟩

/-- A data container that holds only zeros. -/
def zeroData (size : Nat) (fits : size ≤ maxPayloadLen) : Sent :=
  ⟨0, ⟨.data, Op.getPartialObject64, List.replicate size 0,
    by rw [List.length_replicate]; exact fits⟩⟩

/-- A session with a device that answers each command with zeros and OK, over reads
of one packet. -/
def oneAnswer (size : Nat) (fits : size ≤ maxPayloadLen) : Session Sender :=
  (Session.new ⟨usb2Packet, fun _ => [zeroData size fits, plainResponse Resp.ok], []⟩
    { Config.default with readBuffer := 512 }).1

/-- One byte more than a packet. -/
theorem operation_answered_past_packet :
    (∃ o s', operation "GetPartialObject" Op.getPartialObject64 [1] (oneAnswer 501 (by decide)) =
        (.ok o, s') ∧ o.data = (zeroData 501 (by decide)).answer.payload ∧
        o.responseCode = Resp.ok ∧ o.responseParams = []) ↔
      ¬ 512 ∣ headerLen + (zeroData 501 (by decide)).answer.payload.length ∧
        headerLen + 4 * ([] : List UInt32).length ≤ 512 :=
  operation_answered_iff (s := oneAnswer 501 (by decide)) (by decide) (by decide) (by decide) rfl
    rfl rfl rfl rfl

/-- A container of one packet, over reads of one packet: the empty packet behind it is
a read of its own. -/
theorem whole_packet_not_answered :
    ¬ ∃ o s', operation "GetPartialObject" Op.getPartialObject64 [1]
        (oneAnswer 500 (by decide)) = (.ok o, s') ∧
      o.data = (zeroData 500 (by decide)).answer.payload ∧
      o.responseCode = Resp.ok ∧ o.responseParams = [] := by
  rintro ⟨o, s', hrun, -⟩
  have hfails : (operation "GetPartialObject" Op.getPartialObject64 [1]
      (oneAnswer 500 (by decide))).1 =
      .error (.parse "GetPartialObject" (.shortHeader 0)) := by
    decide +kernel
  rw [hrun] at hfails
  cases hfails

end Session

end Bsdroid
