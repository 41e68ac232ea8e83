import Bsdroid.MtpSession.Sending

/-!
# What a failed send leaves behind

A send can fail before the device reads the data header, in the middle of the data
phase, or after its last byte.  `Session.hears_after_send_iff` says which of these
leave a device that reads the next command as a command: the ones where the header
never arrived, and the ones where every byte of the data phase did.

In between, nothing ends the phase.  The device then takes the next command of the
session for payload.
-/

namespace Bsdroid

open Packets

namespace Receiver

variable {r : Receiver} {bytes : Bytes}

theorem arriving_works (h : r.plan r.wrote.length = none) :
    r.arriving bytes = carry r.packet bytes := by
  rw [arriving, h]

theorem arriving_fails {f : Nat × UsbError} (h : r.plan r.wrote.length = some f) :
    r.arriving bytes = (carry r.packet bytes).take f.1 := by
  rw [arriving, h]

/-- A transfer that works brings all its bytes. -/
theorem flatten_arriving_works (hpacket : 0 < r.packet) (h : r.plan r.wrote.length = none) :
    (r.arriving bytes).flatten = bytes := by
  rw [arriving_works h, flatten_carry hpacket]

/-- A transfer that fails brings the bytes of its first packets. -/
theorem flatten_arriving_fails (hpacket : 0 < r.packet) {f : Nat × UsbError}
    (h : r.plan r.wrote.length = some f) :
    (r.arriving bytes).flatten = bytes.take (f.1 * r.packet) := by
  rw [arriving_fails h, carry]
  by_cases hnil : bytes = []
  · rw [if_pos hnil, hnil, List.take_nil]
    cases f.1 with
    | zero => rfl
    | succ count => rw [List.take_succ_cons, List.take_nil]; rfl
  · rw [if_neg hnil, flatten_take_cut hpacket]

/-- With a packet that is not full the whole transfer arrived. -/
theorem flatten_arriving_of_short (hpacket : 0 < r.packet) {p : Bytes}
    (hp : p ∈ r.arriving bytes) (hshort : p.length < r.packet) :
    (r.arriving bytes).flatten = bytes := by
  cases h : r.plan r.wrote.length with
  | none => exact flatten_arriving_works hpacket h
  | some f =>
      rw [flatten_arriving_fails hpacket h]
      by_cases hnil : bytes = []
      · rw [hnil, List.take_nil]
      · rw [arriving_fails h, carry, if_neg hnil] at hp
        exact List.take_of_length_le (le_of_mem_take_cut hpacket hp hshort)

/-- A transfer of whole packets has no packet that is not full. -/
theorem not_short_of_dvd (hpacket : 0 < r.packet) (hnil : bytes ≠ [])
    (hdvd : r.packet ∣ bytes.length) {p : Bytes} (hp : p ∈ r.arriving bytes) :
    ¬ p.length < r.packet := by
  have hcut : p ∈ cut r.packet bytes := by
    cases h : r.plan r.wrote.length with
    | none =>
        rw [arriving_works h, carry, if_neg hnil] at hp
        exact hp
    | some f =>
        rw [arriving_fails h, carry, if_neg hnil] at hp
        exact List.mem_of_mem_take hp
  rw [length_of_mem_cut hpacket hdvd hcut]
  exact Nat.lt_irrefl _

/-- A transfer of payload counts down what is outstanding. -/
theorem take_payload {chunk : Nat} (hpacket : 0 < r.packet) (hdvd : r.packet ∣ chunk)
    (hchunk : 0 < chunk) (hopen : 0 < r.outstanding)
    (hlen : bytes.length = min chunk r.outstanding) :
    (r.take (r.arriving bytes)).outstanding =
      r.outstanding - (r.arriving bytes).flatten.length := by
  refine take_outstanding hopen fun p hp hshort => ?_
  rw [flatten_arriving_of_short hpacket hp hshort, hlen]
  by_contra hmore
  have hnil : bytes ≠ [] := by
    intro hnil
    rw [hnil, List.length_nil] at hlen
    omega
  exact not_short_of_dvd hpacket hnil (by rw [hlen, Nat.min_eq_left (by omega)]; exact hdvd) hp
    hshort

/-- A command, or the front of one, opens no data phase. -/
theorem take_command (hpacket : 0 < r.packet) (hidle : r.outstanding = 0) (code : UInt16)
    (tid : UInt32) (params : List UInt32) :
    (r.take (r.arriving (buildCommand code tid params))).outstanding = 0 := by
  by_cases hshort : (r.arriving (buildCommand code tid params)).flatten.length < headerLen
  · rw [take_short hidle hshort, hidle]
  · obtain ⟨rest, hrest⟩ : ∃ rest, (r.arriving (buildCommand code tid params)).flatten =
        pushHeader (UInt32.ofNat (headerLen + min params.length maxParams * 4)) .command code tid ++
          rest := by
      cases h : r.plan r.wrote.length with
      | none => exact ⟨_, flatten_arriving_works hpacket h⟩
      | some f =>
          rw [flatten_arriving_fails hpacket h, List.length_take, headerLen] at hshort
          rw [flatten_arriving_fails hpacket h, buildCommand, List.take_append,
            List.take_of_length_le (by rw [length_pushHeader]; omega)]
          exact ⟨_, rfl⟩
    unfold take
    dsimp only
    rw [if_neg (by omega), hrest, Header.parse_pushHeader]
    exact hidle

end Receiver

/-- Whether the last `left` bytes of a data phase arrive: the reader has them to
give, and of the transfers from number `n` on only the last may fail, once all its
bytes are there. -/
def Delivers (r : Receiver) (chunk n left has : Nat) : Prop :=
  left ≤ has ∧ ∀ k, k * chunk < left → ∀ f, r.plan (n + k) = some f →
    left ≤ (k + 1) * chunk ∧ left - k * chunk ≤ f.1 * r.packet

section Delivers

variable {r : Receiver} {chunk n left has : Nat}

theorem delivers_zero : Delivers r chunk n 0 has :=
  ⟨Nat.zero_le _, fun _ hk => absurd hk (Nat.not_lt_zero _)⟩

/-- After a transfer that works, the rest has to arrive. -/
theorem delivers_of_works (hworks : r.plan n = none) (hhas : min chunk left ≤ has) :
    Delivers r chunk n left has ↔
      Delivers r chunk (n + 1) (left - min chunk left) (has - min chunk left) := by
  have hnext : ∀ k, n + 1 + k = n + (k + 1) := by
    intro k
    omega
  constructor
  · intro hboth
    obtain ⟨hle, hall⟩ := hboth
    refine ⟨by omega, fun k hk f hf => ?_⟩
    rw [hnext] at hf
    obtain ⟨hlast, hbytes⟩ := hall (k + 1) (by rw [Nat.succ_mul]; omega) f hf
    rw [Nat.succ_mul (k + 1)] at hlast
    rw [Nat.succ_mul] at hbytes
    omega
  · intro hboth
    obtain ⟨hle, hall⟩ := hboth
    refine ⟨by omega, fun k hk f hf => ?_⟩
    cases k with
    | zero =>
        rw [Nat.add_zero, hworks] at hf
        cases hf
    | succ k =>
        rw [Nat.succ_mul] at hk
        rw [← hnext] at hf
        obtain ⟨hlast, hbytes⟩ := hall k (by omega) f hf
        rw [Nat.succ_mul (k + 1), Nat.succ_mul k]
        rw [Nat.succ_mul] at hlast
        omega

/-- A transfer that fails ends the data phase when it is the last one and all of it
arrived. -/
theorem delivers_of_fails {f : Nat × UsbError} (hfails : r.plan n = some f) (hleft : 0 < left)
    (hhas : min chunk left ≤ has) :
    Delivers r chunk n left has ↔ left ≤ chunk ∧ left ≤ f.1 * r.packet := by
  constructor
  · intro hboth
    obtain ⟨hle, hall⟩ := hboth
    obtain ⟨hlast, hbytes⟩ := hall 0 (by omega) f hfails
    omega
  · intro hboth
    obtain ⟨hlast, hbytes⟩ := hboth
    refine ⟨by omega, fun k hk f' hf => ?_⟩
    cases k with
    | zero =>
        rw [Nat.add_zero, hfails] at hf
        cases hf
        omega
    | succ k =>
        rw [Nat.succ_mul] at hk
        omega

theorem Delivers.congr {q : Receiver} (hplan : q.plan = r.plan) (hpacket : q.packet = r.packet) :
    Delivers q chunk n left has ↔ Delivers r chunk n left has := by
  rw [Delivers, Delivers, hplan, hpacket]

end Delivers

namespace Session

open Proc Receiver

variable {step : String} {code : UInt16} {params : List UInt32} {s : Session Receiver}
  {reader : List ReadAnswer} {chunk size : Nat}

/-! ## The loop -/

/-- One chunk of payload. -/
theorem wrote_payload {bytes : Bytes} (hpacket : 0 < s.device.packet)
    (hdvd : s.device.packet ∣ chunk) (hchunk : 0 < chunk) (hopen : 0 < s.device.outstanding)
    (hlen : bytes.length = min chunk s.device.outstanding) :
    (s.wrote bytes).device.outstanding =
      s.device.outstanding - (s.device.arriving bytes).flatten.length :=
  take_payload hpacket hdvd hchunk hopen hlen

/-- **The loop of a send** leaves the data phase over exactly when the rest of it
arrives. -/
theorem sendRest_outstanding {rounds sent : Nat} (hpacket : 0 < s.device.packet)
    (hdvd : s.device.packet ∣ chunk) (hchunk : 0 < chunk) (hsent : sent ≤ size)
    (hopen : s.device.outstanding = size - sent) (hrounds : size - sent ≤ rounds * chunk) :
    ((sendRest step chunk size rounds sent (s, reader)).2.1.device.outstanding = 0 ↔
      Delivers s.device chunk s.device.wrote.length (size - sent) (given reader).length) ∧
    ∀ m s' rest, sendRest step chunk size rounds sent (s, reader) = (.ok m, (s', rest)) →
      m = size ∧ s'.device.outstanding = 0 ∧ s'.device.packet = s.device.packet := by
  induction rounds generalizing s reader sent with
  | zero =>
      obtain rfl : sent = size := by omega
      rw [Nat.sub_self] at hopen ⊢
      refine ⟨⟨fun _ => delivers_zero, fun _ => hopen⟩, ?_⟩
      intro m s' rest hrun
      cases hrun
      exact ⟨rfl, hopen, rfl⟩
  | succ rounds ih =>
      rw [sendRest]
      by_cases hdone : sent ≥ size
      · obtain rfl : sent = size := by omega
        rw [Nat.sub_self] at hopen ⊢
        rw [if_pos hdone]
        refine ⟨⟨fun _ => delivers_zero, fun _ => hopen⟩, ?_⟩
        intro m s' rest hrun
        cases hrun
        exact ⟨rfl, hopen, rfl⟩
      rw [if_neg hdone]
      by_cases hshort : (given reader).length < min chunk (size - sent)
      · obtain ⟨e, rest, hfill⟩ := @fill_short step s reader _ hshort
        rw [bind_error hfill]
        refine ⟨⟨fun hzero => ?_, fun harrives => ?_⟩, ?_⟩
        · exact absurd (hopen.symm.trans hzero) (by omega)
        · have hle := harrives.1
          omega
        · intro m s' rest' hrun
          cases hrun
      · obtain ⟨rest, hfill, hrest⟩ := @fill_enough step s reader (min chunk (size - sent))
          (by omega)
        have hlen : ((given reader).take (min chunk (size - sent))).length =
            min chunk s.device.outstanding := by
          rw [List.length_take, hopen]
          omega
        have hafter := @wrote_payload s chunk _ hpacket hdvd hchunk (by omega) hlen
        rw [bind_ok hfill, bind_run, besides_run]
        cases hplan : s.device.plan s.device.wrote.length with
        | none =>
            rw [writeAll_works hplan]
            dsimp only
            rw [flatten_arriving_works hpacket hplan, hlen, hopen] at hafter
            rw [Nat.succ_mul] at hrounds
            have hleft : size - (sent + min chunk (size - sent)) =
                size - sent - min chunk (size - sent) := by omega
            obtain ⟨hiff, hok⟩ := @ih (s.wrote ((given reader).take (min chunk (size - sent)))) rest
              (sent + min chunk (size - sent)) (by rw [wrote_packet]; exact hpacket)
              (by rw [wrote_packet]; exact hdvd) (by omega) (by rw [hafter]; omega) (by omega)
            refine ⟨?_, ?_⟩
            · rw [hiff, wrote_wrote, List.length_append, List.length_singleton, hrest,
                List.length_drop, hleft, delivers_of_works hplan (by omega)]
              exact Delivers.congr wrote_plan wrote_packet
            · intro m s' rest' hrun
              obtain ⟨hm, hzero, hsame⟩ := hok m s' rest' hrun
              exact ⟨hm, hzero, hsame.trans wrote_packet⟩
        | some f =>
            rw [writeAll_fails hplan]
            dsimp only
            rw [flatten_arriving_fails hpacket hplan, List.length_take, hlen, hopen] at hafter
            refine ⟨?_, ?_⟩
            · rw [delivers_of_fails hplan (by omega) (by omega), hafter]
              omega
            · intro m s' rest' hrun
              cases hrun

/-! ## The data phase -/

/-- The first write opens the data phase, once its header arrived. -/
theorem wrote_front {tid : UInt32} {bytes : Bytes} (hpacket : 0 < s.device.packet)
    (hdvd : s.device.packet ∣ chunk) (hroom : headerLen < chunk)
    (hidle : s.device.outstanding = 0) (hsize : size ≤ maxPayloadLen)
    (hlen : bytes.length = min (chunk - headerLen) size) :
    (s.wrote (dataHeader code tid size ++ bytes)).device.outstanding =
      if (s.device.arriving (dataHeader code tid size ++ bytes)).flatten.length < headerLen then 0
      else size + headerLen -
        (s.device.arriving (dataHeader code tid size ++ bytes)).flatten.length := by
  have hheader : (dataHeader code tid size).length = headerLen := length_pushHeader _ _ _ _
  have hall : (dataHeader code tid size ++ bytes).length = headerLen + bytes.length := by
    rw [List.length_append, hheader]
  by_cases hshort : (s.device.arriving (dataHeader code tid size ++ bytes)).flatten.length <
      headerLen
  · rw [if_pos hshort]
    change (s.device.take (s.device.arriving (dataHeader code tid size ++ bytes))).outstanding = 0
    rw [take_short hidle hshort, hidle]
  · rw [if_neg hshort]
    obtain ⟨rest, hrest⟩ : ∃ rest,
        (s.device.arriving (dataHeader code tid size ++ bytes)).flatten =
          dataHeader code tid size ++ rest := by
      cases h : s.device.plan s.device.wrote.length with
      | none => exact ⟨_, flatten_arriving_works hpacket h⟩
      | some f =>
          rw [flatten_arriving_fails hpacket h, List.length_take] at hshort
          rw [flatten_arriving_fails hpacket h, List.take_append,
            List.take_of_length_le (by rw [hheader]; omega)]
          exact ⟨_, rfl⟩
    have hends : ∀ p ∈ s.device.arriving (dataHeader code tid size ++ bytes),
        p.length < s.device.packet → size ≤ rest.length := by
      intro p hp hless
      have hwhole := flatten_arriving_of_short hpacket hp hless
      rw [hrest] at hwhole
      rw [List.append_cancel_left hwhole, hlen]
      by_contra hmore
      -- A first write that is not the last one is a full chunk.
      refine not_short_of_dvd hpacket ?_ ?_ hp hless
      · intro hnil
        rw [hnil, List.length_nil, headerLen] at hall
        omega
      · rw [hall, hlen, Nat.min_eq_left (by omega), Nat.add_sub_cancel' (Nat.le_of_lt hroom)]
        exact hdvd
    have hafter := take_header hidle hsize hrest hends
    change (s.device.take (s.device.arriving (dataHeader code tid size ++ bytes))).outstanding = _
    rw [hafter, hrest, List.length_append, hheader]
    omega

/-- The packet that ends a data phase opens none. -/
theorem endDataPhase_outstanding (hpacket : 0 < s.device.packet)
    (hidle : s.device.outstanding = 0) (total : UInt32) :
    (endDataPhase step total s).2.device.outstanding = 0 := by
  rw [endDataPhase, bind_ok (get_run _)]
  split
  · obtain ⟨r, hwrite⟩ := @writeAll_run step s []
    rw [hwrite]
    change (s.device.take (s.device.arriving [])).outstanding = 0
    have hnone : (s.device.arriving []).flatten.length < headerLen := by
      cases h : s.device.plan s.device.wrote.length with
      | none =>
          rw [flatten_arriving_works hpacket h]
          decide
      | some f =>
          rw [flatten_arriving_fails hpacket h, List.take_nil]
          decide
    rw [take_short hidle hnone, hidle]
  · exact hidle

/-- What follows the last chunk leaves the data phase over. -/
theorem closing_outstanding (hpacket : 0 < s.device.packet) (hidle : s.device.outstanding = 0)
    (total : UInt32) :
    ((besides (endDataPhase step total) >>= fun _ => besides (collected (readAnswer step)) :
      Proc SessionError (Session Receiver × List ReadAnswer) Outcome)
        (s, reader)).2.1.device.outstanding = 0 := by
  have hend := @endDataPhase_outstanding step s hpacket hidle total
  rw [bind_run, besides_run]
  rcases hrun : endDataPhase step total s with ⟨e | u, t⟩
  · rw [hrun] at hend
    exact hend
  · rw [hrun] at hend
    exact (collected_silent (t, reader)).outstanding.trans hend

/-- The packet size of the device stays. -/
def SamePacket (p q : Session Receiver × List ReadAnswer) : Prop :=
  q.1.device.packet = p.1.device.packet

theorem SamePacket.refl (p : Session Receiver × List ReadAnswer) : SamePacket p p := rfl

theorem SamePacket.trans {p q r : Session Receiver × List ReadAnswer} (h : SamePacket p q)
    (h' : SamePacket q r) : SamePacket p r := Eq.trans h' h

theorem writeAll_samePacket (bytes : Bytes) :
    Steps SamePacket (besides (writeAll step bytes)) := by
  intro hsome
  obtain ⟨s, reader⟩ := hsome
  obtain ⟨r, hwrite⟩ := @writeAll_run step s bytes
  rw [besides_run, hwrite]
  exact wrote_packet

theorem sendRest_samePacket {rounds sent : Nat} :
    Steps SamePacket (sendRest step chunk size rounds sent) := by
  induction rounds generalizing sent with
  | zero => exact .pure SamePacket.refl _
  | succ rounds ih =>
      unfold sendRest
      split
      · exact .pure SamePacket.refl _
      · refine .bind (R := SamePacket) SamePacket.trans (fun _ => rfl) fun bytes => ?_
        exact .bind (R := SamePacket) SamePacket.trans (writeAll_samePacket bytes) fun _ => ih

theorem sendData_samePacket {tid : UInt32} :
    Steps SamePacket (sendData step code tid size chunk) := by
  unfold sendData
  refine .bind (R := SamePacket) SamePacket.trans (fun _ => rfl) fun bytes => ?_
  refine .bind (R := SamePacket) SamePacket.trans (writeAll_samePacket _) fun _ => ?_
  refine .bind (R := SamePacket) SamePacket.trans sendRest_samePacket fun sent => ?_
  split
  · exact .fail SamePacket.refl _
  · refine .bind (R := SamePacket) SamePacket.trans ?_ fun _ => fun p => (collected_silent p).packet
    intro hsome
    obtain ⟨s, reader⟩ := hsome
    rw [besides_run, endDataPhase, bind_ok (get_run _)]
    split
    · exact writeAll_samePacket [] (s, reader)
    · rfl

/-- **The data phase is over** after a send exactly when its header never arrived
or all its bytes did. -/
theorem sendData_outstanding {tid : UInt32} (hpacket : 0 < s.device.packet)
    (hdvd : s.device.packet ∣ chunk) (hroom : headerLen < chunk)
    (hidle : s.device.outstanding = 0) (hsize : size ≤ maxPayloadLen) :
    ((sendData step code tid size chunk (s, reader)).2.1.device.outstanding = 0 ↔
      (given reader).length < min (chunk - headerLen) size ∨
      (∃ f, s.device.plan s.device.wrote.length = some f ∧ f.1 * s.device.packet < headerLen) ∨
      Delivers s.device chunk s.device.wrote.length (headerLen + size)
        (headerLen + (given reader).length)) ∧
    ∀ o, (sendData step code tid size chunk (s, reader)).1 = .ok o →
      (sendData step code tid size chunk (s, reader)).2.1.device.outstanding = 0 := by
  rw [sendData]
  by_cases hshort : (given reader).length < min (chunk - headerLen) size
  · obtain ⟨e, rest, hfill⟩ := @fill_short step s reader _ hshort
    rw [bind_error hfill]
    exact ⟨⟨fun _ => .inl hshort, fun _ => hidle⟩, fun _ _ => hidle⟩
  obtain ⟨rest, hfill, hrest⟩ := @fill_enough step s reader (min (chunk - headerLen) size)
    (by omega)
  have hlen : ((given reader).take (min (chunk - headerLen) size)).length =
      min (chunk - headerLen) size := by
    rw [List.length_take]
    omega
  have hafter := @wrote_front code s chunk size tid _ hpacket hdvd hroom hidle hsize hlen
  have hfront : (dataHeader code tid size ++
      (given reader).take (min (chunk - headerLen) size)).length =
      min chunk (headerLen + size) := by
    rw [List.length_append, hlen, dataHeader, length_pushHeader]
    unfold headerLen at *
    omega
  rw [bind_ok hfill, bind_run, besides_run]
  cases hplan : s.device.plan s.device.wrote.length with
  | none =>
      rw [writeAll_works hplan]
      dsimp only
      rw [flatten_arriving_works hpacket hplan, hfront, if_neg (by omega)] at hafter
      obtain ⟨hiff, hok⟩ := @sendRest_outstanding step
        (s.wrote (dataHeader code tid size ++ (given reader).take (min (chunk - headerLen) size)))
        rest chunk size (size / chunk + 4) (min (chunk - headerLen) size)
        (by rw [wrote_packet]; exact hpacket) (by rw [wrote_packet]; exact hdvd) (by omega)
        (by omega) (by rw [hafter]; omega)
        (Nat.le_trans (Nat.sub_le _ _) (le_rounds (by omega)))
      have hright : Delivers s.device chunk s.device.wrote.length (headerLen + size)
            (headerLen + (given reader).length) ↔
          Delivers s.device chunk (s.device.wrote.length + 1)
            (size - min (chunk - headerLen) size) (given rest).length := by
        rw [delivers_of_works hplan (by omega), hrest, List.length_drop,
          show headerLen + size - min chunk (headerLen + size) =
            size - min (chunk - headerLen) size by omega,
          show headerLen + (given reader).length - min chunk (headerLen + size) =
            (given reader).length - min (chunk - headerLen) size by omega]
      rw [wrote_wrote, List.length_append, List.length_singleton,
        Delivers.congr wrote_plan wrote_packet, ← hright] at hiff
      have hboth : ((given reader).length < min (chunk - headerLen) size ∨
          (∃ f : Nat × UsbError, none = some f ∧ f.1 * s.device.packet < headerLen) ∨
          Delivers s.device chunk s.device.wrote.length (headerLen + size)
            (headerLen + (given reader).length)) ↔
          Delivers s.device chunk s.device.wrote.length (headerLen + size)
            (headerLen + (given reader).length) := by
        simp [hshort]
      rw [hboth, ← hiff, bind_run]
      rcases hrun : sendRest step chunk size (size / chunk + 4) (min (chunk - headerLen) size)
        (s.wrote (dataHeader code tid size ++ (given reader).take (min (chunk - headerLen) size)),
          rest) with ⟨e | m, t, rest'⟩
      · refine ⟨Iff.rfl, fun o ho => ?_⟩
        cases ho
      · obtain ⟨rfl, hzero, hsame⟩ := hok m t rest' hrun
        dsimp only
        rw [if_neg (Nat.lt_irrefl m)]
        have hclosed := @closing_outstanding step t rest'
          (by rw [hsame, wrote_packet]; exact hpacket) hzero (UInt32.ofNat (headerLen + m))
        exact ⟨⟨fun _ => hzero, fun _ => hclosed⟩, fun _ _ => hclosed⟩
  | some f =>
      have hheader : headerLen = 12 := rfl
      have hfirst : (∃ f', some f = some f' ∧ f'.1 * s.device.packet < headerLen) ↔
          f.1 * s.device.packet < headerLen := by
        simp
      rw [writeAll_fails hplan, hfirst, delivers_of_fails hplan (by omega) (by omega)]
      dsimp only
      rw [flatten_arriving_fails hpacket hplan, List.length_take, hfront] at hafter
      rw [hafter]
      clear hafter hfirst hfill
      generalize f.1 * s.device.packet = arrived
      refine ⟨?_, fun o ho => ?_⟩
      · split
        · omega
        · omega
      · cases ho

/-! ## The next command -/

/-- When a send of `size` bytes ends its data phase: the size is refused, the
command does not go out, the reader ends before the first write, the header does not
arrive, or every byte of the data phase does. -/
def EndsDataPhase (s : Session Receiver) (size has : Nat) : Prop :=
  maxPayloadLen < size ∨
  (∃ f, s.device.plan s.device.wrote.length = some f) ∨
  has < min (s.config.writeChunk - headerLen) size ∨
  (∃ f, s.device.plan (s.device.wrote.length + 1) = some f ∧
    f.1 * s.config.packet < headerLen) ∨
  Delivers s.device s.config.writeChunk (s.device.wrote.length + 1) (headerLen + size)
    (headerLen + has)

/-- **After a failed send the device hears the next command** exactly when the send
ended its data phase. -/
theorem hears_after_send_iff (d : Receiver) (cfg : Config)
    (hconfig : s.config = (Session.new d cfg).1.config)
    (hpacket : s.device.packet = s.config.packet) (hidle : s.device.outstanding = 0) :
    (∀ e s' rest, operationSending step code params size (s, reader) = (.error e, (s', rest)) →
        s'.device.Hears) ↔
      EndsDataPhase s size (given reader).length := by
  have hconfig : s.config = cfg.normalised := hconfig
  have hpos : 0 < s.device.packet := by
    rw [hpacket, hconfig]
    exact cfg.packet_normalised_pos
  by_cases hbig : maxPayloadLen < size
  · refine ⟨fun _ => .inl hbig, fun _ e s' rest hrun => ?_⟩
    rw [operationSending_too_large hbig] at hrun
    cases hrun
    exact (hears_iff hpos).mpr hidle
  have hsize : size ≤ maxPayloadLen := Nat.le_of_not_lt hbig
  rw [operationSending_eq hsize, bind_run, besides_run, EndsDataPhase]
  have hcommand := take_command hpos hidle code s.transaction params
  cases hplan : s.device.plan s.device.wrote.length with
  | some f =>
      rw [writeAll_fails (show s.numbered.device.plan _ = some f from hplan)]
      refine ⟨fun _ => .inr (.inl ⟨f, rfl⟩), fun _ e s' rest hrun => ?_⟩
      cases hrun
      exact (hears_iff (by rw [wrote_packet]; exact hpos)).mpr hcommand
  | none =>
      rw [writeAll_works (show s.numbered.device.plan _ = none from hplan)]
      dsimp only
      obtain ⟨q, hq⟩ : ∃ q, q = s.numbered.wrote (buildCommand code s.transaction params) :=
        ⟨_, rfl⟩
      have hqpacket : q.device.packet = s.config.packet := by
        rw [hq, wrote_packet]
        exact hpacket
      have hqwrote : q.device.wrote.length = s.device.wrote.length + 1 := by
        rw [hq, wrote_wrote, List.length_append]
        rfl
      have hqplan : q.device.plan = s.device.plan := by
        rw [hq, wrote_plan]
        rfl
      obtain ⟨hiff, hok⟩ := @sendData_outstanding step code q reader s.config.writeChunk size
        s.transaction (by rw [hqpacket, ← hpacket]; exact hpos)
        (by rw [hqpacket, hconfig]; exact cfg.packet_dvd_writeChunk)
        (by rw [hconfig]; exact cfg.headerLen_lt_writeChunk) (by rw [hq]; exact hcommand) hsize
      have hsame := @sendData_samePacket step code s.config.writeChunk size s.transaction (q, reader)
      rw [hqwrote, hqplan, hqpacket, Delivers.congr hqplan (hqpacket.trans hpacket.symm)] at hiff
      have hboth : (maxPayloadLen < size ∨ (∃ f : Nat × UsbError, none = some f) ∨
          (given reader).length < min (s.config.writeChunk - headerLen) size ∨
          (∃ f, s.device.plan (s.device.wrote.length + 1) = some f ∧
            f.1 * s.config.packet < headerLen) ∨
          Delivers s.device s.config.writeChunk (s.device.wrote.length + 1) (headerLen + size)
            (headerLen + (given reader).length)) ↔
          (sendData step code s.transaction size s.config.writeChunk
            (q, reader)).2.1.device.outstanding = 0 := by
        rw [hiff]
        simp [hbig]
      rw [hboth, ← hq]
      rcases hrun : sendData step code s.transaction size s.config.writeChunk (q, reader) with
        ⟨e | o, t, rest⟩
      · rw [hrun] at hsame
        have hhears : t.device.Hears ↔ t.device.outstanding = 0 := by
          refine hears_iff ?_
          rw [show t.device.packet = q.device.packet from hsame, hqpacket, ← hpacket]
          exact hpos
        refine ⟨fun hall => hhears.mp (hall e t rest rfl), fun hzero e' s' rest' hsame => ?_⟩
        cases hsame
        exact hhears.mpr hzero
      · rw [hrun] at hok
        refine ⟨fun _ => hok o rfl, fun _ e' s' rest' hsame => ?_⟩
        cases hsame

/-- A device on a full speed link, where a packet holds 64 bytes. -/
def fullSpeed : Receiver := { attentive with packet := 64 }

/-- A session with it, over chunks of one packet. -/
def chunked : Session Receiver :=
  (Session.new fullSpeed { Config.default with writeChunk := 64, packet := 64 }).1

/-- A reader of zeros that ends. -/
def zeroReader (size : Nat) : List ReadAnswer := [.bytes (List.replicate size 0)]

/-- A reader that gives too little for the first write. -/
theorem hears_after_early_end :
    (∀ e s' rest, operationSending "SendObject" Op.sendObject [] 60 (chunked, zeroReader 50) =
        (.error e, (s', rest)) → s'.device.Hears) ↔
      EndsDataPhase chunked 60 (given (zeroReader 50)).length :=
  hears_after_send_iff fullSpeed { Config.default with writeChunk := 64, packet := 64 } rfl rfl rfl

/-- A reader that gives the first write and nothing more: the device waits for 8
bytes of payload, and takes them from the next command. -/
theorem swallows_after_short_reader :
    ¬ ∀ e s' rest, operationSending "SendObject" Op.sendObject [] 60 (chunked, zeroReader 52) =
      (.error e, (s', rest)) → s'.device.Hears := by
  intro h
  rcases hrun : operationSending "SendObject" Op.sendObject [] 60 (chunked, zeroReader 52) with
    ⟨r, s', rest⟩
  have hfails : (operationSending "SendObject" Op.sendObject [] 60 (chunked, zeroReader 52)).1 =
      .error (.shortRead "SendObject" 8 0 none) := by
    decide +kernel
  have hopen : (operationSending "SendObject" Op.sendObject [] 60
      (chunked, zeroReader 52)).2.1.device.outstanding = 8 := by
    decide +kernel
  have hpacket : (operationSending "SendObject" Op.sendObject [] 60
      (chunked, zeroReader 52)).2.1.device.packet = 64 := by
    decide +kernel
  rw [hrun] at hfails hopen hpacket
  obtain rfl : r = .error (.shortRead "SendObject" 8 0 none) := hfails
  have hhears := (hears_iff (by rw [hpacket]; decide)).mp (h _ s' rest hrun)
  rw [hopen] at hhears
  cases hhears

end Session

end Bsdroid
