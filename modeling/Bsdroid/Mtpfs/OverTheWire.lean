import Bsdroid.Cellphone.Wire
import Bsdroid.Mtpfs.Readers
import Bsdroid.Mtpfs.TwoLinks

/-!
# The mount over the wire

The proofs about the mount take a cellphone that does an operation at once.  Here the mount
reaches the same cellphone through a session and a cable: commands and payloads go out in
chunks, answers come back in packets, and the session puts them together.

`Watched` is the cellphone with a note that says whether every operation so far was one the
cable carries (`Carried`).  `cable_served` says that a session over the cable then does each
operation as the cellphone does it, and `Fs.replies_over_the_wire` that a mount over the cable
gives every program the answers of a mount over the cellphone.
-/

namespace Bsdroid

open Proc Packets

/-! ## Reading an answer -/

/-- A container that arrived whole. -/
theorem Sent.container_parse (c : Sent) : Container.parse c.wire =
    .ok ⟨c.length, c.answer.kind, c.answer.code, c.tid, c.answer.payload⟩ := by
  have hall := Container.parse_build c.build_eq_wire []
  rw [List.append_nil] at hall
  exact hall

namespace Session

section Reading

variable {τ τ' ω : Type} [Transport τ] [Transport τ'] [Writer ω]
  {c : Coupling (Session τ × ω) (Session τ' × ω)} {step : String}
  (hread : Sim c Eq (besides (readOnce step) : Proc SessionError (Session τ × ω) Bytes)
    (besides (readOnce step)))
  (hout : ∀ bytes, Sim c Eq (writeOut step bytes : Proc SessionError (Session τ × ω) Unit)
    (writeOut step bytes))
include hread hout

theorem readRest_sim (declared rounds : Nat) (progress : Progress) : Sim c Eq
    (readRest step declared rounds progress : Proc SessionError (Session τ × ω) Progress)
    (readRest step declared rounds progress) := by
  induction rounds generalizing progress with
  | zero => exact .pure rfl
  | succ rounds ih =>
      apply Sim.ite
      · intro _
        exact .pure rfl
      · intro _
        apply hread.step
        intro more
        apply Sim.ite
        · intro _
          exact .pure rfl
        · intro _
          apply (hout more).step
          intro _
          exact ih _

/-- **Two transports that read alike give one answer.** -/
theorem readAnswer_sim
    (hbuffer : ∀ s t, c.rel s t → s.1.config.readBuffer = t.1.config.readBuffer) : Sim c Eq
      (readAnswer step : Proc SessionError (Session τ × ω) StreamOutcome) (readAnswer step) := by
  apply hread.step
  intro buf
  apply (Sim.mapError _ (.ofExcept _)).step
  intro first
  cases first.kind with
  | data =>
      apply Sim.ite
      · intro _
        exact .fail _
      · intro _
        apply (hout _).step
        intro _
        apply Sim.look
        intro hsome hthere hst
        obtain ⟨s, w⟩ := hsome
        obtain ⟨t, w'⟩ := hthere
        have hsame : s.config.readBuffer = t.config.readBuffer := hbuffer _ _ hst
        dsimp only
        rw [hsame]
        apply (readRest_sim hread hout _ _ _).step
        intro progress
        apply Sim.ite
        · intro _
          exact .fail _
        · intro _
          apply hread.step
          intro last
          apply (Sim.mapError _ (.ofExcept _)).step
          intro response
          apply Sim.ite
          · intro _
            exact .fail _
          · intro _
            exact .pure rfl
  | response =>
      apply (Sim.mapError _ (.ofExcept _)).step
      intro response
      exact .pure rfl
  | command => exact .fail _
  | event => exact .fail _

end Reading

section Answers

variable {step : String} {s : Session Sender} {response : Sent} (hpacket : 0 < s.device.packet)
  (hbuffer : s.device.packet ∣ s.config.readBuffer)
  (hroom : response.wire.length < s.config.readBuffer)
  (hkind : response.answer.kind = .response)
  (hwaiting : s.device.waiting = framed s.device.packet response.wire)
include hpacket hbuffer hroom hkind hwaiting

omit hkind in
/-- The session once it read the last container that waits. -/
theorem readOnce_last : readOnce step s =
    (.ok response.wire, { s with device := { s.device with waiting := [] } }) := by
  have hlast : s.device.waiting = framed s.device.packet response.wire ++ [] := by
    rw [hwaiting, List.append_nil]
  rw [readOnce_framed hpacket hbuffer hlast, if_pos hroom,
    List.take_of_length_le (Nat.le_of_lt hroom)]

theorem readResponse_last (progress : Progress) (data : Bytes) :
    readResponse step progress (s, data) =
      (.ok {
        responseCode := response.answer.code
        responseParams := wordsOf response.answer.payload
        bytes := progress.payloadBytes
        reads := progress.reads }, ({ s with device := { s.device with waiting := [] } }, data)) := by
  rw [readResponse, bind_run, besides, onPart,
    readOnce_last hpacket hbuffer hroom hwaiting]
  dsimp only
  rw [Sent.container_parse, bind_ok (mapError_ofExcept_ok _ _ _), if_neg (by rw [hkind]; exact fun h => h rfl)]
  rfl

/-- What the session reads of an answer that is a response alone. -/
theorem readAnswer_last :
    readAnswer step (s, ([] : Bytes)) =
      (.ok {
        responseCode := response.answer.code
        responseParams := wordsOf response.answer.payload
        bytes := 0
        reads := 1 }, ({ s with device := { s.device with waiting := [] } }, [])) := by
  have hheader : Header.parse response.wire =
      .ok ⟨response.length, .response, response.answer.code, response.tid⟩ := by
    rw [Sent.wire, Header.parse_pushHeader, hkind]
  rw [readAnswer, bind_run, besides, onPart,
    readOnce_last hpacket hbuffer hroom hwaiting]
  dsimp only
  rw [hheader, bind_ok (mapError_ofExcept_ok _ _ _)]
  dsimp only
  rw [Sent.container_parse, bind_ok (mapError_ofExcept_ok _ _ _)]
  rfl

end Answers

/-- **The session puts the answer of a device together**, whether or not it has a data phase. -/
theorem readAnswer_answer {step : String} {s : Session Sender} {out : Outcome}
    {emptyPhases : Bool} {code : UInt16} {tid : UInt32} (hpacket : 0 < s.device.packet)
    (hbuffer : s.device.packet ∣ s.config.readBuffer)
    (hmin : readBufferMin ≤ s.config.readBuffer) (hfits : out.data.length ≤ maxPayloadLen)
    (hshort : ¬ s.config.readBuffer ∣ headerLen + out.data.length)
    (hparams : out.responseParams.length ≤ maxParams)
    (hwaiting : s.device.waiting =
      (Wire.answer emptyPhases code tid out).flatMap fun c => framed s.device.packet c.wire) :
    ∃ o s', readAnswer step (s, ([] : Bytes)) = (.ok o, (s', out.data)) ∧
      o.responseCode = out.responseCode ∧ o.responseParams = out.responseParams ∧
      s'.config = s.config ∧ s'.device = { s.device with waiting := [] } := by
  have hwidth : (out.responseParams.flatMap le32).length = 4 * out.responseParams.length := by
    rw [List.length_flatMap]
    simp [Nat.mul_comm]
  have hfive : maxParams = 5 := rfl
  have hleast : readBufferMin = 512 := rfl
  have hheader : headerLen = 12 := rfl
  have hresponse : (out.responseParams.flatMap le32).length ≤ maxPayloadLen := by
    have hmax : maxPayloadLen = 4294967283 := rfl
    omega
  obtain ⟨response, hsent⟩ : ∃ response : Sent, response =
      ⟨tid, ⟨.response, out.responseCode, out.responseParams.flatMap le32, hresponse⟩⟩ := ⟨_, rfl⟩
  have hlength : response.wire.length < s.config.readBuffer := by
    rw [Sent.length_wire, hsent]
    dsimp only
    omega
  have hwords : wordsOf response.answer.payload = out.responseParams := by
    rw [hsent]
    exact wordsOf_flatMap _
  rw [Wire.answer, Wire.container, Wire.container, dif_pos hresponse, dif_pos hfits, ← hsent]
    at hwaiting
  by_cases hphase : (out.data.isEmpty && !emptyPhases) = true
  · rw [if_pos hphase, List.nil_append, List.flatMap_singleton] at hwaiting
    have hnone : out.data = [] := by
      rw [Bool.and_eq_true] at hphase
      exact List.isEmpty_iff.mp hphase.1
    rw [hnone, readAnswer_last hpacket hbuffer hlength (by rw [hsent]) hwaiting]
    refine ⟨_, _, rfl, ?_, hwords, rfl, rfl⟩
    rw [hsent]
  · rw [if_neg hphase, List.flatMap_append, List.flatMap_singleton, List.flatMap_singleton]
      at hwaiting
    obtain ⟨progress, s', hrun, hconfig, hdevice⟩ := readAnswer_data hpacket hbuffer hmin rfl
      hwaiting
    have hdata : ¬ s.config.readBuffer ∣
        (⟨tid, ⟨.data, code, out.data, hfits⟩⟩ : Sent).wire.length := by
      rw [Sent.length_wire]
      exact hshort
    rw [if_neg hdata] at hdevice
    rw [hrun, readResponse_last (by rw [hdevice]; exact hpacket)
      (by rw [hdevice, hconfig]; exact hbuffer) (by rw [hconfig]; exact hlength) (by rw [hsent])
      (by rw [hdevice])]
    refine ⟨_, _, rfl, ?_, hwords, hconfig, ?_⟩
    · rw [hsent]
    · rw [hdevice]

end Session

namespace Wire

/-- A session with a sender, and the same session over the cable of a cellphone. -/
def reading (d : Wire) : Coupling (Session Wire × Bytes) (Session Sender × Bytes) where
  good _ := True
  rel p q := p = ({
    device := { d with packet := q.1.device.packet, waiting := q.1.device.waiting }
    transaction := q.1.transaction
    config := q.1.config
    sessionOpen := q.1.sessionOpen }, q.2)
  total _ := ⟨_, rfl⟩

/-- The host reads of a cellphone what it reads of a sender. -/
theorem readAnswer_reading (d : Wire) (step : String) :
    Sim d.reading Eq (Session.readAnswer step) (Session.readAnswer step) := by
  apply Session.readAnswer_sim
  · constructor
    · intro _ _
      trivial
    · rintro _ ⟨t, w⟩ rfl -
      cases hcollect : collect t.device.packet t.config.readBuffer t.device.waiting with
      | none =>
          simp only [Session.besides, Session.readOnce, Session.transfer, onPart, mapError,
            bind_run, get_run, Transport.read, hcollect]
          exact ⟨rfl, rfl⟩
      | some taken =>
          simp only [Session.besides, Session.readOnce, Session.transfer, onPart, mapError,
            bind_run, get_run, Transport.read, hcollect]
          exact ⟨rfl, rfl⟩
  · intro bytes
    constructor
    · intro _ _
      trivial
    · rintro _ ⟨t, w⟩ rfl -
      exact ⟨rfl, rfl⟩
  · intro _ t hsame
    subst hsame
    rfl

/-- **The host gets the answer the device queued.** -/
theorem collected_answer {step : String} {s : Session Wire} {out : Outcome} {emptyPhases : Bool}
    {code : UInt16} {tid : UInt32} (hpacket : 0 < s.device.packet)
    (hbuffer : s.device.packet ∣ s.config.readBuffer)
    (hmin : readBufferMin ≤ s.config.readBuffer) (hfits : out.data.length ≤ maxPayloadLen)
    (hshort : ¬ s.config.readBuffer ∣ headerLen + out.data.length)
    (hparams : out.responseParams.length ≤ maxParams)
    (hwaiting : s.device.waiting =
      (answer emptyPhases code tid out).flatMap fun c => framed s.device.packet c.wire) :
    ∃ o s', Session.collected (Session.readAnswer step) s = (.ok o, s') ∧ UpToReads o out ∧
      s'.config = s.config ∧ s'.device = { s.device with waiting := [] } := by
  obtain ⟨t, ht⟩ : ∃ t : Session Sender, t =
      ⟨⟨s.device.packet, fun _ => [], s.device.waiting⟩, s.transaction, s.config,
        s.sessionOpen⟩ := ⟨_, rfl⟩
  obtain ⟨o, t', hrun, hcode, hresponse, hconfig, hdevice⟩ := @Session.readAnswer_answer step t out
    emptyPhases code tid (by rw [ht]; exact hpacket) (by rw [ht]; exact hbuffer)
    (by rw [ht]; exact hmin) hfits (by rw [ht]; exact hshort) hparams (by rw [ht]; exact hwaiting)
  obtain ⟨hanswer, hstate⟩ := (readAnswer_reading s.device step).same (s, []) (t, [])
    (by rw [ht]; rfl) trivial
  rw [hrun] at hanswer hstate
  rcases hread : Session.readAnswer step (s, ([] : Bytes)) with ⟨e | o', s', data⟩
  · rw [hread] at hanswer
    cases hanswer
  · rw [hread] at hanswer hstate
    obtain rfl : o' = o := hanswer
    have hcollected : Session.collected (Session.readAnswer step) s =
        (.ok ⟨o'.responseCode, data, o'.responseParams, o'.reads⟩, s') := by
      rw [Session.collected, hread]
    cases hstate
    refine ⟨_, _, hcollected, ⟨hcode, rfl, hresponse⟩, ?_, ?_⟩
    · show t'.config = s.config
      rw [hconfig, ht]
    · show Wire.mk _ t'.device.packet _ _ t'.device.waiting = _
      rw [hdevice, ht]

end Wire

/-! ## Sending a payload -/

namespace Session

variable {step : String} {code : UInt16} {params : List UInt32} {s : Session Wire}
  {reader : List ReadAnswer} {size : Nat}

/-- The session once the device heard a write. -/
def heard (s : Session Wire) (bytes : Bytes) : Session Wire :=
  { s with device := s.device.hear bytes }

theorem besides_writeAll (bytes : Bytes) (w : List ReadAnswer) :
    besides (writeAll step bytes) (s, w) = (.ok (), (s.heard bytes, w)) := rfl

theorem fill_given {want : Nat} (h : want ≤ (given reader).length) :
    ∃ rest, fill step want (s, reader) = (.ok ((given reader).take want), (s, rest)) ∧
      given rest = (given reader).drop want := by
  obtain ⟨rest, hrun, hrest⟩ := @readExactOrShort_enough step want [] reader
    (by rw [List.length_nil]; omega) (Nat.zero_le _)
  rw [List.length_nil, Nat.sub_zero, List.nil_append] at hrun
  rw [List.length_nil, Nat.sub_zero] at hrest
  refine ⟨rest, ?_, hrest⟩
  rw [fill, hrun]

/-- A device that did the operation takes the end of the data phase for nothing. -/
theorem endDataPhase_idle (hidle : s.device.phase = .idle) (total : UInt32)
    (w : List ReadAnswer) : besides (endDataPhase step total) (s, w) = (.ok (), (s, w)) := by
  have hsame : s.heard [] = s := by
    rw [heard, Wire.hear_nil _ hidle]
  have hend : endDataPhase step total s = (.ok (), s) := by
    rw [endDataPhase, bind_ok (get_run _)]
    split
    · have hwrite : writeAll step [] s = (.ok (), s.heard []) := rfl
      rw [hwrite, hsame]
    · rfl
  rw [besides, onPart, hend]

theorem heard_all {d : Wire} {tid : UInt32} {bytes : Bytes}
    (hdevice : s.device = d.collectData code tid params size bytes)
    (hall : bytes.length = size) :
    { s with
      device := d.collectData code tid params size
        (bytes ++ (given reader).take (size - bytes.length)) } = s := by
  rw [hall, Nat.sub_self, List.take_zero, List.append_nil, ← hdevice]

/-- **The loop of a send**: the device has the bytes so far, and gets the rest. -/
theorem sendRest_heard {d : Wire} {tid : UInt32} {chunk rounds : Nat} {bytes : Bytes}
    (hdevice : s.device = d.collectData code tid params size bytes) (hsent : bytes.length ≤ size)
    (hgiven : size - bytes.length ≤ (given reader).length)
    (hrounds : size - bytes.length ≤ rounds * chunk) :
    ∃ rest, sendRest step chunk size rounds bytes.length (s, reader) = (.ok size, ({
      s with
      device := d.collectData code tid params size
        (bytes ++ (given reader).take (size - bytes.length)) }, rest)) := by
  induction rounds generalizing s reader bytes with
  | zero =>
      have hall : bytes.length = size := by omega
      refine ⟨reader, ?_⟩
      rw [heard_all hdevice hall, hall]
      rfl
  | succ rounds ih =>
      rw [sendRest]
      by_cases hdone : bytes.length ≥ size
      · have hall : bytes.length = size := by omega
        refine ⟨reader, ?_⟩
        rw [heard_all hdevice hall, if_pos hdone, hall]
        rfl
      · obtain ⟨want, hwant⟩ : ∃ want, want = min chunk (size - bytes.length) := ⟨_, rfl⟩
        obtain ⟨rest, hfill, hrest⟩ := @fill_given step s reader want (by omega)
        have hlen : (bytes ++ (given reader).take want).length = bytes.length + want := by
          rw [List.length_append, List.length_take]
          omega
        rw [Nat.succ_mul] at hrounds
        obtain ⟨rest', hrun⟩ := @ih (s.heard ((given reader).take want)) rest
          (bytes ++ (given reader).take want)
          (by rw [heard, hdevice, Wire.hear_more d code tid params (by omega)])
          (by omega) (by rw [hrest, List.length_drop]; omega) (by omega)
        have hpieces : bytes ++ (given reader).take want ++ (given rest).take
            (size - (bytes ++ (given reader).take want).length) =
              bytes ++ (given reader).take (size - bytes.length) := by
          rw [List.append_assoc, hrest, ← List.take_add, hlen]
          congr 2
          omega
        refine ⟨rest', ?_⟩
        rw [if_neg hdone, ← hwant, bind_ok hfill, bind_ok (besides_writeAll _ _), ← hlen, hrun,
          hpieces]
        rfl

/-- **A send reaches the device whole**, and the host reads the answer then. -/
theorem operationSending_heard (hidle : s.device.phase = .idle)
    (hparams : params.length ≤ maxParams) (hphase : Op.takesData code = true)
    (hsize : size ≤ maxPayloadLen) (hgiven : size ≤ (given reader).length)
    (hchunk : headerLen < s.config.writeChunk) :
    ∃ rest, operationSending step code params size (s, reader) =
      besides (collected (readAnswer step)) ({
        s with
        transaction := s.transaction + 1
        device := s.device.execute code s.transaction params ((given reader).take size) },
        rest) := by
  obtain ⟨want, hwant⟩ : ∃ want, want = min (s.config.writeChunk - headerLen) size := ⟨_, rfl⟩
  obtain ⟨asked, hasked⟩ : ∃ t, t = { s with transaction := s.transaction + 1 }.heard
    (buildCommand code s.transaction params) := ⟨_, rfl⟩
  have hphase' : asked.device = { s.device with phase := .asked code s.transaction params } := by
    rw [hasked, heard, Wire.hear_command s.device code s.transaction params hidle hparams,
      if_pos hphase]
  obtain ⟨rest, hfill, hrest⟩ := @fill_given step asked reader want (by omega)
  have hlen : ((given reader).take want).length = want := by
    rw [List.length_take]
    omega
  obtain ⟨taking, htaking⟩ : ∃ t, t = asked.heard
    (dataHeader code s.transaction size ++ (given reader).take want) := ⟨_, rfl⟩
  have hdevice : taking.device =
      s.device.collectData code s.transaction params size ((given reader).take want) := by
    rw [htaking, heard, hphase', Wire.hear_first _ code s.transaction params rfl hsize]
    exact Wire.collectData_phase s.device code s.transaction params _ _
  obtain ⟨rest', hsend⟩ := @sendRest_heard step code params taking rest size s.device
    s.transaction s.config.writeChunk (size / s.config.writeChunk + 4) ((given reader).take want)
    hdevice (by omega) (by rw [hrest, List.length_drop]; omega)
    (Nat.le_trans (Nat.sub_le _ _) (le_rounds (by omega)))
  have hall : (given reader).take want ++ (given rest).take
      (size - ((given reader).take want).length) = (given reader).take size := by
    rw [hrest, ← List.take_add, hlen]
    congr 1
    omega
  have hdone : s.device.collectData code s.transaction params size ((given reader).take size) =
      s.device.execute code s.transaction params ((given reader).take size) := by
    rw [Wire.collectData, if_neg (by rw [List.length_take]; omega)]
  rw [hall, hlen, hdone] at hsend
  have hlength : (Proc.ofExcept (containerLength size)).mapError (SessionError.build step)
      (s, reader) = (.ok (UInt32.ofNat (headerLen + size)), (s, reader)) := by
    rw [containerLength_ok hsize]
    rfl
  have hnext : besides nextTransaction (s, reader) =
      (.ok s.transaction, ({ s with transaction := s.transaction + 1 }, reader)) := rfl
  have hheader : (Proc.ofExcept (buildDataHeader code s.transaction size)).mapError
      (SessionError.build step) (asked, reader) =
      (.ok (dataHeader code s.transaction size), (asked, reader)) := by
    rw [buildDataHeader_ok hsize]
    rfl
  have hconfig : asked.config = s.config := by
    rw [hasked]
    rfl
  refine ⟨rest', ?_⟩
  rw [operationSending, bind_ok hlength, bind_ok hnext, bind_ok (besides_writeAll _ _), ← hasked,
    bind_ok (get_run _)]
  dsimp only
  rw [bind_ok hheader, hconfig, ← hwant, bind_ok hfill, bind_ok (besides_writeAll _ _), ← htaking,
    bind_ok hsend, if_neg (Nat.lt_irrefl size), bind_ok (endDataPhase_idle (Wire.execute_idle _ _ _ _ _) _ _),
    htaking, hasked]
  rfl

/-- A command without a data phase reaches the device whole. -/
theorem operation_heard (hidle : s.device.phase = .idle) (hparams : params.length ≤ maxParams)
    (hphase : Op.takesData code = false) :
    operation step code params s = collected (readAnswer step) {
      s with
      transaction := s.transaction + 1
      device := s.device.execute code s.transaction params [] } := by
  have hheard : s.device.hear (buildCommand code s.transaction params) =
      s.device.execute code s.transaction params [] := by
    rw [Wire.hear_command s.device code s.transaction params hidle hparams, hphase,
      if_neg Bool.false_ne_true]
  have hwrite : (besides (writeAll step (buildCommand code s.transaction params)) :
      Proc SessionError (Session Wire × Bytes) Unit)
        ({ s with transaction := s.transaction + 1 }, []) =
      (.ok (), ({
        s with
        transaction := s.transaction + 1
        device := s.device.execute code s.transaction params [] }, [])) := by
    rw [← hheard]
    rfl
  have hnext : (besides nextTransaction : Proc SessionError (Session Wire × Bytes) UInt32)
      (s, []) = (.ok s.transaction, ({ s with transaction := s.transaction + 1 }, [])) := rfl
  rw [operation, collected, operationStream, bind_ok hnext, bind_ok hwrite, collected]

/-- **An operation reaches the device whole**, and the host reads the answer then. -/
theorem exec_heard {r : Request} {payload : Bytes} (hidle : s.device.phase = .idle)
    (hparams : r.params.length ≤ maxParams) (hphase : r.payload.isSome = Op.takesData r.code)
    (hpayload : Phone.received r = .ok payload) (hchunk : headerLen < s.config.writeChunk) :
    (Link.exec r : Proc SessionError (Session Wire) Outcome) s =
      collected (readAnswer r.step) {
        s with
        transaction := s.transaction + 1
        device := s.device.execute r.code s.transaction r.params payload } := by
  obtain ⟨step, code, params, sent⟩ := r
  cases sent with
  | none =>
      obtain rfl : [] = payload := Except.ok.inj hpayload
      exact operation_heard hidle hparams hphase.symm
  | some sent =>
      obtain ⟨size, reader⟩ := sent
      obtain ⟨hsize, henough, htake⟩ := Phone.received_some rfl hpayload
      obtain ⟨rest, hrun⟩ := @operationSending_heard step code params s reader size hidle
        hparams hphase.symm hsize henough hchunk
      have hboth : (Link.exec ⟨step, code, params, some (size, reader)⟩ :
          Proc SessionError (Session Wire) Outcome) s =
            ((operationSending step code params size (s, reader)).1,
              (operationSending step code params size (s, reader)).2.1) := rfl
      rw [hboth, hrun, htake]
      rfl

end Session

/-! ## What the cable carries -/

/-- An operation the cable carries, with reads of `buffer` bytes: the reader gives the whole
payload, and the data of the answer fits a container that does not end a read buffer. -/
structure Carried (buffer : Nat) (r : Request) (out : Outcome) : Prop where
  payload : (Phone.received r).isOk = true
  phase : r.payload.isSome = Op.takesData r.code
  params : r.params.length ≤ maxParams
  fits : out.data.length ≤ maxPayloadLen
  short : ¬ buffer ∣ headerLen + out.data.length
  room : out.responseParams.length ≤ maxParams

instance (buffer : Nat) (r : Request) (out : Outcome) : Decidable (Carried buffer r out) :=
  decidable_of_iff ((Phone.received r).isOk = true ∧ r.payload.isSome = Op.takesData r.code ∧
      r.params.length ≤ maxParams ∧ out.data.length ≤ maxPayloadLen ∧
      (¬ buffer ∣ headerLen + out.data.length) ∧ out.responseParams.length ≤ maxParams)
    ⟨fun ⟨h₁, h₂, h₃, h₄, h₅, h₆⟩ => ⟨h₁, h₂, h₃, h₄, h₅, h₆⟩,
      fun ⟨h₁, h₂, h₃, h₄, h₅, h₆⟩ => ⟨h₁, h₂, h₃, h₄, h₅, h₆⟩⟩

/-- A cellphone, and whether the cable carried every operation so far. -/
structure Watched (buffer : Nat) where
  phone : Phone
  fine : Bool

namespace Watched

variable {buffer : Nat}

/-- Whether the cable carries an answer. -/
def carries (buffer : Nat) (r : Request) : Except SessionError Outcome → Bool
  | .ok out => decide (Carried buffer r out)
  | .error _ => false

instance : Link (Watched buffer) where
  exec r := fun w => ((Phone.exec r w.phone).1, {
    phone := (Phone.exec r w.phone).2
    fine := w.fine && carries buffer r (Phone.exec r w.phone).1 })

end Watched

/-- The faults of a device do not rest on what only the host knows of a request. -/
structure Policy.Remote (policy : Policy) : Prop where
  blind : policy.Blind
  heard : ∀ l s r payload, Phone.received r = .ok payload →
    policy.fault l s (.heard r.code r.params payload) = policy.fault l s r

/-- A cellphone does the same for a request as for what it hears of it. -/
theorem Phone.exec_heard {p q : Phone} {r : Request} {payload : Bytes} (hpq : Alike p q)
    (hremote : p.policy.Remote) (hpayload : received r = .ok payload)
    (hphase : r.payload.isSome = Op.takesData r.code) :
    (exec (.heard r.code r.params payload) q).1 = (exec r p).1 ∧
      Alike (exec r p).2 (exec (.heard r.code r.params payload) q).2 := by
  obtain ⟨hanswer, hstate⟩ := serve_alike hpq hremote.blind r.code r.params payload
  have hperform : (q.perform (.heard r.code r.params payload)).1 = (p.perform r).1 ∧
      Alike (p.perform r).2 (q.perform (.heard r.code r.params payload)).2 := by
    rw [perform, perform, received_heard hpayload hphase, hpayload]
    exact ⟨congrArg Except.ok hanswer.symm, hstate⟩
  have hrecord : ∀ {a b : Phone}, Alike a b →
      Alike (a.record r) (b.record (.heard r.code r.params payload)) :=
    fun hab => ⟨hab.store, hab.announced, hab.storage, hab.policy⟩
  have hfault : q.policy.fault q.log q.store (.heard r.code r.params payload) =
      p.policy.fault p.log p.store r := by
    rw [hpq.policy, hpq.store, hremote.heard _ _ r payload hpayload]
    exact hremote.blind.fault _ _ _ _
  rw [exec, exec, hfault]
  cases p.policy.fault p.log p.store r with
  | none => exact ⟨hperform.1, hrecord hperform.2⟩
  | some fault =>
      cases fault with
      | code c hc => exact ⟨rfl, hrecord hpq⟩
      | transport e => exact ⟨rfl, hrecord hpq⟩
      | lost e => exact ⟨rfl, hrecord hperform.2⟩

/-- A session over the cable, between two operations, and the cellphone behind it. -/
structure Plugged (buffer : Nat) (s : Session Wire) (w : Watched buffer) : Prop where
  phone : Phone.Alike w.phone s.device.phone
  idle : s.device.phase = .idle
  silent : s.device.waiting = []
  packet : 0 < s.device.packet
  room : s.config.readBuffer = buffer
  whole : s.device.packet ∣ buffer
  chunk : headerLen < s.config.writeChunk

/-- A session over the cable of a cellphone. -/
def Watched.plug {buffer : Nat} (packet : Nat) (w : Watched buffer) : Session Wire where
  device := {
    phone := w.phone
    packet := packet
    emptyPhases := false
    phase := .idle
    waiting := [] }
  transaction := 0
  config := { Config.default with readBuffer := buffer }
  sessionOpen := true

theorem Watched.plugged_plug {buffer packet : Nat} (hpacket : 0 < packet)
    (hwhole : packet ∣ buffer) (w : Watched buffer) : Plugged buffer (w.plug packet) w :=
  ⟨.refl _, rfl, rfl, hpacket, rfl, hwhole, show headerLen < Config.default.writeChunk by decide⟩

/-- Sessions over the cable, and the cellphones behind them. -/
def cable (buffer : Nat) : Coupling (Session Wire) (Watched buffer) where
  good w := w.fine = true ∧ w.phone.policy.Remote
  rel := Plugged buffer
  total w := ⟨w.plug 1, w.plugged_plug Nat.one_pos (Nat.one_dvd _)⟩

/-- **A session over the cable does each operation as the cellphone does it.** -/
theorem cable_served {buffer : Nat} (hmin : readBufferMin ≤ buffer) :
    Mtp.Served (cable buffer) := by
  intro r
  constructor
  · intro w hparts
    obtain ⟨hfine, hremote⟩ := hparts
    have hboth : (w.fine && Watched.carries buffer r (Phone.exec r w.phone).1) = true := hfine
    rw [Bool.and_eq_true] at hboth
    refine ⟨hboth.1, ?_⟩
    have hpolicy : (Phone.exec r w.phone).2.policy.Remote := hremote
    rw [(Phone.exec_served w.phone r).policy] at hpolicy
    exact hpolicy
  · intro s w hplugged hparts
    obtain ⟨hfine, hremote⟩ := hparts
    have hboth : (w.fine && Watched.carries buffer r (Phone.exec r w.phone).1) = true := hfine
    have hremote' : (Phone.exec r w.phone).2.policy.Remote := hremote
    rw [(Phone.exec_served w.phone r).policy] at hremote'
    rw [Bool.and_eq_true] at hboth
    rcases hrun : Phone.exec r w.phone with ⟨e | out, q⟩
    · rw [hrun] at hboth
      cases hboth.2
    rw [hrun] at hboth
    have hcarried : Carried buffer r out := of_decide_eq_true hboth.2
    obtain ⟨payload, hpayload⟩ : ∃ payload, Phone.received r = .ok payload := by
      cases hreceived : Phone.received r with
      | error e =>
          have hok := hcarried.payload
          rw [hreceived] at hok
          cases hok
      | ok payload => exact ⟨payload, rfl⟩
    obtain ⟨hanswer, halike⟩ :=
      Phone.exec_heard hplugged.phone hremote' hpayload hcarried.phase
    rcases hrun' : Phone.exec (.heard r.code r.params payload) s.device.phone with ⟨a, q'⟩
    rw [hrun, hrun'] at hanswer halike
    obtain rfl : a = .ok out := hanswer
    obtain ⟨asked, hasked⟩ : ∃ t : Session Wire, t = {
      s with
      transaction := s.transaction + 1
      device := s.device.execute r.code s.transaction r.params payload } := ⟨_, rfl⟩
    have hdevice : asked.device = {
        s.device with
        phone := q'
        phase := .idle
        waiting := (Wire.answer s.device.emptyPhases r.code s.transaction out).flatMap
          fun c => framed s.device.packet c.wire } := by
      rw [hasked, Wire.execute_eq _ _ _ _ hrun', hplugged.silent, List.nil_append]
    have hlower : (Link.exec r : Proc SessionError (Session Wire) Outcome) s =
        Session.collected (Session.readAnswer r.step) asked := by
      rw [hasked]
      exact Session.exec_heard hplugged.idle hcarried.params hcarried.phase hpayload
        hplugged.chunk
    obtain ⟨o, s', hread, hsame, hconfig, hafter⟩ := @Wire.collected_answer r.step asked out
      s.device.emptyPhases r.code s.transaction (by rw [hdevice]; exact hplugged.packet)
      (by rw [hdevice, hasked, hplugged.room]; exact hplugged.whole)
      (by rw [hasked, hplugged.room]; exact hmin) hcarried.fits
      (by rw [hasked, hplugged.room]; exact hcarried.short) hcarried.room
      (by rw [hdevice])
    have hlast : (Link.exec r : Proc SessionError (Watched buffer) Outcome) w =
        (.ok out, ⟨q, w.fine && Watched.carries buffer r (.ok out)⟩) := by
      show ((Phone.exec r w.phone).1, Watched.mk (Phone.exec r w.phone).2
        (w.fine && Watched.carries buffer r (Phone.exec r w.phone).1)) = _
      rw [hrun]
    rw [hlower, hread, hlast]
    refine ⟨hsame, ?_, ?_, ?_, ?_, ?_, ?_, ?_⟩
    · rw [hafter, hdevice]
      exact halike
    · rw [hafter, hdevice]
    · rw [hafter]
    · rw [hafter, hdevice]
      exact hplugged.packet
    · rw [hconfig, hasked]
      exact hplugged.room
    · rw [hafter, hdevice]
      exact hplugged.whole
    · rw [hconfig, hasked]
      exact hplugged.chunk

/-! ## The mount over the cable -/

/-- Cellphones with the note of what the cable carried, and without it. -/
def Watched.unwatched (buffer : Nat) : Coupling (Watched buffer) Phone where
  good _ := True
  rel w p := w.phone = p
  total p := ⟨⟨p, true⟩, rfl⟩

theorem Watched.unwatched_served (buffer : Nat) : Mtp.Served (Watched.unwatched buffer) := by
  intro r
  constructor
  · intro _ _
    trivial
  · rintro w p rfl -
    refine ⟨?_, rfl⟩
    show Answers UpToReads (Phone.exec r w.phone).1 (Phone.exec r w.phone).1
    cases (Phone.exec r w.phone).1 with
    | error e => exact rfl
    | ok out => exact .refl out

/-- The operations keep a device remote. -/
theorem Mtp.takes_remote {buffer : Nat} : Takes (fun _ => True) fun m m' : Mtp (Watched buffer) =>
    m.session.phone.policy.Remote → m'.session.phone.policy.Remote where
  refl _ hremote := hremote
  trans h h' hremote := h' (h hremote)
  exec r _ m hremote := by
    have hpolicy := (Phone.exec_served m.session.phone r).policy
    show (Phone.exec r m.session.phone).2.policy.Remote
    rw [hpolicy]
    exact hremote
  cache _ _ hremote := hremote

namespace Fs

variable {buffer : Nat}

/-- The mount on a cellphone that is watched. -/
def watched (buffer : Nat) (fs : Fs Phone) : Fs (Watched buffer) :=
  fs.linked ⟨fs.mtp.session, true⟩

/-- The cable carries every operation of a run of calls. -/
def AllCarried (buffer : Nat) (fs : Fs Phone) (calls : List (Host × Call)) : Prop :=
  ((fs.watched buffer).run calls).mtp.session.fine = true

instance (fs : Fs Phone) (calls : List (Host × Call)) : Decidable (fs.AllCarried buffer calls) :=
  inferInstanceAs (Decidable (_ = true))

/-- A note changes nothing. -/
theorem replies_watched (fs : Fs Phone) (calls : List (Host × Call)) :
    (replies calls (fs.watched buffer) : Except Int _ × _).1 =
        (replies calls fs : Except Int _ × _).1 ∧
      ((fs.watched buffer).run calls).mtp.session.phone = (fs.run calls).mtp.session := by
  obtain ⟨hanswer, hend⟩ := (@replies_sim _ _ Int _ _ _ (Watched.unwatched_served buffer)
    calls).same (fs.watched buffer) fs ⟨rfl, rfl⟩ trivial
  have hphone : ((replies calls (fs.watched buffer) :
      Except Int _ × Fs (Watched buffer)).2).mtp.session.phone =
        ((replies calls fs : Except Int _ × Fs Phone).2).mtp.session := hend.1
  rw [replies_state, replies_state] at hphone
  exact ⟨answers_eq.mp hanswer, hphone⟩

/-- **The mount over the wire** gives every program what the mount on the cellphone gives, in
every run whose operations the cable carries, and leaves the same objects. -/
theorem replies_over_the_wire (hmin : readBufferMin ≤ buffer) (fs : Fs Phone)
    (calls : List (Host × Call)) (hremote : fs.mtp.session.policy.Remote)
    (hcarried : fs.AllCarried buffer calls) (s : Session Wire)
    (hplugged : Plugged buffer s ⟨fs.mtp.session, true⟩) :
    (replies calls (fs.linked s) : Except Int _ × _).1 = (replies calls fs : Except Int _ × _).1 ∧
      ((fs.linked s).run calls).mtp.session.device.phone.store =
        (fs.run calls).mtp.session.store := by
  have hend : ((fs.watched buffer).run calls).mtp.session.phone.policy.Remote :=
    run_device (respects_of_takes Mtp.takes_remote fun _ h => h) (fs.watched buffer) calls hremote
  obtain ⟨hanswer, hstate⟩ := (@replies_sim _ _ Int _ _ _ (cable_served hmin) calls).same
    (fs.linked s) (fs.watched buffer) ⟨hplugged, rfl⟩
    (by rw [replies_state]; exact ⟨hcarried, hend⟩)
  obtain ⟨hsame, hphone⟩ := @replies_watched buffer fs calls
  have hlast : Plugged buffer
      ((replies calls (fs.linked s) : Except Int _ × Fs (Session Wire)).2).mtp.session
      ((replies calls (fs.watched buffer) : Except Int _ × Fs (Watched buffer)).2).mtp.session :=
    hstate.1
  rw [replies_state, replies_state] at hlast
  refine ⟨(answers_eq.mp hanswer).trans hsame, ?_⟩
  rw [hlast.phone.store, hphone]

theorem remote_obliging : Policy.obliging.Remote where
  blind := ⟨fun _ _ _ _ => rfl, fun _ _ _ => rfl, fun _ _ _ => rfl, fun _ _ _ => rfl,
    fun _ _ _ => rfl⟩
  heard _ _ _ _ _ := rfl

/-- A program makes a folder, writes a file into it, and reads it back. -/
def thereAndBack : List (Host × Call) :=
  [.mkdir ['/', 'd'], .create ['/', 'd', '/', 'a'], .write ['/', 'd', '/', 'a'] [1, 2, 3] 1,
    .flush ['/', 'd', '/', 'a'] none, .release ['/', 'd', '/', 'a'] none, .readdir ['/', 'd'],
    .getattr ['/', 'd', '/', 'a'], .read ['/', 'd', '/', 'a'] 9 0 none].map
      fun call => (Host.obliging, call)

/-- A mount on an empty cellphone behind a high speed cable. -/
theorem replies_over_the_wire_thereAndBack :
    (replies thereAndBack ((start emptyMount Host.obliging).linked
        ((⟨emptyMount.session, true⟩ : Watched 1024).plug usb2Packet)) : Except Int _ × _).1 =
      (replies thereAndBack (start emptyMount Host.obliging) : Except Int _ × _).1 ∧
      (((start emptyMount Host.obliging).linked
        ((⟨emptyMount.session, true⟩ : Watched 1024).plug usb2Packet)).run
          thereAndBack).mtp.session.device.phone.store =
        ((start emptyMount Host.obliging).run thereAndBack).mtp.session.store :=
  replies_over_the_wire (by decide) (start emptyMount Host.obliging) thereAndBack remote_obliging
    (by decide +kernel) _ (Watched.plugged_plug (by decide) (by decide) _)

end Fs

end Bsdroid
