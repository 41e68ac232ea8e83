import Bsdroid.Lib.Run
import Bsdroid.MtpSession.Pipe

/-!
# Which command an answer belongs to

`reportOf` reads the containers a device made for one command as the answer
they stand for.  An operation that starts with an empty pipe and outside a data
phase, and that succeeds, reports exactly the containers made for its own
command (`Call.attributed`).

An operation that times out leaves its answer in the pipe, and the next one
takes it: the session gives each command a transaction id and never looks at the
id of an answer.
-/

namespace Bsdroid

/-- What the caller of an operation gets to see. -/
structure Report where
  responseCode : UInt16
  responseParams : List UInt32
  data : Bytes
deriving DecidableEq, Repr

/-- The answer the containers made for one command stand for: an optional data
phase, and then a response. -/
def reportOf : List Sent → Option Report
  | [] => none
  | c :: rest =>
      match c.answer.kind with
      | .response => some ⟨c.answer.code, wordsOf c.answer.payload, []⟩
      | .data =>
          match rest with
          | [] => none
          | r :: _ =>
              if r.answer.kind = .response then
                some ⟨r.answer.code, wordsOf r.answer.payload, c.answer.payload⟩
              else none
      | _ => none

/-- A writer that appends the bytes it takes. -/
class LawfulWriter (ω : Type) extends Writer ω where
  written : ω → Bytes
  written_writeAll : ∀ {b : Bytes} {w w' : ω}, Writer.writeAll b w = (.ok (), w') →
    written w' = written w ++ b

instance : LawfulWriter Bytes where
  written b := b
  written_writeAll h := by
    cases h
    rfl

/-- A file of the host.  It may refuse a write, by what it would hold then. -/
structure Sink where
  written : Bytes
  refuses : Bytes → Option IoError

instance : LawfulWriter Sink where
  writeAll b := fun w =>
    match w.refuses (w.written ++ b) with
    | some e => (.error e, w)
    | none => (.ok (), { w with written := w.written ++ b })
  written := Sink.written
  written_writeAll {b w w'} h := by
    change (match w.refuses (w.written ++ b) with
      | some e => (Except.error e, w)
      | none => (Except.ok (), { w with written := w.written ++ b })) = (.ok (), w') at h
    split at h
    · cases h
    · cases h
      rfl

namespace Session

open Proc

section Steps

variable {ω α : Type} {step : String} {s s' : Session Pipe}

theorem besides_ok {x : Proc SessionError (Session Pipe) α} {p p' : Session Pipe × ω} {a : α}
    (h : besides x p = (.ok a, p')) : x p.1 = (.ok a, p'.1) ∧ p'.2 = p.2 := by
  rcases hx : x p.1 with ⟨r, t⟩
  have hrun : besides x p = (r, (t, p.2)) := by
    rw [besides, onPart, hx]
  rw [hrun] at h
  cases h
  exact ⟨rfl, rfl⟩

theorem writeOut_ok {τ : Type} [LawfulWriter ω] {bytes : Bytes} {p p' : Session τ × ω}
    (h : writeOut step bytes p = (.ok (), p')) :
    p'.1 = p.1 ∧ LawfulWriter.written p'.2 = LawfulWriter.written p.2 ++ bytes := by
  rcases hw : (Writer.writeAll bytes : Proc IoError ω Unit) p.2 with ⟨e | u, w⟩
  · have hrun : writeOut step bytes p = (.error (.write step e), (p.1, w)) := by
      rw [writeOut, mapError, onPart, hw]
      rfl
    rw [hrun] at h
    cases h
  · have hrun : writeOut step bytes p = (.ok (), (p.1, w)) := by
      rw [writeOut, mapError, onPart, hw]
      rfl
    rw [hrun] at h
    cases h
    exact ⟨rfl, LawfulWriter.written_writeAll hw⟩

theorem writeAll_ok {bytes : Bytes} {u : Unit} (h : writeAll step bytes s = (.ok u, s')) :
    s' = { s with device := s.device.take bytes } := by
  cases h
  rfl

/-- The end of a data phase is nothing or an empty write. -/
theorem endDataPhase_ok {total : UInt32} {u : Unit}
    (h : endDataPhase step total s = (.ok u, s')) :
    s'.device = s.device ∨ s'.device = s.device.take [] := by
  obtain ⟨t, t', hget, hrest⟩ := bind_eq_ok h
  rw [get_run, Prod.mk.injEq, Except.ok.injEq] at hget
  obtain ⟨rfl, rfl⟩ := hget
  split at hrest
  · exact .inr (congrArg Session.device (writeAll_ok hrest))
  · cases hrest
    exact .inl rfl

/-- A read that succeeds takes the first bytes of the first container. -/
theorem readOnce_ok {bytes : Bytes} (h : readOnce step s = (.ok bytes, s')) :
    ∃ w ws, s.device.waiting = w :: ws ∧ bytes = w.take bytes.length ∧
      s'.device.waiting =
        (if w.drop bytes.length = [] then ws else w.drop bytes.length :: ws) ∧
      s'.device.made = s.device.made ∧ s'.config = s.config := by
  have hrun : readOnce step s =
      (((Transport.read s.config.readBuffer s.config.timeout s.device).1.mapError
          (SessionError.usb step)),
        { s with device := (Transport.read s.config.readBuffer s.config.timeout s.device).2 }) :=
    rfl
  rw [hrun] at h
  simp only [Transport.read, Pipe.give] at h
  cases hplan : s.device.plan s.device.reads with
  | none =>
      rw [hplan] at h
      cases h
  | some n =>
      rw [hplan] at h
      cases hwaiting : s.device.waiting with
      | nil =>
          simp only [hwaiting] at h
          cases h
      | cons w ws =>
          simp only [hwaiting] at h
          cases h
          have hdrop : w.drop (w.take (min n s.config.readBuffer)).length =
              w.drop (min n s.config.readBuffer) := by
            rw [List.length_take]
            rcases Nat.le_total (min n s.config.readBuffer) w.length with hle | hle
            · rw [Nat.min_eq_left hle]
            · rw [Nat.min_eq_right hle, List.drop_length, List.drop_of_length_le hle]
          refine ⟨w, ws, rfl, ?_, ?_, rfl, rfl⟩
          · rw [List.length_take, ← List.take_eq_take_min]
          · rw [hdrop]

end Steps

/-- The host read `n` bytes of the container `c`, and put the payload bytes
among them behind `base`. -/
structure PartWay {ω : Type} [LawfulWriter ω] (c : Sent) (ws : List Bytes) (made : List Sent)
    (base : Bytes) (n : Nat) (p : Session Pipe × ω) : Prop where
  waiting : p.1.device.waiting = (if c.wire.drop n = [] then ws else c.wire.drop n :: ws)
  made : p.1.device.made = made
  written : LawfulWriter.written p.2 = base ++ (c.wire.take n).drop headerLen

section Reading

variable {ω : Type} [LawfulWriter ω] {step : String} {c : Sent} {ws : List Bytes}
  {made : List Sent} {base : Bytes}

/-- One more transfer of the data phase. -/
theorem PartWay.next {n : Nat} {p q r : Session Pipe × ω} {more : Bytes}
    (h : PartWay c ws made base n p) (hn : n < c.wire.length) (hheader : headerLen ≤ n)
    (hread : readOnce step p.1 = (.ok more, q.1)) (hq : q.2 = p.2)
    (hwrite : writeOut step more q = (.ok (), r)) :
    PartWay c ws made base (n + more.length) r := by
  have hrest : c.wire.drop n ≠ [] := by
    intro hnil
    have hlen := congrArg List.length hnil
    rw [List.length_drop, List.length_nil] at hlen
    omega
  obtain ⟨w, ws', hwaiting, hmore, hwaiting', hmade', -⟩ := readOnce_ok hread
  rw [h.waiting, if_neg hrest] at hwaiting
  obtain ⟨rfl, rfl⟩ := List.cons.inj hwaiting
  obtain ⟨hsame, hwritten⟩ := writeOut_ok hwrite
  have htake : (c.wire.take (n + more.length)).drop headerLen =
      (c.wire.take n).drop headerLen ++ more := by
    have hlen : headerLen - (c.wire.take n).length = 0 := by
      rw [List.length_take]
      omega
    rw [List.take_add, List.drop_append, hlen, List.drop_zero, ← hmore]
  refine ⟨?_, ?_, ?_⟩
  · rw [hsame, hwaiting', List.drop_drop]
  · rw [hsame, hmade', h.made]
  · rw [hwritten, hq, h.written, htake, List.append_assoc]

/-- The loop of the data phase moves along one container. -/
theorem readRest_ok {rounds : Nat} {progress progress' : Progress} {p p' : Session Pipe × ω}
    (h : PartWay c ws made base progress.haveBytes p) (hheader : headerLen ≤ progress.haveBytes)
    (hrun : readRest step c.wire.length rounds progress p = (.ok progress', p')) :
    PartWay c ws made base progress'.haveBytes p' := by
  induction rounds generalizing progress p with
  | zero =>
      cases hrun
      exact h
  | succ rounds ih =>
      rw [readRest] at hrun
      split at hrun
      · cases hrun
        exact h
      · rename_i hless
        obtain ⟨more, q, hread, hrun⟩ := bind_eq_ok hrun
        obtain ⟨hread, hq⟩ := besides_ok hread
        split at hrun
        · rename_i hempty
          cases hrun
          -- An empty transfer takes nothing from the pipe.
          rw [List.isEmpty_iff] at hempty
          subst hempty
          obtain ⟨w, ws', hwaiting, -, hwaiting', hmade', -⟩ := readOnce_ok hread
          refine ⟨?_, hmade'.trans h.made, by rw [hq]; exact h.written⟩
          have hrest : c.wire.drop progress.haveBytes ≠ [] := by
            intro hnil
            have hlen := congrArg List.length hnil
            rw [List.length_drop, List.length_nil] at hlen
            omega
          have hw := h.waiting
          rw [if_neg hrest, hwaiting] at hw
          obtain ⟨rfl, rfl⟩ := List.cons.inj hw
          rw [hwaiting', List.length_nil, List.drop_zero]
        · obtain ⟨⟨⟩, r, hwrite, hrun⟩ := bind_eq_ok hrun
          exact ih (h.next (Nat.lt_of_not_le hless) hheader hread hq hwrite)
            (Nat.le_add_right_of_le hheader) hrun

/-- **What an accepted answer is.**  The host reads the containers that wait as
one optional data phase and one response. -/
theorem readAnswer_ok {own : List Sent} {p p' : Session Pipe × ω} {o : StreamOutcome}
    (hwaiting : p.1.device.waiting = own.map Sent.wire)
    (hrun : readAnswer step p = (.ok o, p')) :
    ∃ data, LawfulWriter.written p'.2 = LawfulWriter.written p.2 ++ data ∧
      reportOf own = some ⟨o.responseCode, o.responseParams, data⟩ ∧
      p'.1.device.made = p.1.device.made := by
  obtain ⟨buf, q, hfirst, hrun⟩ := bind_eq_ok hrun
  obtain ⟨hread, hq⟩ := besides_ok hfirst
  obtain ⟨first, q', hheader, hrun⟩ := bind_eq_ok hrun
  obtain ⟨hparse, hq'⟩ := mapError_ofExcept_eq_ok hheader
  subst hq'
  obtain ⟨w, ws, hw, hbuf, hwaiting', hmade', -⟩ := readOnce_ok hread
  rw [hwaiting] at hw
  obtain ⟨c, own', rfl, rfl, rfl⟩ := List.map_eq_cons_iff.mp hw
  rw [hbuf] at hparse
  obtain ⟨rfl, hfull⟩ := Sent.header_of_take hparse
  cases hkind : c.answer.kind with
  | command =>
      simp only [hkind] at hrun
      cases hrun
  | event =>
      simp only [hkind] at hrun
      cases hrun
  | response =>
      simp only [hkind] at hrun
      obtain ⟨got, q'', hgot, hdone⟩ := bind_eq_ok hrun
      obtain ⟨hcontainer, hq''⟩ := mapError_ofExcept_eq_ok hgot
      subst hq''
      cases hdone
      rw [hbuf] at hcontainer
      obtain ⟨rfl, -⟩ := Sent.container_of_take hcontainer
      refine ⟨[], by rw [hq, List.append_nil], ?_, hmade'⟩
      simp only [reportOf, hkind]
      rfl
  | data =>
      simp only [hkind] at hrun
      split at hrun
      · cases hrun
      obtain ⟨⟨⟩, r, hwrite, hrun⟩ := bind_eq_ok hrun
      obtain ⟨held, r', hget, hrun⟩ := bind_eq_ok hrun
      rw [get_run, Prod.mk.injEq, Except.ok.injEq] at hget
      obtain ⟨rfl, rfl⟩ := hget
      obtain ⟨progress, t, hrest, hrun⟩ := bind_eq_ok hrun
      obtain ⟨hsame, hwritten⟩ := writeOut_ok hwrite
      have hstart : PartWay c (own'.map Sent.wire) p.1.device.made
          (LawfulWriter.written p.2) buf.length r := by
        refine ⟨by rw [hsame, hwaiting'], by rw [hsame, hmade'], ?_⟩
        rw [hwritten, hq, ← hbuf, Nat.min_eq_right hfull]
      rw [Sent.toNat_length] at hrest
      have hend := readRest_ok hstart hfull hrest
      split at hrun
      · cases hrun
      rename_i hcomplete
      rw [Sent.toNat_length] at hcomplete
      have hall : c.wire.length ≤ progress.haveBytes := Nat.le_of_not_lt hcomplete
      obtain ⟨last, u, hsecond, hrun⟩ := bind_eq_ok hrun
      obtain ⟨hlast, hu⟩ := besides_ok hsecond
      obtain ⟨got, u', hgot, hrun⟩ := bind_eq_ok hrun
      obtain ⟨hcontainer, hu'⟩ := mapError_ofExcept_eq_ok hgot
      subst hu'
      obtain ⟨w', ws', hw', hlastBytes, -, hmade'', -⟩ := readOnce_ok hlast
      rw [hend.waiting, List.drop_of_length_le hall, if_pos rfl] at hw'
      obtain ⟨r₂, own'', rfl, rfl, rfl⟩ := List.map_eq_cons_iff.mp hw'
      rw [hlastBytes] at hcontainer
      obtain ⟨rfl, -⟩ := Sent.container_of_take hcontainer
      split at hrun
      · cases hrun
      rename_i hresponse
      cases hrun
      refine ⟨c.answer.payload, ?_, ?_, hmade''.trans hend.made⟩
      · have hpayload : (c.wire.take progress.haveBytes).drop headerLen = c.answer.payload := by
          rw [List.take_of_length_le hall, Sent.wire, List.drop_append]
          simp [headerLen]
        rw [hu, hend.written, hpayload]
      · have hkind' : r₂.answer.kind = .response := by simpa using hresponse
        simp only [reportOf, hkind, hkind', if_true]
        rfl

end Reading

/-- No container of an earlier command waits, and the device is outside a data
phase. -/
structure Quiet (s : Session Pipe) : Prop where
  waiting : s.device.waiting = []
  awaiting : s.device.awaiting = 0

/-- The report is what the device made, between the two states, for the command
with the next transaction id of the first. -/
def Attributed (s s' : Session Pipe) (r : Report) : Prop :=
  ∃ own, s'.device.made = s.device.made ++ own ∧ (∀ c ∈ own, c.tid = s.transaction) ∧
    reportOf own = some r

section Operations

variable {step : String} {code : UInt16} {params : List UInt32}

/-- An answer read after the containers made for one command is theirs. -/
theorem attributed_of_made {ω : Type} [LawfulWriter ω] {s : Session Pipe}
    {p p' : Session Pipe × ω} {own : List Sent} {o : StreamOutcome} (hquiet : Quiet s)
    (hmade : Pipe.Made s.device p.1.device s.transaction own)
    (hrun : readAnswer step p = (.ok o, p')) :
    ∃ data, LawfulWriter.written p'.2 = LawfulWriter.written p.2 ++ data ∧
      Attributed s p'.1 ⟨o.responseCode, o.responseParams, data⟩ := by
  have hwaiting : p.1.device.waiting = own.map Sent.wire := by
    rw [hmade.waiting, hquiet.waiting, List.nil_append]
  obtain ⟨data, hwritten, hreport, hkept⟩ := readAnswer_ok hwaiting hrun
  exact ⟨data, hwritten, own, hkept.trans hmade.made, hmade.ofCommand, hreport⟩

theorem operationStream_ok {ω : Type} [LawfulWriter ω] {p p' : Session Pipe × ω}
    {o : StreamOutcome} (hquiet : Quiet p.1)
    (hrun : operationStream step code params p = (.ok o, p')) :
    ∃ data, LawfulWriter.written p'.2 = LawfulWriter.written p.2 ++ data ∧
      Attributed p.1 p'.1 ⟨o.responseCode, o.responseParams, data⟩ := by
  obtain ⟨tid, q, htid, hrun⟩ := bind_eq_ok hrun
  cases htid
  obtain ⟨u, r, hcommand, hrun⟩ := bind_eq_ok hrun
  obtain ⟨hwrite, hr⟩ := besides_ok hcommand
  have hdevice := writeAll_ok hwrite
  obtain ⟨own, hmade, -⟩ := Pipe.take_command hquiet.awaiting code p.1.transaction params
  have hmade' : Pipe.Made p.1.device r.1.device p.1.transaction own := by
    rw [hdevice]
    exact hmade
  obtain ⟨data, hwritten, hattributed⟩ := attributed_of_made hquiet hmade' hrun
  exact ⟨data, by rw [hwritten, hr], hattributed⟩

theorem collected_ok {x : Proc SessionError (Session Pipe × Bytes) StreamOutcome}
    {s s' : Session Pipe} {o : Outcome} (h : collected x s = (.ok o, s')) :
    ∃ t data, x (s, []) = (.ok t, (s', data)) ∧ o.responseCode = t.responseCode ∧
      o.responseParams = t.responseParams ∧ o.data = data := by
  unfold collected at h
  rcases hx : x (s, []) with ⟨e | t, q, data⟩
  · rw [hx] at h
    cases h
  · rw [hx] at h
    cases h
    exact ⟨t, data, rfl, rfl, rfl, rfl⟩

theorem operation_ok {s s' : Session Pipe} {o : Outcome} (hquiet : Quiet s)
    (hrun : operation step code params s = (.ok o, s')) :
    Attributed s s' ⟨o.responseCode, o.responseParams, o.data⟩ := by
  obtain ⟨t, data, hstream, hcode, hparams, hdata⟩ := collected_ok hrun
  obtain ⟨data', hwritten, hattributed⟩ := operationStream_ok hquiet hstream
  have hsame : data = data' := by simpa [LawfulWriter.written] using hwritten
  rw [hcode, hparams, hdata, hsame]
  exact hattributed

/-- A filled buffer holds the count the host asked for. -/
theorem length_readExactOrShort {want : Nat} {done got : Bytes} {reader rest : List ReadAnswer}
    (hdone : done.length ≤ want)
    (h : readExactOrShort step want done reader = (.ok got, rest)) : got.length = want := by
  induction reader generalizing done with
  | nil =>
      simp only [readExactOrShort] at h
      split at h
      · cases h
        omega
      · cases h
  | cons answer reader ih =>
      simp only [readExactOrShort] at h
      split at h
      · cases h
        omega
      cases answer with
      | bytes b =>
          simp only at h
          split at h
          · cases h
          split at h
          · cases h
            rw [List.length_append, List.length_take]
            omega
          · exact ih (by rw [List.length_append]; omega) h
      | interrupted => exact ih hdone h
      | fault e => cases h

theorem fill_ok {want : Nat} {p p' : Session Pipe × List ReadAnswer} {bytes : Bytes}
    (h : fill step want p = (.ok bytes, p')) : p'.1 = p.1 ∧ bytes.length = want := by
  unfold fill at h
  rcases hr : readExactOrShort step want [] p.2 with ⟨r, rest⟩
  rw [hr] at h
  cases h
  exact ⟨rfl, length_readExactOrShort (Nat.zero_le _) hr⟩

/-- The device is in the data phase of a command, `sent` bytes into it. -/
structure Sending (before : Pipe) (tid : UInt32) (size sent : Nat) (p : Pipe) : Prop where
  made : ∃ own, Pipe.Made before p tid own
  awaiting : p.awaiting = size - sent

theorem sendRest_ok {before : Pipe} {tid : UInt32} {chunk size rounds sent sent' : Nat}
    {p p' : Session Pipe × List ReadAnswer} (h : Sending before tid size sent p.1.device)
    (hrun : sendRest step chunk size rounds sent p = (.ok sent', p')) :
    Sending before tid size sent' p'.1.device := by
  induction rounds generalizing sent p with
  | zero =>
      cases hrun
      exact h
  | succ rounds ih =>
      rw [sendRest] at hrun
      split at hrun
      · cases hrun
        exact h
      · rename_i hmore
        obtain ⟨bytes, q, hfill, hrun⟩ := bind_eq_ok hrun
        obtain ⟨hq, hlength⟩ := fill_ok hfill
        obtain ⟨u, r, hchunk, hrun⟩ := bind_eq_ok hrun
        obtain ⟨hwrite, -⟩ := besides_ok hchunk
        have hdevice := writeAll_ok hwrite
        have hopen : 0 < p.1.device.awaiting := by
          rw [h.awaiting]
          omega
        have henter := Pipe.enter_payload hopen bytes
        obtain ⟨own, hmade⟩ := h.made
        refine ih ⟨?_, ?_⟩ hrun
        · rw [hdevice, hq]
          exact hmade.take ⟨_, henter⟩
        · rw [hdevice, hq]
          change (p.1.device.take bytes).awaiting = _
          rw [Pipe.take_awaiting, henter, h.awaiting, hlength]
          simp only
          omega

theorem operationSending_ok {size : Nat} {p p' : Session Pipe × List ReadAnswer}
    {o : Outcome} (hquiet : Quiet p.1)
    (hrun : operationSending step code params size p = (.ok o, p')) :
    Attributed p.1 p'.1 ⟨o.responseCode, o.responseParams, o.data⟩ := by
  obtain ⟨total, q, htotal, hrun⟩ := bind_eq_ok hrun
  obtain ⟨-, hq⟩ := mapError_ofExcept_eq_ok htotal
  subst hq
  obtain ⟨tid, q, htid, hrun⟩ := bind_eq_ok hrun
  cases htid
  obtain ⟨u, r, hcommand, hrun⟩ := bind_eq_ok hrun
  obtain ⟨hwrite, -⟩ := besides_ok hcommand
  have hdevice := writeAll_ok hwrite
  obtain ⟨own, hmade, hclosed⟩ :=
    Pipe.take_command hquiet.awaiting code p.1.transaction params
  obtain ⟨held, r', hget, hrun⟩ := bind_eq_ok hrun
  rw [get_run, Prod.mk.injEq, Except.ok.injEq] at hget
  obtain ⟨rfl, rfl⟩ := hget
  obtain ⟨first, r', hfirst, hrun⟩ := bind_eq_ok hrun
  obtain ⟨hheader, hr'⟩ := mapError_ofExcept_eq_ok hfirst
  subst hr'
  obtain ⟨bytes, t, hfill, hrun⟩ := bind_eq_ok hrun
  obtain ⟨ht, hlength⟩ := fill_ok hfill
  obtain ⟨u', t', hdata, hrun⟩ := bind_eq_ok hrun
  obtain ⟨hwrite', -⟩ := besides_ok hdata
  have hdevice' := writeAll_ok hwrite'
  have hafter : t.1.device = p.1.device.take (buildCommand code p.1.transaction params) := by
    rw [ht, hdevice]
    rfl
  have hopen : t.1.device.awaiting = 0 := by
    rw [hafter]
    exact hclosed
  have henter := Pipe.enter_data bytes hopen hheader
  have hsending : Sending p.1.device p.1.transaction size bytes.length t'.1.device := by
    refine ⟨?_, ?_⟩
    · rw [hdevice']
      exact Pipe.Made.take (hafter ▸ hmade) ⟨_, henter⟩
    · rw [hdevice']
      change (t.1.device.take (first ++ bytes)).awaiting = _
      rw [Pipe.take_awaiting, henter]
  obtain ⟨sent, v, hrest, hrun⟩ := bind_eq_ok hrun
  rw [← hlength] at hrest
  have hsent := sendRest_ok hsending hrest
  split at hrun
  · cases hrun
  rename_i hall
  have hdone : v.1.device.awaiting = 0 := by
    rw [hsent.awaiting]
    omega
  obtain ⟨u'', w, hzero, hrun⟩ := bind_eq_ok hrun
  obtain ⟨hanswer, -⟩ := besides_ok hrun
  obtain ⟨hempty, -⟩ := besides_ok hzero
  have hend : ∃ own, Pipe.Made p.1.device w.1.device p.1.transaction own := by
    obtain ⟨own, hmade⟩ := hsent.made
    rcases endDataPhase_ok hempty with hsame | hsame
    · exact ⟨own, hsame ▸ hmade⟩
    · rw [hsame]
      exact hmade.take ⟨0, Pipe.enter_nil hdone⟩
  obtain ⟨own', hmade'⟩ := hend
  obtain ⟨answer, data, hread, hcode, hparams, hbytes⟩ := collected_ok hanswer
  obtain ⟨data', hwritten, hattributed⟩ := attributed_of_made (p := (w.1, [])) hquiet hmade' hread
  have hsame : data = data' := by simpa [LawfulWriter.written] using hwritten
  rw [hcode, hparams, hbytes, hsame]
  exact hattributed

theorem operationWithData_ok {payload : Bytes} {s s' : Session Pipe} {o : Outcome}
    (hquiet : Quiet s) (hrun : operationWithData step code params payload s = (.ok o, s')) :
    Attributed s s' ⟨o.responseCode, o.responseParams, o.data⟩ := by
  unfold operationWithData at hrun
  rcases hx : operationSending step code params payload.length (s, [.bytes payload]) with
    ⟨r, t, rest⟩
  rw [hx] at hrun
  cases hrun
  exact operationSending_ok (p := (s, _)) hquiet hx

end Operations

end Session

/-! ## Runs -/

/-- One use of a session. -/
inductive Call where
  | operation (step : String) (code : UInt16) (params : List UInt32)
  | stream (step : String) (code : UInt16) (params : List UInt32)
      (refuses : Bytes → Option IoError)
  | withData (step : String) (code : UInt16) (params : List UInt32) (payload : Bytes)
  | sending (step : String) (code : UInt16) (params : List UInt32) (size : Nat)
      (reader : List ReadAnswer)

namespace Call

/-- The report of an outcome. -/
def report (o : Outcome) : Report := ⟨o.responseCode, o.responseParams, o.data⟩

/-- Does one call.  A streamed answer starts an empty file. -/
def run : Call → Session Pipe → Except SessionError Report × Session Pipe
  | operation step code params, s =>
      let r := Session.operation step code params s
      (r.1.map report, r.2)
  | stream step code params refuses, s =>
      let r := Session.operationStream step code params (s, (⟨[], refuses⟩ : Sink))
      (r.1.map fun o => ⟨o.responseCode, o.responseParams, r.2.2.written⟩, r.2.1)
  | withData step code params payload, s =>
      let r := Session.operationWithData step code params payload s
      (r.1.map report, r.2)
  | sending step code params size reader, s =>
      let r := Session.operationSending step code params size (s, reader)
      (r.1.map report, r.2.1)

/-- The state a call leads to. -/
def next (s : Session Pipe) (c : Call) : Session Pipe := (c.run s).2

theorem map_ok {E α β : Type} {x : Except E α} {f : α → β} {b : β} (h : x.map f = .ok b) :
    ∃ a, x = .ok a ∧ f a = b := by
  cases x with
  | error e => cases h
  | ok a =>
      cases h
      exact ⟨a, rfl, rfl⟩

/-- **One call.**  From an empty pipe, what a call accepts is its own. -/
theorem attributed {c : Call} {s : Session Pipe} {r : Report} (hquiet : s.Quiet)
    (h : (c.run s).1 = .ok r) : s.Attributed (c.next s) r := by
  cases c with
  | operation step code params =>
      obtain ⟨o, ho, rfl⟩ := map_ok h
      exact Session.operation_ok hquiet (Prod.ext ho rfl)
  | stream step code params refuses =>
      obtain ⟨o, ho, rfl⟩ := map_ok h
      obtain ⟨data, hwritten, hattributed⟩ := Session.operationStream_ok
        (p := (s, (⟨[], refuses⟩ : Sink))) hquiet (Prod.ext ho rfl)
      have hsame : (Session.operationStream step code params
          (s, (⟨[], refuses⟩ : Sink))).2.2.written = data := by
        simpa [LawfulWriter.written] using hwritten
      rw [hsame]
      exact hattributed
  | withData step code params payload =>
      obtain ⟨o, ho, rfl⟩ := map_ok h
      exact Session.operationWithData_ok hquiet (Prod.ext ho rfl)
  | sending step code params size reader =>
      obtain ⟨o, ho, rfl⟩ := map_ok h
      exact Session.operationSending_ok (p := (s, reader)) hquiet (Prod.ext ho rfl)

end Call

/-- In every run of calls, each answer a call accepts is the one the device made
for the command of that call. -/
def EveryAnswerBelongs (s : Session Pipe) (calls : List Call) : Prop :=
  ∀ before c rest r, calls = before ++ c :: rest →
    (c.run (Run.after Call.next s before)).1 = .ok r →
    (Run.after Call.next s before).Attributed
      (Call.next (Run.after Call.next s before) c) r

/-- **Attribution.**  In a run whose calls each start with an empty pipe and
outside a data phase, every accepted answer belongs to the call that asked for
it. -/
theorem every_answer_belongs_of_quiet (s : Session Pipe) (calls : List Call)
    (hquiet : Run.Meets Call.next (fun s _ => s.Quiet) s calls) :
    EveryAnswerBelongs s calls := by
  rintro before c rest r rfl hok
  obtain ⟨-, hstart, -⟩ := Run.Meets.append.mp hquiet
  exact Call.attributed hstart hok

/-- A device that does the first delete and refuses the second, over a pipe
whose first read passes its deadline. -/
def latePipe : Pipe where
  behave history :=
    [⟨.response, if history.length = 1 then Resp.ok else Resp.invalidObjectHandle, [], Nat.zero_le _⟩]
  plan n := if n = 0 then none else some 512
  history := []
  reads := 0
  command := none
  awaiting := 0
  waiting := []
  made := []

/-- A session that deletes two objects. -/
def lateDeletes : List Call :=
  [.operation "DeleteObject" Op.deleteObject [1, 0],
   .operation "DeleteObject" Op.deleteObject [2, 0]]

/-- The first delete times out, and the second takes its answer: the device
refused the second delete, and the host reports a success. -/
theorem late_answer_misattributed :
    ¬ EveryAnswerBelongs (Session.newWithoutRecovery latePipe Config.default) lateDeletes := by
  intro h
  obtain ⟨own, hmade, -, hreport⟩ := h [.operation "DeleteObject" Op.deleteObject [1, 0]]
    (.operation "DeleteObject" Op.deleteObject [2, 0]) [] ⟨Resp.ok, [], []⟩ rfl rfl
  have hboth : [⟨0, ⟨.response, Resp.ok, [], Nat.zero_le _⟩⟩,
      ⟨1, ⟨.response, Resp.invalidObjectHandle, [], Nat.zero_le _⟩⟩] =
        [⟨0, ⟨.response, Resp.ok, [], Nat.zero_le _⟩⟩] ++ own := hmade
  obtain ⟨-, rfl⟩ := List.cons.inj hboth
  cases hreport

/-- The same device and the same deletes, over a pipe whose reads all work. -/
theorem every_answer_belongs_of_quiet_deletes :
    EveryAnswerBelongs
      (Session.newWithoutRecovery { latePipe with plan := fun _ => some 512 } Config.default)
      lateDeletes :=
  every_answer_belongs_of_quiet _ _ ⟨⟨rfl, rfl⟩, ⟨rfl, rfl⟩, trivial⟩

end Bsdroid
