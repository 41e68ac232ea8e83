import Bsdroid.Lib.Run
import Bsdroid.MtpSession.Session

/-!
# Closing what was opened

The session keeps a flag of what it opened, and the drop of the session looks at the flag
alone.  The flag follows the answers.  A device that executed an `OpenSession` holds a session
also when the answer was lost, and then nothing closes it.  `Session.drop_closes` says what
keeps the flag above the state of the device.
-/

namespace Bsdroid

/-- Who opened the session a device holds. -/
inductive Opener where
  | earlier
  | here
deriving DecidableEq, Repr

/-- What becomes of one read.  The answer of a read that fails can be lost, or wait for the
next read. -/
inductive ReadFate where
  | works
  | fails (e : UsbError) (lost : Bool)
deriving DecidableEq, Repr

/-- A device that executes every command it receives.  `answers` gives what it sends for the
commands that neither open nor close a session, by all that the host wrote. -/
structure Keeper where
  held : Option Opener
  waiting : List Bytes
  fate : Nat → ReadFate
  reads : Nat
  answers : List Bytes → List Bytes
  wrote : List Bytes

namespace Keeper

/-- A response without parameters. -/
def response (code : UInt16) (tid : UInt32) : Bytes := pushHeader 12 .response code tid

/-- The device executes a command. -/
def hear (bytes : Bytes) (d : Keeper) : Keeper :=
  let wrote := d.wrote ++ [bytes]
  match Header.parse bytes with
  | .error _ => { d with wrote := wrote }
  | .ok h =>
      if h.code = Op.openSession then
        match d.held with
        | none => {
            d with
            wrote := wrote
            held := some .here
            waiting := d.waiting ++ [response Resp.ok h.transactionId] }
        | some _ => {
            d with
            wrote := wrote
            waiting := d.waiting ++ [response Resp.sessionAlreadyOpen h.transactionId] }
      else if h.code = Op.closeSession then
        match d.held with
        | some _ => {
            d with
            wrote := wrote
            held := none
            waiting := d.waiting ++ [response Resp.ok h.transactionId] }
        | none => {
            d with
            wrote := wrote
            waiting := d.waiting ++ [response Resp.sessionNotOpen h.transactionId] }
      else { d with wrote := wrote, waiting := d.waiting ++ d.answers wrote }

/-- The next read. -/
def give (capacity : Nat) (d : Keeper) : Except UsbError Bytes × Keeper :=
  let next := { d with reads := d.reads + 1 }
  match d.fate d.reads with
  | .fails e lost => (.error e, { next with waiting := if lost then d.waiting.tail else d.waiting })
  | .works =>
      match d.waiting with
      | [] => (.error (.transfer 0x81 .timedOut), next)
      | t :: rest => (.ok (t.take capacity), {
          next with
          waiting := if t.length ≤ capacity then rest else t.drop capacity :: rest })

instance : Transport Keeper where
  write bytes _ := fun d => (.ok bytes.length, d.hear bytes)
  read capacity _ := give capacity
  clearStalls d := d

end Keeper

namespace Session

open Proc

variable {s t u : Session Keeper} {step : String} {code : UInt16} {params : List UInt32}
  {id : UInt32}

/-! ## Reading changes what waits -/

/-- Between two states the host only read. -/
structure OnlyRead (s t : Session Keeper) : Prop where
  held : t.device.held = s.device.held
  fate : t.device.fate = s.device.fate
  wrote : t.device.wrote = s.device.wrote
  config : t.config = s.config
  sessionOpen : t.sessionOpen = s.sessionOpen

theorem OnlyRead.refl (s : Session Keeper) : OnlyRead s s := ⟨rfl, rfl, rfl, rfl, rfl⟩

theorem OnlyRead.trans (h : OnlyRead s t) (h' : OnlyRead t u) : OnlyRead s u :=
  ⟨h'.held.trans h.held, h'.fate.trans h.fate, h'.wrote.trans h.wrote,
    h'.config.trans h.config, h'.sessionOpen.trans h.sessionOpen⟩

theorem give_onlyRead (s : Session Keeper) (capacity : Nat) :
    OnlyRead s { s with device := (s.device.give capacity).2 } := by
  unfold Keeper.give
  dsimp only
  split
  · exact ⟨rfl, rfl, rfl, rfl, rfl⟩
  · split <;> exact ⟨rfl, rfl, rfl, rfl, rfl⟩

theorem readAnswer_onlyRead {ω : Type} [Writer ω] (p : Session Keeper × ω) :
    OnlyRead p.1 (readAnswer step p).2.1 := by
  have hsteps := @readAnswer_steps Keeper _ ω _ step (fun p q => OnlyRead p.1 q.1)
    (fun p => .refl p.1) (fun h h' => h.trans h') (fun p => give_onlyRead p.1 _)
    (fun bytes p => .refl p.1)
  exact hsteps p

theorem drainFrom_onlyRead (s : Session Keeper) (capacity rounds deadline dropped : Nat) :
    OnlyRead s { s with device := (drainFrom capacity rounds deadline dropped s.device).2 } := by
  induction rounds generalizing s deadline dropped with
  | zero => exact .refl s
  | succ rounds ih =>
      have hgive := give_onlyRead s capacity
      rw [drainFrom]
      rcases hread : (Transport.read capacity deadline : Proc UsbError Keeper Bytes) s.device with
        ⟨e | bytes, d⟩
      · have hd : (s.device.give capacity).2 = d := congrArg Prod.snd hread
        rw [hd] at hgive
        exact hgive
      · have hd : (s.device.give capacity).2 = d := congrArg Prod.snd hread
        rw [hd] at hgive
        dsimp only
        split
        · exact hgive
        · exact hgive.trans (ih { s with device := d } _ _)

theorem recover_onlyRead (s : Session Keeper) : OnlyRead s (recover s).2 :=
  drainFrom_onlyRead s _ _ _ _

/-! ## A command -/

/-- The session once the device heard a command. -/
def told (s : Session Keeper) (code : UInt16) (params : List UInt32) : Session Keeper :=
  { s with
    device := s.device.hear (buildCommand code s.transaction params)
    transaction := s.transaction + 1 }

theorem operation_eq (s : Session Keeper) : operation step code params s =
    collected (readAnswer step) (s.told code params) := rfl

theorem operation_onlyRead (s : Session Keeper) (step : String) (code : UInt16)
    (params : List UInt32) :
    OnlyRead (s.told code params) (operation step code params s).2 := by
  have hread := @readAnswer_onlyRead step Bytes _ (s.told code params, [])
  rw [operation_eq, collected]
  rcases hrun : readAnswer step (s.told code params, ([] : Bytes)) with ⟨e | o, t, data⟩
  · rw [hrun] at hread
    exact hread
  · rw [hrun] at hread
    exact hread

theorem hear_command (tid : UInt32) (d : Keeper) : d.hear (buildCommand code tid params) =
    let wrote := d.wrote ++ [buildCommand code tid params]
    if code = Op.openSession then
      match d.held with
      | none => {
          d with
          wrote := wrote
          held := some .here
          waiting := d.waiting ++ [Keeper.response Resp.ok tid] }
      | some _ => {
          d with
          wrote := wrote
          waiting := d.waiting ++ [Keeper.response Resp.sessionAlreadyOpen tid] }
    else if code = Op.closeSession then
      match d.held with
      | some _ => {
          d with
          wrote := wrote
          held := none
          waiting := d.waiting ++ [Keeper.response Resp.ok tid] }
      | none => {
          d with
          wrote := wrote
          waiting := d.waiting ++ [Keeper.response Resp.sessionNotOpen tid] }
    else { d with wrote := wrote, waiting := d.waiting ++ d.answers wrote } := by
  rw [Keeper.hear, buildCommand, Header.parse_pushHeader]

/-- What a command leaves of the session but for what the device holds. -/
theorem told_keeps (s : Session Keeper) (code : UInt16) (params : List UInt32) :
    (s.told code params).device.wrote =
        s.device.wrote ++ [buildCommand code s.transaction params] ∧
      (s.told code params).device.fate = s.device.fate ∧
      (s.told code params).device.reads = s.device.reads := by
  rw [told, hear_command]
  dsimp only
  split
  · split <;> exact ⟨rfl, rfl, rfl⟩
  · split
    · split <;> exact ⟨rfl, rfl, rfl⟩
    · exact ⟨rfl, rfl, rfl⟩

/-- A device that holds a session does not open another one. -/
theorem told_held (hheld : s.device.held ≠ none) (hcode : code ≠ Op.closeSession) :
    (s.told code params).device.held = s.device.held := by
  rw [told, hear_command]
  dsimp only
  by_cases hopen : code = Op.openSession
  · rw [if_pos hopen]
    split
    · contradiction
    · rfl
  · rw [if_neg hopen, if_neg hcode]

/-- Only `OpenSession` opens a session. -/
theorem told_here (hcode : code ≠ Op.openSession)
    (hhere : (s.told code params).device.held = some .here) : s.device.held = some .here := by
  rw [told, hear_command] at hhere
  dsimp only at hhere
  rw [if_neg hcode] at hhere
  split at hhere
  · split at hhere
    · cases hhere
    · exact hhere
  · exact hhere

/-- After `CloseSession` no session is open. -/
theorem told_closed (s : Session Keeper) : (s.told Op.closeSession []).device.held = none := by
  rw [told, hear_command]
  dsimp only
  rw [if_neg (by decide), if_pos rfl]
  split
  · rfl
  · assumption

theorem parse_response (r : UInt16) (tid : UInt32) :
    Header.parse (Keeper.response r tid) = .ok ⟨12, .response, r, tid⟩ ∧
      Container.parse (Keeper.response r tid) = .ok ⟨12, .response, r, tid, []⟩ := by
  have hheader := Header.parse_pushHeader 12 .response r tid []
  have hparse := Container.parse_build (show build .response r tid [] = .ok _ from rfl) []
  simp only [List.append_nil] at hheader hparse
  exact ⟨hheader, hparse⟩

/-- An answer the host reads, when it is the only one that waits. -/
theorem operation_answered {r : UInt16} {tid : UInt32}
    (hwaiting : (s.told code params).device.waiting = [Keeper.response r tid])
    (hworks : s.device.fate s.device.reads = .works)
    (hbuffer : readBufferMin ≤ s.config.readBuffer) :
    operation step code params s = (.ok ⟨r, [], [], 1⟩, {
      s.told code params with
      device := {
        (s.told code params).device with
        reads := s.device.reads + 1
        waiting := [] } }) := by
  obtain ⟨-, hfate, hreads⟩ := told_keeps s code params
  have hlength : (Keeper.response r tid).length ≤ s.config.readBuffer := by
    rw [Keeper.response, length_pushHeader]
    unfold readBufferMin at hbuffer
    omega
  have hgive : (s.told code params).device.give s.config.readBuffer =
      (.ok (Keeper.response r tid), {
        (s.told code params).device with
        reads := s.device.reads + 1
        waiting := [] }) := by
    rw [Keeper.give, hfate, hreads, hworks, hwaiting]
    dsimp only
    rw [List.take_of_length_le hlength, if_pos hlength, hfate]
  have hread : (besides (readOnce step) : Proc SessionError (Session Keeper × Bytes) Bytes)
      (s.told code params, []) = (.ok (Keeper.response r tid), ({
        s.told code params with
        device := {
          (s.told code params).device with
          reads := s.device.reads + 1
          waiting := [] } }, [])) := by
    have hrun : (besides (readOnce step) : Proc SessionError (Session Keeper × Bytes) Bytes)
        (s.told code params, []) =
          (((s.told code params).device.give s.config.readBuffer).1.mapError (.usb step), ({
            s.told code params with
            device := ((s.told code params).device.give s.config.readBuffer).2 }, [])) := rfl
    rw [hrun, hgive]
    rfl
  obtain ⟨hheader, hparse⟩ := parse_response r tid
  rw [operation_eq, collected, readAnswer, bind_ok hread, hheader,
    bind_ok (mapError_ofExcept_ok _ _ _)]
  dsimp only
  rw [hparse, bind_ok (mapError_ofExcept_ok _ _ _)]
  rfl

/-! ## Runs -/

/-- The calls of a program on its session. -/
inductive SessionCall where
  | openSession (id : UInt32)
  | closeSession
  | openSessionOrRepair (id : UInt32)
  | operation (step : String) (code : UInt16) (params : List UInt32)

/-- The session after a call. -/
def callStep (s : Session Keeper) : SessionCall → Session Keeper
  | .openSession id => (openSession id s).2
  | .closeSession => (closeSession s).2
  | .openSessionOrRepair id => (openSessionOrRepair id s).2
  | .operation step code params => (operation step code params s).2

/-- The read that is so many reads away works. -/
def Reads (s : Session Keeper) (n : Nat) : Prop :=
  s.device.fate (s.device.reads + n) = .works

/-- The session learns of what an `OpenSession` opens: a session is open before, or nothing
waits and the answer is read.  A repair closes before it opens again, so there the answer to
the second `OpenSession`, three reads on, is read when the first two answers are. -/
def Learns (s : Session Keeper) : SessionCall → Prop
  | .openSession _ =>
      s.sessionOpen = true ∨ s.device.held ≠ none ∨ (s.device.waiting = [] ∧ Reads s 0)
  | .closeSession => True
  | .openSessionOrRepair _ =>
      s.device.waiting = [] ∧
        (s.device.held = none → s.sessionOpen = true ∨ Reads s 0) ∧
        (s.device.held ≠ none → Reads s 0 → Reads s 1 → Reads s 3)
  | .operation _ code _ =>
      code = Op.openSession → s.sessionOpen = true ∨ s.device.held ≠ none

/-- The flag says at least what the device holds. -/
structure Flagged (s : Session Keeper) : Prop where
  flag : s.device.held = some .here → s.sessionOpen = true
  buffer : readBufferMin ≤ s.config.readBuffer

/-- The drop of the session closes what the session opened. -/
def ClosesOwn (s : Session Keeper) : Prop :=
  s.device.held = some .here →
    (drop s).device.wrote = s.device.wrote ++ [buildCommand Op.closeSession s.transaction []]

/-! ### Opening and closing -/

/-- Opening sets the flag or leaves it. -/
theorem openSession_state (s : Session Keeper) (id : UInt32) :
    (openSession id s).2 = (operation "OpenSession" Op.openSession [id] s).2 ∨
      (openSession id s).2 =
        { (operation "OpenSession" Op.openSession [id] s).2 with sessionOpen := true } := by
  rw [openSession, bind_run]
  rcases operation "OpenSession" Op.openSession [id] s with ⟨e | out, t⟩
  · exact .inl rfl
  · dsimp only
    by_cases hopened : out.isOk = true ∨ out.responseCode = Resp.sessionAlreadyOpen
    · rw [if_pos hopened]
      exact .inr rfl
    · rw [if_neg hopened]
      exact .inl rfl

theorem openSession_keeps_flag (hflag : s.sessionOpen = true) :
    (openSession id s).2.sessionOpen = true := by
  have hread := operation_onlyRead s "OpenSession" Op.openSession [id]
  rcases openSession_state s id with hsame | hset
  · rw [hsame, hread.sessionOpen]
    exact hflag
  · rw [hset]

theorem openSession_device (s : Session Keeper) (id : UInt32) :
    (openSession id s).2.device.held = (s.told Op.openSession [id]).device.held ∧
      (openSession id s).2.config = s.config := by
  have hread := operation_onlyRead s "OpenSession" Op.openSession [id]
  rcases openSession_state s id with hsame | hset
  · rw [hsame]
    exact ⟨hread.held, hread.config⟩
  · rw [hset]
    exact ⟨hread.held, hread.config⟩

/-- What `OpenSession` gives when its answer is read. -/
theorem openSession_reads (hbuffer : readBufferMin ≤ s.config.readBuffer)
    (hwaiting : s.device.waiting = []) (hreads : Reads s 0) :
    openSession id s = (.ok ⟨if s.device.held = none then Resp.ok else Resp.sessionAlreadyOpen,
      [], [], 1⟩, {
        s.told Op.openSession [id] with
        device := {
          (s.told Op.openSession [id]).device with
          reads := s.device.reads + 1
          waiting := [] }
        sessionOpen := true }) := by
  have hanswer : (s.told Op.openSession [id]).device.waiting =
      [Keeper.response (if s.device.held = none then Resp.ok else Resp.sessionAlreadyOpen)
        s.transaction] := by
    rw [told, hear_command]
    dsimp only
    rw [if_pos rfl]
    split
    · rename_i hheld
      rw [if_pos hheld, hwaiting]
      rfl
    · rename_i hheld
      rw [if_neg (by rw [hheld]; exact nofun), hwaiting]
      rfl
  rw [openSession, bind_ok (operation_answered hanswer hreads hbuffer)]
  by_cases hheld : s.device.held = none
  · rw [if_pos hheld]
    rfl
  · rw [if_neg hheld]
    rfl

/-- What `CloseSession` gives when its answer is read. -/
theorem closeSession_reads (hbuffer : readBufferMin ≤ s.config.readBuffer)
    (hwaiting : s.device.waiting = []) (hreads : Reads s 0) (hheld : s.device.held ≠ none) :
    closeSession s = (.ok ⟨Resp.ok, [], [], 1⟩, {
        s.told Op.closeSession [] with
        device := {
          (s.told Op.closeSession []).device with
          reads := s.device.reads + 1
          waiting := [] }
        sessionOpen := false }) := by
  have hanswer : (s.told Op.closeSession []).device.waiting =
      [Keeper.response Resp.ok s.transaction] := by
    rw [told, hear_command]
    dsimp only
    rw [if_neg (by decide), if_pos rfl]
    split
    · rw [hwaiting]
      rfl
    · contradiction
  rw [closeSession, bind_ok (operation_answered hanswer hreads hbuffer)]
  rfl

/-- An operation whose first read fails. -/
theorem operation_unread {e : UsbError} {lost : Bool}
    (hfails : s.device.fate s.device.reads = .fails e lost) :
    ∃ t, operation step code params s = (.error (.usb step e), t) ∧
      t.sessionOpen = s.sessionOpen := by
  obtain ⟨-, hfate, hreads⟩ := told_keeps s code params
  have hgive : ((s.told code params).device.give s.config.readBuffer).1 = .error e := by
    rw [Keeper.give, hfate, hreads, hfails]
  have hread : (besides (readOnce step) : Proc SessionError (Session Keeper × Bytes) Bytes)
      (s.told code params, []) = (.error (.usb step e), ({
        s.told code params with
        device := ((s.told code params).device.give s.config.readBuffer).2 }, [])) := by
    have hrun : (besides (readOnce step) : Proc SessionError (Session Keeper × Bytes) Bytes)
        (s.told code params, []) =
          (((s.told code params).device.give s.config.readBuffer).1.mapError (.usb step), ({
            s.told code params with
            device := ((s.told code params).device.give s.config.readBuffer).2 }, [])) := rfl
    rw [hrun, hgive]
    rfl
  refine ⟨{
    s.told code params with
    device := ((s.told code params).device.give s.config.readBuffer).2 }, ?_, rfl⟩
  rw [operation_eq, collected, readAnswer, bind_error hread]

theorem not_reads {n : Nat} (h : ¬ Reads s n) :
    ∃ e lost, s.device.fate (s.device.reads + n) = .fails e lost := by
  rw [Reads] at h
  rcases hfate : s.device.fate (s.device.reads + n) with _ | ⟨e, lost⟩
  · contradiction
  · exact ⟨e, lost, rfl⟩

/-- Where nothing waits, a recovery is one read that gives nothing. -/
theorem recover_empty (hwaiting : s.device.waiting = []) :
    (recover s).2 = { s with device := { s.device with reads := s.device.reads + 1 } } := by
  have hgive : ∃ e, s.device.give s.config.readBuffer =
      (.error e, { s.device with reads := s.device.reads + 1 }) := by
    rw [Keeper.give]
    rcases hfate : s.device.fate s.device.reads with _ | ⟨e, lost⟩
    · dsimp only
      rw [hwaiting]
      exact ⟨_, rfl⟩
    · refine ⟨e, ?_⟩
      dsimp only
      rw [hwaiting]
      cases lost <;> rfl
  obtain ⟨e, hgive⟩ := hgive
  obtain ⟨rounds, hrounds⟩ : ∃ n, maxReadRounds = n + 1 :=
    Nat.exists_eq_add_one_of_ne_zero (by decide)
  have hread : (Transport.read s.config.readBuffer drainFirstMillis :
      Proc UsbError Keeper Bytes) s.device =
        (.error e, { s.device with reads := s.device.reads + 1 }) := hgive
  have hdrain : drainFrom s.config.readBuffer maxReadRounds drainFirstMillis 0 s.device =
      (0, { s.device with reads := s.device.reads + 1 }) := by
    rw [hrounds, drainFrom, hread]
  show { s with device := (drainFrom s.config.readBuffer maxReadRounds drainFirstMillis 0
    s.device).2 } = _
  rw [hdrain]

/-! ### The flag follows -/

theorem openSession_flagged (h : Flagged s) (hlearns : Learns s (.openSession id)) :
    Flagged (openSession id s).2 := by
  obtain ⟨hheld, hconfig⟩ := openSession_device s id
  refine ⟨fun hhere => ?_, by rw [hconfig]; exact h.buffer⟩
  rcases hlearns with hflag | hsome | ⟨hwaiting, hreads⟩
  · exact openSession_keeps_flag hflag
  · rw [hheld, told_held hsome (by decide)] at hhere
    exact openSession_keeps_flag (h.flag hhere)
  · rw [openSession_reads h.buffer hwaiting hreads]

/-- Closing clears the flag or leaves it. -/
theorem closeSession_state (s : Session Keeper) :
    (closeSession s).2 = (operation "CloseSession" Op.closeSession [] s).2 ∨
      (closeSession s).2 =
        { (operation "CloseSession" Op.closeSession [] s).2 with sessionOpen := false } := by
  rw [closeSession, bind_run]
  rcases operation "CloseSession" Op.closeSession [] s with ⟨e | out, t⟩
  · exact .inl rfl
  · dsimp only
    by_cases hok : out.isOk = true
    · rw [if_pos hok]
      exact .inr rfl
    · rw [if_neg hok]
      exact .inl rfl

theorem closeSession_device (s : Session Keeper) :
    (closeSession s).2.device = (operation "CloseSession" Op.closeSession [] s).2.device := by
  rcases closeSession_state s with hsame | hcleared
  · rw [hsame]
  · rw [hcleared]

theorem closeSession_config (s : Session Keeper) :
    (closeSession s).2.config = (operation "CloseSession" Op.closeSession [] s).2.config := by
  rcases closeSession_state s with hsame | hcleared
  · rw [hsame]
  · rw [hcleared]

theorem closeSession_flagged (h : Flagged s) : Flagged (closeSession s).2 := by
  have hread := operation_onlyRead s "CloseSession" Op.closeSession []
  refine ⟨fun hhere => ?_, ?_⟩
  · rw [closeSession_device, hread.held, told_closed] at hhere
    cases hhere
  · rw [closeSession_config, hread.config]
    exact h.buffer

theorem operation_flagged (h : Flagged s) (hlearns : Learns s (.operation step code params)) :
    Flagged (operation step code params s).2 := by
  have hread := operation_onlyRead s step code params
  refine ⟨fun hhere => ?_, by rw [hread.config]; exact h.buffer⟩
  rw [hread.held] at hhere
  rw [hread.sessionOpen]
  by_cases hcode : code = Op.openSession
  · rcases hlearns hcode with hflag | hsome
    · exact hflag
    · rw [told_held hsome (by rw [hcode]; decide)] at hhere
      exact h.flag hhere
  · exact h.flag (told_here hcode hhere)

/-! ### The repair -/

/-- A repair that opens at once, or fails at once, is one call of `OpenSession`. -/
theorem repair_once (hfirst : ∀ out t, openSession id s = (.ok out, t) →
    out.responseCode ≠ Resp.sessionAlreadyOpen) :
    (openSessionOrRepair id s).2 = (openSession id s).2 := by
  rw [openSessionOrRepair, bind_run]
  rcases hrun : openSession id s with ⟨e | out, t⟩
  · rfl
  · dsimp only
    rw [if_pos (hfirst out t hrun)]
    rfl

/-- A repair that finds a session closes it, recovers, and opens another one. -/
theorem repair_twice {out : Outcome} (hfirst : openSession id s = (.ok out, t))
    (halready : out.responseCode = Resp.sessionAlreadyOpen) :
    (openSessionOrRepair id s).2 =
      (openSession id (recover (closeSession t).2).2).2 := by
  rw [openSessionOrRepair, bind_ok hfirst, if_neg (not_not_intro halready)]
  exact bind_pure_state (openSession id) _ (recover (closeSession t).2).2

/-- The second `OpenSession` of a repair. -/
theorem second_flagged (hbuffer : readBufferMin ≤ t.config.readBuffer)
    (hwaiting : t.device.waiting = []) (hheld : t.device.held ≠ none)
    (hflag : t.sessionOpen = true) (hlearns : Reads t 0 → Reads t 2) :
    Flagged (openSession id (recover (closeSession t).2).2).2 := by
  by_cases hreads : Reads t 0
  · -- The close cleared the flag, so the answer to the second one has to be read.
    obtain ⟨-, hfate, -⟩ := told_keeps t Op.closeSession []
    rw [closeSession_reads hbuffer hwaiting hreads hheld, recover_empty rfl]
    apply openSession_flagged
    · refine ⟨fun hhere => ?_, hbuffer⟩
      cases (told_closed t).symm.trans hhere
    · refine .inr (.inr ⟨rfl, ?_⟩)
      rw [Reads]
      dsimp only
      rw [hfate]
      exact hlearns hreads
  · -- The flag stays, because the answer to the close was not read.
    obtain ⟨e, lost, hfails⟩ := not_reads hreads
    obtain ⟨u, hrun, hsame⟩ := @operation_unread t "CloseSession" Op.closeSession [] e lost hfails
    have hread := operation_onlyRead t "CloseSession" Op.closeSession []
    rw [hrun] at hread
    have hclose : closeSession t = (.error (.usb "CloseSession" e), u) := by
      rw [closeSession, bind_error hrun]
    rw [hclose]
    have hrecover := recover_onlyRead u
    have hopen : (recover u).2.sessionOpen = true := by
      rw [hrecover.sessionOpen, hsame]
      exact hflag
    apply openSession_flagged
    · refine ⟨fun _ => hopen, ?_⟩
      rw [hrecover.config, hread.config]
      exact hbuffer
    · exact .inl hopen

theorem repair_flagged (h : Flagged s) (hlearns : Learns s (.openSessionOrRepair id)) :
    Flagged (openSessionOrRepair id s).2 := by
  obtain ⟨hwaiting, hnone, hsome⟩ := hlearns
  by_cases hreads : Reads s 0
  · have hfirst := @openSession_reads s id h.buffer hwaiting hreads
    by_cases hheld : s.device.held = none
    · rw [repair_once]
      · exact openSession_flagged h (.inr (.inr ⟨hwaiting, hreads⟩))
      · intro out t hrun
        rw [hfirst, if_pos hheld] at hrun
        cases hrun
        decide
    · rw [if_neg hheld] at hfirst
      obtain ⟨-, hfate, -⟩ := told_keeps s Op.openSession [id]
      rw [repair_twice hfirst rfl]
      apply second_flagged
      · exact h.buffer
      · rfl
      · show (s.told Op.openSession [id]).device.held ≠ none
        rw [told_held hheld (by decide)]
        exact hheld
      · rfl
      · unfold Reads
        dsimp only
        rw [hfate]
        exact hsome hheld hreads
  · obtain ⟨e, lost, hfails⟩ := not_reads hreads
    obtain ⟨u, hrun, -⟩ := @operation_unread s "OpenSession" Op.openSession [id] e lost hfails
    have hopen : openSession id s = (.error (.usb "OpenSession" e), u) := by
      rw [openSession, bind_error hrun]
    rw [repair_once]
    · apply openSession_flagged h
      by_cases hheld : s.device.held = none
      · exact .inl ((hnone hheld).resolve_right hreads)
      · exact .inr (.inl hheld)
    · intro out t hok
      rw [hopen] at hok
      cases hok

theorem callStep_flagged {call : SessionCall} (h : Flagged s) (hlearns : Learns s call) :
    Flagged (callStep s call) := by
  cases call with
  | openSession id => exact openSession_flagged h hlearns
  | closeSession => exact closeSession_flagged h
  | openSessionOrRepair id => exact repair_flagged h hlearns
  | operation step code params => exact operation_flagged h hlearns

/-! ### The drop -/

theorem drop_of_flag (hflag : s.sessionOpen = true) :
    (drop s).device.wrote = s.device.wrote ++ [buildCommand Op.closeSession s.transaction []] := by
  have hrecover := recover_onlyRead s
  have hread := operation_onlyRead (recover s).2 "CloseSession" Op.closeSession []
  have hdevice : (closeSession (recover s).2).2.device =
      (operation "CloseSession" Op.closeSession [] (recover s).2).2.device :=
    closeSession_device _
  obtain ⟨hwrote, -, -⟩ := told_keeps (recover s).2 Op.closeSession []
  have htid : (recover s).2.transaction = s.transaction := rfl
  rw [drop, if_pos hflag, hdevice, hread.wrote, hwrote, hrecover.wrote, htid]

theorem closesOwn_of_flagged (h : Flagged s) : ClosesOwn s :=
  fun hhere => drop_of_flag (h.flag hhere)

theorem readBufferMin_le_normalised (c : Config) : readBufferMin ≤ c.normalised.readBuffer := by
  unfold Config.normalised
  dsimp only
  split
  · exact Nat.le_refl _
  · rename_i hlarge
    exact Nat.le_of_not_lt hlarge

/-- A new session holds nothing of its own. -/
theorem flagged_new (d : Keeper) (cfg : Config) (hstart : d.held ≠ some .here) :
    Flagged (Session.new d cfg).1 := by
  have hrecover := recover_onlyRead (newWithoutRecovery d cfg)
  refine ⟨fun hhere => ?_, ?_⟩
  · exact absurd (hrecover.held.symm.trans hhere) hstart
  · show readBufferMin ≤ (recover (newWithoutRecovery d cfg)).2.config.readBuffer
    rw [hrecover.config]
    exact readBufferMin_le_normalised cfg

/-- **A session closes what it opened**, in every run in which it learns of what an
`OpenSession` of its own opens. -/
theorem drop_closes {d : Keeper} (cfg : Config) {calls : List SessionCall}
    (hstart : d.held ≠ some .here)
    (hrun : Run.Meets callStep Learns (Session.new d cfg).1 calls) :
    ClosesOwn (Run.after callStep (Session.new d cfg).1 calls) := by
  apply closesOwn_of_flagged
  exact hrun.invariant (fun _ _ h hlearns => callStep_flagged h hlearns)
    (flagged_new d cfg hstart)

/-- A device whose reads have these fates, and on which no session is open. -/
def closed (fate : Nat → ReadFate) : Keeper where
  held := none
  waiting := []
  fate := fate
  reads := 0
  answers _ := []
  wrote := []

theorem new_closed (fate : Nat → ReadFate) (cfg : Config) :
    (Session.new (closed fate) cfg).1 = {
      newWithoutRecovery (closed fate) cfg with
      device := { closed fate with reads := 1 } } := recover_empty rfl

/-- A session that was opened, with every answer read, closes itself. -/
theorem drop_closes_opened :
    ClosesOwn (Run.after callStep (Session.new (closed fun _ => .works) Config.default).1
      [.openSession 1]) := by
  apply drop_closes Config.default (by decide)
  rw [new_closed]
  exact ⟨.inr (.inr ⟨rfl, rfl⟩), trivial⟩

/-- The second read fails, and its answer is lost. -/
def losesSecond (n : Nat) : ReadFate :=
  if n = 1 then .fails (.transfer 0x81 .error) true else .works

/-- A session whose answer was lost stays open on the device. -/
theorem lost_answer_not_closed : ¬ ∀ (d : Keeper) (calls : List SessionCall),
    d.held ≠ some .here →
      ClosesOwn (Run.after callStep (Session.new d Config.default).1 calls) := by
  intro hclaim
  have hcloses := hclaim (closed losesSecond) [.openSession 1] (by decide)
  rw [new_closed] at hcloses
  have hwrote := congrArg List.length (hcloses rfl)
  exact absurd hwrote (by decide +kernel)

end Session

end Bsdroid
