import Bsdroid.Cellphone.Wire
import Bsdroid.MtpSession.Closing

/-!
# A device that listens

A `Keeper` executes every write that holds a command.  A device on a cable does that between two
data phases alone: after the command of a send it takes what the host writes for payload, and a
write can fail on its way.  A `Listener` notes every write of the host, and whether it came
between two data phases.

A send that ends short leaves its data phase open, and then a `CloseSession` is payload.  After a
`CloseSession` the device holds no session, or it did not hear it (`Session.closeSession_settled`).
-/

namespace Bsdroid

/-- A device is between two commands. -/
def Phase.isIdle : Phase → Bool
  | .idle => true
  | _ => false

/-- A keeper behind a cable.  `fails` gives the writes that do not arrive, and `wrote` notes each
write of the host, and whether it came between two commands. -/
structure Listener where
  keeper : Keeper
  phase : Phase
  fails : Nat → Option UsbError
  wrote : List (Bytes × Bool)

namespace Listener

/-- The payload is complete, and the device answers. -/
def complete (payload : Bytes) (k : Keeper) : Keeper :=
  let wrote := k.wrote ++ [payload]
  { k with wrote := wrote, waiting := k.waiting ++ k.answers wrote }

/-- The device takes a part of a data phase. -/
def collectData (code : UInt16) (tid : UInt32) (params : List UInt32) (size : Nat)
    (payload : Bytes) (d : Listener) : Listener :=
  if payload.length < size then { d with phase := .taking code tid params size payload }
  else { d with phase := .idle, keeper := complete payload d.keeper }

/-- The device takes a write that arrived. -/
def hear (bytes : Bytes) (d : Listener) : Listener :=
  match d.phase with
  | .idle =>
      match Header.parse bytes with
      | .error _ => d
      | .ok h =>
          if h.kind = .command then
            if Op.takesData h.code then {
              d with
              phase := .asked h.code h.transactionId (wordsOf (bytes.drop headerLen)) }
            else { d with keeper := d.keeper.hear bytes }
          else d
  | .asked code tid params =>
      match Header.parse bytes with
      | .error _ => d
      | .ok h => d.collectData code tid params h.payloadLen (bytes.drop headerLen)
  | .taking code tid params size payload => d.collectData code tid params size (payload ++ bytes)

def note (bytes : Bytes) (heard : Bool) (d : Listener) : Listener :=
  { d with wrote := d.wrote ++ [(bytes, heard)] }

/-- The next write. -/
def take (bytes : Bytes) (d : Listener) : Except UsbError Nat × Listener :=
  match d.fails d.wrote.length with
  | some e => (.error e, d.note bytes false)
  | none => (.ok bytes.length, (d.hear bytes).note bytes d.phase.isIdle)

instance : Transport Listener where
  write bytes _ := take bytes
  read capacity _ := fun d =>
    ((d.keeper.give capacity).1, { d with keeper := (d.keeper.give capacity).2 })
  clearStalls d := d

/-- The device did not hear this command of the host. -/
def Missed (d : Listener) (command : Bytes) : Prop := (command, false) ∈ d.wrote

/-- The last write was a `CloseSession`, and the device did not hear it. -/
def MissedClose (d : Listener) : Prop :=
  ∃ tid, d.wrote.getLast? = some (buildCommand Op.closeSession tid [], false)

/-- The device holds no session of this program, or the last write to it was a `CloseSession`
that it did not hear. -/
def Settled (d : Listener) : Prop := d.keeper.held = some .here → d.MissedClose

end Listener

namespace Session

open Proc

variable {s t u : Session Listener} {step : String} {code : UInt16} {params : List UInt32}

/-! ## Reading changes what waits -/

/-- Between two states the host only read. -/
structure OnlyListens (s t : Session Listener) : Prop where
  held : t.device.keeper.held = s.device.keeper.held
  wrote : t.device.wrote = s.device.wrote

theorem OnlyListens.refl (s : Session Listener) : OnlyListens s s := ⟨rfl, rfl⟩

theorem OnlyListens.trans (h : OnlyListens s t) (h' : OnlyListens t u) : OnlyListens s u :=
  ⟨h'.held.trans h.held, h'.wrote.trans h.wrote⟩

theorem Keeper.give_held (capacity : Nat) (k : Keeper) : (k.give capacity).2.held = k.held := by
  unfold Keeper.give
  dsimp only
  split
  · rfl
  · split <;> rfl

theorem read_onlyListens (s : Session Listener) (capacity deadline : Nat) :
    OnlyListens s {
      s with
      device := ((Transport.read capacity deadline : Proc UsbError Listener Bytes) s.device).2 } :=
  ⟨Keeper.give_held capacity s.device.keeper, rfl⟩

theorem readAnswer_onlyListens {ω : Type} [Writer ω] (p : Session Listener × ω) :
    OnlyListens p.1 (readAnswer step p).2.1 := by
  have hsteps := @readAnswer_steps Listener _ ω _ step (fun p q => OnlyListens p.1 q.1)
    (fun p => .refl p.1) (fun h h' => h.trans h') (fun p => read_onlyListens p.1 _ _)
    (fun bytes p => .refl p.1)
  exact hsteps p

theorem collected_onlyListens (s : Session Listener) :
    OnlyListens s (collected (readAnswer step) s).2 := by
  have hread := @readAnswer_onlyListens step Bytes _ (s, [])
  rw [collected]
  rcases hrun : readAnswer step (s, ([] : Bytes)) with ⟨e | o, t, data⟩
  · rw [hrun] at hread
    exact hread
  · rw [hrun] at hread
    exact hread

/-! ## A command -/

/-- The session once it wrote these bytes. -/
def put (s : Session Listener) (bytes : Bytes) : Session Listener :=
  { s with device := (s.device.take bytes).2 }

/-- The session once it wrote a command. -/
def commanded (s : Session Listener) (code : UInt16) (params : List UInt32) : Session Listener :=
  put { s with transaction := s.transaction + 1 } (buildCommand code s.transaction params)

theorem writeAll_put (s : Session Listener) (bytes : Bytes) :
    writeAll step bytes s =
      (match s.device.fails s.device.wrote.length with
        | some e => .error (.usb step e)
        | none => .ok (), s.put bytes) := by
  have hwrite : (Transport.write bytes s.config.timeout : Proc UsbError Listener Nat) s.device =
      s.device.take bytes := rfl
  rw [writeAll, bind_ok (get_run _), bind_run, transfer, mapError, onPart, hwrite, put,
    Listener.take]
  cases s.device.fails s.device.wrote.length with
  | some e => rfl
  | none => rfl

/-- A command that arrives is an operation of the device. -/
theorem operation_arrives (h : s.device.fails s.device.wrote.length = none) :
    operation step code params s = collected (readAnswer step) (s.commanded code params) := by
  have hwrite : besides (writeAll step (buildCommand code s.transaction params))
      ({ s with transaction := s.transaction + 1 }, ([] : Bytes)) =
        (.ok (), (s.commanded code params, [])) := by
    rw [besides, onPart, writeAll_put, h]
    rfl
  have hnext : besides nextTransaction (s, ([] : Bytes)) =
      (.ok s.transaction, ({ s with transaction := s.transaction + 1 }, [])) := rfl
  rw [operation, collected, collected, operationStream, bind_ok hnext, bind_ok hwrite]

/-- A command that does not arrive ends its operation. -/
theorem operation_lost {e : UsbError} (h : s.device.fails s.device.wrote.length = some e) :
    operation step code params s = (.error (.usb step e), s.commanded code params) := by
  have hwrite : besides (writeAll step (buildCommand code s.transaction params))
      ({ s with transaction := s.transaction + 1 }, ([] : Bytes)) =
        (.error (.usb step e), (s.commanded code params, [])) := by
    rw [besides, onPart, writeAll_put, h]
    rfl
  have hnext : besides nextTransaction (s, ([] : Bytes)) =
      (.ok s.transaction, ({ s with transaction := s.transaction + 1 }, [])) := rfl
  rw [operation, collected, operationStream, bind_ok hnext, bind_error hwrite]

/-- After its command an operation only reads. -/
theorem operation_onlyListens (s : Session Listener) (step : String) (code : UInt16)
    (params : List UInt32) :
    OnlyListens (s.commanded code params) (operation step code params s).2 := by
  cases h : s.device.fails s.device.wrote.length with
  | none =>
      rw [operation_arrives h]
      exact collected_onlyListens _
  | some e =>
      rw [operation_lost h]
      exact .refl _

theorem hear_log (d : Listener) (bytes : Bytes) : (d.hear bytes).wrote = d.wrote := by
  unfold Listener.hear Listener.collectData
  repeat' split
  all_goals rfl

/-- The device notes every write. -/
theorem take_log (d : Listener) (bytes : Bytes) :
    ∃ heard, (d.take bytes).2.wrote = d.wrote ++ [(bytes, heard)] := by
  rw [Listener.take]
  cases d.fails d.wrote.length with
  | some e => exact ⟨false, rfl⟩
  | none => exact ⟨d.phase.isIdle, congrArg (· ++ [(bytes, d.phase.isIdle)]) (hear_log d bytes)⟩

/-- A device in a data phase takes a write for payload. -/
theorem hear_payload {d : Listener} (hphase : d.phase.isIdle = false) (bytes : Bytes) :
    (d.hear bytes).keeper.held = d.keeper.held := by
  rw [Listener.hear]
  cases hstate : d.phase with
  | idle =>
      rw [hstate] at hphase
      cases hphase
  | asked code tid params =>
      dsimp only
      unfold Listener.collectData
      split
      · rfl
      · split <;> rfl
  | taking code tid params size payload =>
      dsimp only
      unfold Listener.collectData
      split <;> rfl

/-- **A device hears a command, or it notes that it did not.** -/
theorem take_command {code : UInt16} (hcode : Op.takesData code = false) (d : Listener)
    (tid : UInt32) (params : List UInt32) :
    (d.take (buildCommand code tid params)).2.keeper =
        d.keeper.hear (buildCommand code tid params) ∨
      ((d.take (buildCommand code tid params)).2.wrote =
          d.wrote ++ [(buildCommand code tid params, false)] ∧
        (d.take (buildCommand code tid params)).2.keeper.held = d.keeper.held) := by
  rw [Listener.take]
  cases d.fails d.wrote.length with
  | some e => exact .inr ⟨rfl, rfl⟩
  | none =>
      cases hphase : d.phase.isIdle with
      | false =>
          refine .inr ⟨?_, hear_payload hphase _⟩
          exact congrArg (· ++ [(buildCommand code tid params, false)]) (hear_log d _)
      | true =>
          have hidle : d.phase = .idle := by
            cases hstate : d.phase with
            | idle => rfl
            | asked code tid params =>
                rw [hstate] at hphase
                cases hphase
            | taking code tid params size payload =>
                rw [hstate] at hphase
                cases hphase
          left
          show (d.hear (buildCommand code tid params)).keeper = _
          rw [Listener.hear, hidle]
          dsimp only
          rw [buildCommand, Header.parse_pushHeader]
          dsimp only
          rw [if_pos rfl, hcode, if_neg Bool.false_ne_true]

/-! ## Closing -/

/-- **After a `CloseSession` the device holds no session, or it did not hear it.** -/
theorem closeSession_settled (s : Session Listener) : (closeSession s).2.device.Settled := by
  have hread := operation_onlyListens s "CloseSession" Op.closeSession []
  have hdevice : (closeSession s).2.device =
      (operation "CloseSession" Op.closeSession [] s).2.device := by
    rw [closeSession, bind_run]
    rcases operation "CloseSession" Op.closeSession [] s with ⟨e | out, t⟩
    · rfl
    · dsimp only
      split <;> rfl
  rw [hdevice]
  intro hhere
  rw [hread.held] at hhere
  rcases take_command (show Op.takesData Op.closeSession = false by decide) s.device s.transaction
    [] with hheard | ⟨hmissed, -⟩
  · -- A keeper that heard it holds nothing.
    have hclosed : (s.commanded Op.closeSession []).device.keeper.held = none := by
      show ((s.device.take (buildCommand Op.closeSession s.transaction [])).2).keeper.held = none
      rw [hheard, hear_command]
      dsimp only
      rw [if_neg (by decide), if_pos rfl]
      split
      · rfl
      · assumption
    rw [hclosed] at hhere
    cases hhere
  · refine ⟨s.transaction, ?_⟩
    rw [hread.wrote]
    show ((s.device.take (buildCommand Op.closeSession s.transaction [])).2).wrote.getLast? = _
    rw [hmissed, List.getLast?_concat]

/-- The drop of a session leaves a settled device settled. -/
theorem drop_settled {s : Session Listener} (h : s.device.Settled) :
    (drop s).device.Settled := by
  rw [drop]
  split
  · exact closeSession_settled _
  · exact h

/-! ## Opening -/

/-- A session is open on the device, or the device took an `OpenSession` for payload. -/
def Opened (d : Listener) : Prop :=
  d.keeper.held ≠ none ∨ ∃ id tid, d.Missed (buildCommand Op.openSession tid [id])

theorem Opened.of_onlyListens (h : OnlyListens s t) (hs : Opened s.device) : Opened t.device := by
  rcases hs with hheld | ⟨id, tid, hmissed⟩
  · left
    rw [h.held]
    exact hheld
  · right
    refine ⟨id, tid, ?_⟩
    rw [Listener.Missed, h.wrote]
    exact hmissed

/-- An operation that neither opens nor closes leaves the session open. -/
theorem operation_opened (hdata : Op.takesData code = false) (hclose : code ≠ Op.closeSession)
    (h : Opened s.device) : Opened (operation step code params s).2.device := by
  apply Opened.of_onlyListens (operation_onlyListens s step code params)
  rcases h with hheld | ⟨id, tid, hmissed⟩
  · left
    show ((s.device.take (buildCommand code s.transaction params)).2).keeper.held ≠ none
    rcases take_command hdata s.device s.transaction params with hheard | ⟨-, hsame⟩
    · rw [hheard, hear_command]
      dsimp only
      by_cases hopen : code = Op.openSession
      · rw [if_pos hopen]
        split
        · exact Option.some_ne_none _
        · exact hheld
      · rw [if_neg hopen, if_neg hclose]
        exact hheld
    · rw [hsame]
      exact hheld
  · right
    refine ⟨id, tid, ?_⟩
    obtain ⟨heard, hlog⟩ := take_log s.device (buildCommand code s.transaction params)
    show _ ∈ ((s.device.take (buildCommand code s.transaction params)).2).wrote
    rw [hlog]
    exact List.mem_append_left _ hmissed

/-- What an `OpenSession` leaves on the device, whatever its answer. -/
theorem openSession_opened (s : Session Listener) (id : UInt32) :
    Opened (openSession id s).2.device := by
  have hread := operation_onlyListens s "OpenSession" Op.openSession [id]
  have hdevice : (openSession id s).2.device =
      (operation "OpenSession" Op.openSession [id] s).2.device := by
    rw [openSession, bind_run]
    rcases operation "OpenSession" Op.openSession [id] s with ⟨e | out, t⟩
    · rfl
    · dsimp only
      split <;> rfl
  rw [hdevice]
  apply Opened.of_onlyListens hread
  rcases take_command (show Op.takesData Op.openSession = false by decide) s.device s.transaction
    [id] with hheard | ⟨hmissed, -⟩
  · left
    show ((s.device.take (buildCommand Op.openSession s.transaction [id])).2).keeper.held ≠ none
    rw [hheard, hear_command]
    dsimp only
    rw [if_pos rfl]
    split
    · exact Option.some_ne_none _
    · rename_i hheld
      rw [hheld]
      exact Option.some_ne_none _
  · right
    refine ⟨id, s.transaction, ?_⟩
    show _ ∈ ((s.device.take (buildCommand Op.openSession s.transaction [id])).2).wrote
    rw [hmissed]
    exact List.mem_append_right _ (List.mem_singleton_self _)

/-- A session that came up is open on the device. -/
theorem repair_opened {id : UInt32} {out : SessionOpen}
    (h : openSessionOrRepair id s = (.ok out, t)) : Opened t.device := by
  unfold openSessionOrRepair at h
  obtain ⟨first, u, hfirst, hrest⟩ := Proc.bind_eq_ok h
  have hopened := openSession_opened s id
  rw [hfirst] at hopened
  by_cases halready : first.responseCode ≠ Resp.sessionAlreadyOpen
  · rw [if_pos halready] at hrest
    cases hrest
    exact hopened
  · rw [if_neg halready] at hrest
    obtain ⟨closed, v, -, hrest⟩ := Proc.bind_eq_ok hrest
    obtain ⟨dropped, w, -, hrest⟩ := Proc.bind_eq_ok hrest
    obtain ⟨second, x, hsecond, hlast⟩ := Proc.bind_eq_ok hrest
    cases hlast
    have hagain := openSession_opened w id
    rw [hsecond] at hagain
    exact hagain

end Session

end Bsdroid
