import Bsdroid.MtpSession.Attribution
import Bsdroid.MtpSession.Closing

/-!
# What a recovery leaves

A program that stops leaves what the device still had to send, and the next program finds it
in the pipe.  `Session.recover` reads and drops it.  The bytes are conserved
(`Session.recover_conserves`): what a recovery counts and what it leaves is what waited.  So
the count says whether the pipe is empty, and from an empty pipe an answer belongs to its
command.

The repair of a session is the case inside one program: whatever became of the answer to the
`CloseSession`, the recovery drops it, and the second `OpenSession` reads its own answer.
-/

namespace Bsdroid

namespace Pipe

variable {p : Pipe} {capacity deadline rounds dropped : Nat}

/-- The count of bytes that wait. -/
def held (p : Pipe) : Nat := (p.waiting.map List.length).sum

/-- No container that waits is empty. -/
def Whole (p : Pipe) : Prop := ∀ w ∈ p.waiting, w ≠ []

/-- Each of the next `n` reads carries a byte. -/
def Flows (p : Pipe) (n : Nat) : Prop := ∀ k < n, ∃ m, p.plan (p.reads + k) = some (m + 1)

/-- Each read carries a byte until nothing waits, and there are enough reads for that. -/
def Clears (p : Pipe) : Prop := p.Flows p.held ∧ p.held ≤ maxReadRounds

theorem Whole.held_pos (h : p.Whole) (hwaiting : p.waiting ≠ []) : 0 < p.held := by
  rw [held]
  cases hw : p.waiting with
  | nil => contradiction
  | cons w ws =>
      have hne := h w (by rw [hw]; exact List.mem_cons_self)
      have hpos := List.length_pos_iff.mpr hne
      rw [List.map_cons, List.sum_cons]
      omega

/-- Nothing waits exactly when no byte does. -/
theorem Whole.held_eq_zero (h : p.Whole) : p.held = 0 ↔ p.waiting = [] := by
  constructor
  · intro hzero
    by_contra hwaiting
    have hpos := h.held_pos hwaiting
    omega
  · intro hwaiting
    rw [held, hwaiting]
    rfl

/-- A read that takes `bytes` from the first container. -/
structure Took (p : Pipe) (bytes : Bytes) (q : Pipe) : Prop where
  same : ∃ waiting, q = { p with reads := p.reads + 1, waiting := waiting }
  held : bytes.length + q.held = p.held
  whole : p.Whole → q.Whole
  some : 0 < p.held → p.Whole → p.Flows p.held → 0 < bytes.length

theorem held_of_drop {w : Bytes} {ws : List Bytes} (n : Nat) (hwaiting : p.waiting = w :: ws) :
    (w.take n).length + ((if w.drop n = [] then ws else w.drop n :: ws).map List.length).sum =
      p.held := by
  rw [held, hwaiting, List.map_cons, List.sum_cons]
  by_cases hdrop : w.drop n = []
  · have hle : w.length ≤ n := List.drop_eq_nil_iff.mp hdrop
    rw [if_pos hdrop, List.take_of_length_le hle]
  · rw [if_neg hdrop, List.map_cons, List.sum_cons, List.length_take, List.length_drop]
    omega

theorem whole_of_drop {w : Bytes} {ws : List Bytes} (n : Nat) (hwaiting : p.waiting = w :: ws)
    (h : p.Whole) : ∀ v ∈ (if w.drop n = [] then ws else w.drop n :: ws), v ≠ [] := by
  have hrest : ∀ v ∈ ws, v ≠ [] := by
    intro v hv
    apply h v
    rw [hwaiting]
    exact List.mem_cons_of_mem _ hv
  intro v hv
  split at hv
  · exact hrest v hv
  · rename_i hdrop
    rcases List.mem_cons.mp hv with rfl | hv
    · exact hdrop
    · exact hrest v hv

/-- What one read does to the pipe: it fails and takes nothing, or it takes bytes of the first
container. -/
theorem read_cases (hcapacity : 0 < capacity) (p : Pipe) (deadline : Nat) :
    (∃ e, (p.plan p.reads = none ∨ p.waiting = []) ∧
      (Transport.read capacity deadline : Proc UsbError Pipe Bytes) p =
        (.error e, { p with reads := p.reads + 1 })) ∨
    ∃ bytes q, Took p bytes q ∧
      (Transport.read capacity deadline : Proc UsbError Pipe Bytes) p = (.ok bytes, q) := by
  simp only [Transport.read, give]
  cases hplan : p.plan p.reads with
  | none => exact .inl ⟨_, .inl rfl, rfl⟩
  | some n =>
      cases hwaiting : p.waiting with
      | nil => exact .inl ⟨_, .inr rfl, rfl⟩
      | cons w ws =>
          refine .inr ⟨_, _, ⟨⟨_, rfl⟩, held_of_drop _ hwaiting, whole_of_drop _ hwaiting, ?_⟩, rfl⟩
          intro hpos hwhole hflows
          have hne : w ≠ [] := hwhole w (by rw [hwaiting]; exact List.mem_cons_self)
          have hw := List.length_pos_iff.mpr hne
          obtain ⟨m, hm⟩ := hflows 0 hpos
          rw [Nat.add_zero, hplan] at hm
          cases hm
          rw [List.length_take]
          omega

/-- Reading leaves no empty container. -/
theorem Whole.read (h : p.Whole) (capacity deadline : Nat) :
    Whole ((Transport.read capacity deadline : Proc UsbError Pipe Bytes) p).2 := by
  simp only [Transport.read, give]
  cases hplan : p.plan p.reads with
  | none => exact h
  | some n =>
      cases hwaiting : p.waiting with
      | nil =>
          intro w hw
          have hnone : w ∈ ([] : List Bytes) := hw
          cases hnone
      | cons w ws => exact whole_of_drop _ hwaiting h

/-- What the device makes is not empty. -/
theorem Whole.take (h : p.Whole) (bytes : Bytes) : Whole (p.take bytes) := by
  have henter : ∀ q : Pipe, q.waiting = p.waiting → Whole q.answer := by
    intro q hq w hw
    rcases List.mem_append.mp hw with hold | hnew
    · exact h w (hq ▸ hold)
    · obtain ⟨c, -, rfl⟩ := List.mem_map.mp hnew
      exact c.wire_ne_nil
  apply henter
  unfold enter
  split
  · rfl
  · split
    · rfl
    · split <;> rfl

/-- A drain counts what it takes. -/
theorem drainFrom_conserves (hcapacity : 0 < capacity) (rounds deadline dropped : Nat) (p : Pipe) :
    (Session.drainFrom capacity rounds deadline dropped p).1 +
        (Session.drainFrom capacity rounds deadline dropped p).2.held = dropped + p.held := by
  induction rounds generalizing deadline dropped p with
  | zero => rfl
  | succ rounds ih =>
      rw [Session.drainFrom]
      rcases p.read_cases hcapacity deadline with ⟨e, -, hread⟩ | ⟨bytes, q, htook, hread⟩
      · rw [hread]
        rfl
      · have hheld := htook.held
        rw [hread]
        dsimp only
        split
        · rename_i hempty
          rw [List.isEmpty_iff.mp hempty, List.length_nil, Nat.zero_add] at hheld
          rw [hheld]
        · rw [ih]
          omega

/-- A drain that gets a byte for each read empties the pipe. -/
theorem drainFrom_empties (hcapacity : 0 < capacity) (hwhole : p.Whole) (hflows : p.Flows p.held)
    (hrounds : p.held ≤ rounds) :
    (Session.drainFrom capacity rounds deadline dropped p).2.waiting = [] := by
  induction rounds generalizing deadline dropped p with
  | zero => exact hwhole.held_eq_zero.mp (Nat.le_zero.mp hrounds)
  | succ rounds ih =>
      rw [Session.drainFrom]
      rcases p.read_cases hcapacity deadline with ⟨e, hstop, hread⟩ | ⟨bytes, q, htook, hread⟩
      · rw [hread]
        rcases hstop with hnone | hempty
        · by_contra hwaiting
          obtain ⟨m, hm⟩ := hflows 0 (hwhole.held_pos hwaiting)
          rw [Nat.add_zero, hnone] at hm
          cases hm
        · exact hempty
      · have hheld := htook.held
        rw [hread]
        dsimp only
        split
        · rename_i hempty
          by_contra hwaiting
          have hpos := (htook.whole hwhole).held_pos hwaiting
          have hsome := htook.some (by omega) hwhole hflows
          rw [List.isEmpty_iff.mp hempty] at hsome
          exact absurd hsome (Nat.lt_irrefl 0)
        · rename_i hsome
          have hpos : 0 < bytes.length := List.length_pos_iff.mpr fun hnil => hsome (by rw [hnil]; rfl)
          apply ih (htook.whole hwhole)
          · intro k hk
            obtain ⟨waiting, hq⟩ := htook.same
            obtain ⟨m, hm⟩ := hflows (k + 1) (by omega)
            refine ⟨m, ?_⟩
            rw [hq, ← hm]
            show p.plan (p.reads + 1 + k) = p.plan (p.reads + (k + 1))
            rw [Nat.add_assoc, Nat.add_comm 1 k]
          · omega

/-- A drain reads, and leaves the rest of the device as it is. -/
theorem drainFrom_same (hcapacity : 0 < capacity) (rounds deadline dropped : Nat) (p : Pipe) :
    ∃ reads waiting, (Session.drainFrom capacity rounds deadline dropped p).2 =
      { p with reads := reads, waiting := waiting } := by
  induction rounds generalizing deadline dropped p with
  | zero => exact ⟨p.reads, p.waiting, rfl⟩
  | succ rounds ih =>
      rw [Session.drainFrom]
      rcases p.read_cases hcapacity deadline with ⟨e, -, hread⟩ | ⟨bytes, q, htook, hread⟩
      · rw [hread]
        exact ⟨_, _, rfl⟩
      · obtain ⟨waiting, hq⟩ := htook.same
        rw [hread]
        dsimp only
        split
        · exact ⟨_, _, hq⟩
        · obtain ⟨reads, left, hrest⟩ := ih drainRestMillis (dropped + bytes.length) q
          refine ⟨reads, left, ?_⟩
          rw [hrest, hq]

/-- A drain leaves no empty container. -/
theorem Whole.drainFrom (hcapacity : 0 < capacity) (rounds deadline dropped : Nat)
    (h : p.Whole) : Whole (Session.drainFrom capacity rounds deadline dropped p).2 := by
  induction rounds generalizing deadline dropped p with
  | zero => exact h
  | succ rounds ih =>
      rw [Session.drainFrom]
      rcases p.read_cases hcapacity deadline with ⟨e, -, hread⟩ | ⟨bytes, q, htook, hread⟩
      · rw [hread]
        exact h
      · rw [hread]
        dsimp only
        split
        · exact htook.whole h
        · exact ih _ _ (htook.whole h)

end Pipe

namespace Session

open Proc

section Moves

variable {τ ω : Type} {R : Session τ → Session τ → Prop} {step : String} {code : UInt16}
  {params : List UInt32}

/-- The relation, with whatever stands beside the session. -/
def Beside (R : Session τ → Session τ → Prop) (p q : Session τ × ω) : Prop := R p.1 q.1

theorem steps_besides {α : Type} {x : Proc SessionError (Session τ) α} (h : Steps R x) :
    Steps (Beside R) (besides x : Proc SessionError (Session τ × ω) α) :=
  fun p => h p.1

theorem steps_collected {x : Proc SessionError (Session τ × Bytes) StreamOutcome}
    (h : Steps (Beside R) x) : Steps R (collected x) := by
  intro s
  have hrun := h (s, [])
  rw [collected]
  rcases hx : x (s, []) with ⟨e | o, t, data⟩
  · rw [hx] at hrun
    exact hrun
  · rw [hx] at hrun
    exact hrun

variable [Transport τ]

/-- What every transfer of a session does, and the count of the transactions. -/
structure Moves (R : Session τ → Session τ → Prop) : Prop where
  refl : ∀ s, R s s
  trans : ∀ {s t u}, R s t → R t u → R s u
  read : ∀ step s, R s (readOnce step s).2
  write : ∀ step bytes s, R s (writeAll step bytes s).2
  next : ∀ s, R s (nextTransaction s).2

theorem Moves.readAnswer [Writer ω] (h : Moves R) :
    Steps (Beside R) (readAnswer step : Proc SessionError (Session τ × ω) StreamOutcome) := by
  apply readAnswer_steps
  · intro p
    exact h.refl p.1
  · intro p q r hpq hqr
    exact h.trans hpq hqr
  · intro p
    exact h.read step p.1
  · intro bytes p
    exact h.refl p.1

theorem Moves.operationStream [Writer ω] (h : Moves R) : Steps (Beside R)
    (operationStream step code params : Proc SessionError (Session τ × ω) StreamOutcome) := by
  have htrans : ∀ {p q r : Session τ × ω}, Beside R p q → Beside R q r → Beside R p r :=
    fun hpq hqr => h.trans hpq hqr
  apply Steps.bind (R := Beside R) htrans (steps_besides h.next)
  intro tid
  apply Steps.bind (R := Beside R) htrans (steps_besides (h.write step _))
  intro u
  exact h.readAnswer

theorem Moves.operation (h : Moves R) :
    Steps R (operation step code params : Proc SessionError (Session τ) Outcome) :=
  steps_collected h.operationStream

theorem Moves.fill (h : Moves R) (want : Nat) :
    Steps (Beside R) (fill step want : Proc SessionError (Session τ × _) Bytes) :=
  fun p => h.refl p.1

theorem Moves.sendRest (h : Moves R) (chunk size rounds sent : Nat) :
    Steps (Beside R) (sendRest step chunk size rounds sent : Proc SessionError _ Nat) := by
  have htrans : ∀ {p q r : Session τ × List ReadAnswer},
      Beside R p q → Beside R q r → Beside R p r := fun hpq hqr => h.trans hpq hqr
  induction rounds generalizing sent with
  | zero => exact .pure (fun p => h.refl p.1) _
  | succ rounds ih =>
      unfold Session.sendRest
      split
      · exact .pure (fun p => h.refl p.1) _
      · apply Steps.bind (R := Beside R) htrans (h.fill _)
        intro bytes
        apply Steps.bind (R := Beside R) htrans (steps_besides (h.write step bytes))
        intro u
        exact ih _

theorem Moves.endDataPhase (h : Moves R) (total : UInt32) :
    Steps R (endDataPhase step total : Proc SessionError (Session τ) Unit) := by
  apply Steps.bind (R := R) h.trans (.get h.refl)
  intro s
  split
  · exact h.write step []
  · exact .pure h.refl ()

theorem Moves.operationSending (h : Moves R) {size : Nat} : Steps (Beside R)
    (operationSending step code params size : Proc SessionError (Session τ × _) Outcome) := by
  have hrefl : ∀ p : Session τ × List ReadAnswer, Beside R p p := fun p => h.refl p.1
  have htrans : ∀ {p q r : Session τ × List ReadAnswer},
      Beside R p q → Beside R q r → Beside R p r := fun hpq hqr => h.trans hpq hqr
  apply Steps.bind (R := Beside R) htrans (.mapError (.ofExcept hrefl _))
  intro total
  apply Steps.bind (R := Beside R) htrans (steps_besides h.next)
  intro tid
  apply Steps.bind (R := Beside R) htrans (steps_besides (h.write step _))
  intro u
  apply Steps.bind (R := Beside R) htrans (.get hrefl)
  intro held
  apply Steps.bind (R := Beside R) htrans (.mapError (.ofExcept hrefl _))
  intro first
  apply Steps.bind (R := Beside R) htrans (h.fill _)
  intro bytes
  apply Steps.bind (R := Beside R) htrans (steps_besides (h.write step _))
  intro u
  apply Steps.bind (R := Beside R) htrans (h.sendRest _ _ _ _)
  intro sent
  split
  · exact .fail hrefl _
  · apply Steps.bind (R := Beside R) htrans (steps_besides (h.endDataPhase _))
    intro u
    exact steps_besides (steps_collected h.readAnswer)

/-- Whatever each transfer does, a call does. -/
theorem Moves.call {R : Session Pipe → Session Pipe → Prop} (h : Moves R) (s : Session Pipe)
    (c : Call) : R s (c.next s) := by
  cases c with
  | operation step code params => exact h.operation s
  | stream step code params refuses =>
      exact h.operationStream (s, (⟨[], refuses⟩ : Sink))
  | withData step code params payload => exact h.operationSending (s, [.bytes payload])
  | sending step code params size reader => exact h.operationSending (s, reader)

end Moves

/-! ## A recovery -/

variable {s : Session Pipe}

/-- What a recovery counts and what it leaves is what waited. -/
theorem recover_conserves (hbuffer : 0 < s.config.readBuffer) :
    (recover s).1 + (recover s).2.device.held = s.device.held := by
  have hdrain := Pipe.drainFrom_conserves hbuffer maxReadRounds drainFirstMillis 0 s.device
  rw [Nat.zero_add] at hdrain
  exact hdrain

/-- A recovery empties the pipe when each of its reads carries a byte. -/
theorem recover_empties (hbuffer : 0 < s.config.readBuffer) (hwhole : s.device.Whole)
    (hclears : s.device.Clears) : (recover s).2.device.waiting = [] :=
  Pipe.drainFrom_empties hbuffer hwhole hclears.1 hclears.2

/-- A recovery reads, and leaves the rest of the session as it is. -/
theorem recover_same (hbuffer : 0 < s.config.readBuffer) : ∃ reads waiting, (recover s).2 =
    { s with device := { s.device with reads := reads, waiting := waiting } } := by
  obtain ⟨reads, waiting, hdrain⟩ :=
    Pipe.drainFrom_same hbuffer maxReadRounds drainFirstMillis 0 s.device
  refine ⟨reads, waiting, ?_⟩
  rw [← hdrain]
  rfl

theorem recover_whole (hbuffer : 0 < s.config.readBuffer) (hwhole : s.device.Whole) :
    (recover s).2.device.Whole :=
  hwhole.drainFrom hbuffer _ _ _

/-- **The count of a recovery is exact.**  It is what waited exactly when nothing is left. -/
theorem quiet_recover_iff (hbuffer : 0 < s.config.readBuffer) (hwhole : s.device.Whole) :
    Quiet (recover s).2 ↔ (recover s).1 = s.device.held ∧ s.device.awaiting = 0 := by
  have hconserves := recover_conserves hbuffer
  have hleft := (recover_whole hbuffer hwhole).held_eq_zero
  obtain ⟨reads, waiting, hsame⟩ := recover_same hbuffer
  have hawaiting : (recover s).2.device.awaiting = s.device.awaiting := by rw [hsame]
  constructor
  · intro hquiet
    have hnone := hleft.mpr hquiet.waiting
    exact ⟨by omega, hawaiting ▸ hquiet.awaiting⟩
  · rintro ⟨hcount, houtside⟩
    refine ⟨hleft.mp ?_, hawaiting.trans houtside⟩
    omega

/-- A session with room for a read, over a pipe of whole containers. -/
structure Sound (s : Session Pipe) : Prop where
  whole : s.device.Whole
  buffer : 0 < s.config.readBuffer

theorem moves_sound : Moves (fun s t => Sound s → Sound t) where
  refl _ h := h
  trans h h' hs := h' (h hs)
  read _ s h := ⟨Pipe.Whole.read h.whole s.config.readBuffer s.config.timeout, h.buffer⟩
  write _ bytes _ h := ⟨Pipe.Whole.take h.whole bytes, h.buffer⟩
  next _ h := ⟨h.whole, h.buffer⟩

theorem Sound.recover (h : Sound s) : Sound (recover s).2 := by
  obtain ⟨reads, waiting, hsame⟩ := recover_same h.buffer
  refine ⟨recover_whole h.buffer h.whole, ?_⟩
  rw [hsame]
  exact h.buffer

theorem Sound.closeSession (h : Sound s) : Sound (closeSession s).2 := by
  have hclose : Sound (operation "CloseSession" Op.closeSession [] s).2 :=
    moves_sound.operation s h
  rw [Session.closeSession, bind_run]
  rcases hrun : operation "CloseSession" Op.closeSession [] s with ⟨e | out, t⟩
  · rw [hrun] at hclose
    exact hclose
  · rw [hrun] at hclose
    dsimp only
    split
    · exact ⟨hclose.whole, hclose.buffer⟩
    · exact hclose

theorem Sound.openSession (h : Sound s) (id : UInt32) : Sound (openSession id s).2 := by
  have hopen : Sound (operation "OpenSession" Op.openSession [id] s).2 :=
    moves_sound.operation s h
  rw [Session.openSession, bind_run]
  rcases hrun : operation "OpenSession" Op.openSession [id] s with ⟨e | out, t⟩
  · rw [hrun] at hopen
    exact hopen
  · rw [hrun] at hopen
    dsimp only
    split
    · exact ⟨hopen.whole, hopen.buffer⟩
    · exact hopen

theorem Sound.openSessionOrRepair (h : Sound s) (id : UInt32) :
    Sound (openSessionOrRepair id s).2 := by
  have hfirst := h.openSession id
  rw [Session.openSessionOrRepair, bind_run]
  rcases hrun : Session.openSession id s with ⟨e | out, t⟩
  · rw [hrun] at hfirst
    exact hfirst
  · rw [hrun] at hfirst
    dsimp only
    split
    · exact hfirst
    · have hlast := hfirst.closeSession.recover.openSession id
      rw [← bind_pure_state (Session.openSession id)] at hlast
      exact hlast

theorem Sound.drop (h : Sound s) : Sound (drop s) := by
  unfold Session.drop
  split
  · exact h.recover.closeSession
  · exact h

theorem sound_new {p : Pipe} (hwhole : p.Whole) (cfg : Config) : Sound (Session.new p cfg).1 := by
  have hbuffer := readBufferMin_le_normalised cfg
  have hstart : Sound (newWithoutRecovery p cfg) := by
    refine ⟨hwhole, ?_⟩
    show 0 < cfg.normalised.readBuffer
    unfold readBufferMin at hbuffer
    omega
  exact hstart.recover

end Session

/-! ## One program after another -/

/-- A program on a device: the session it starts, the id it opens with, its calls, and whether
it lives to drop the session. -/
structure Program where
  config : Config
  opens : Option UInt32
  calls : List Call
  killed : Bool

namespace Program

open Session

/-- The session of a program after its last call. -/
def session (p : Pipe) (g : Program) : Session Pipe :=
  let s := (Session.new p g.config).1
  match g.opens with
  | none => Run.after Call.next s g.calls
  | some id => Run.after Call.next (openSessionOrRepair id s).2 g.calls

/-- The device a program leaves. -/
def leave (p : Pipe) (g : Program) : Pipe :=
  if g.killed then (g.session p).device else (drop (g.session p)).device

theorem sound_calls {s : Session Pipe} (h : Sound s) (calls : List Call) :
    Sound (Run.after Call.next s calls) := by
  induction calls generalizing s with
  | nil => exact h
  | cons c rest ih => exact ih (moves_sound.call s c h)

theorem sound_session {p : Pipe} (hwhole : p.Whole) (g : Program) : Sound (g.session p) := by
  have hnew := sound_new hwhole g.config
  unfold session
  dsimp only
  split
  · exact sound_calls hnew _
  · exact sound_calls (hnew.openSessionOrRepair _) _

/-- A program leaves whole containers. -/
theorem whole_leave {p : Pipe} (hwhole : p.Whole) (g : Program) : (g.leave p).Whole := by
  unfold leave
  split
  · exact (sound_session hwhole g).whole
  · exact (sound_session hwhole g).drop.whole

theorem whole_programs {p : Pipe} (hwhole : p.Whole) (programs : List Program) :
    (Run.after leave p programs).Whole := by
  induction programs generalizing p with
  | nil => exact hwhole
  | cons g rest ih => exact ih (whole_leave hwhole g)

/-- **A new session reads its own answers.**  Whatever the programs before it left, the count
it drops says whether anything is left; it is all of it when each read of the recovery carries
a byte; and then the answer to its first call is its own. -/
theorem new_session_reads_its_own {d : Pipe} (hwhole : d.Whole) (programs : List Program)
    (cfg : Config) (houtside : (Run.after leave d programs).awaiting = 0) :
    let p := Run.after leave d programs
    let s := (Session.new p cfg).1
    (s.Quiet ↔ (Session.new p cfg).2 = p.held) ∧
      (p.Clears → s.Quiet) ∧
      ∀ (c : Call) (r : Report), (Session.new p cfg).2 = p.held → (c.run s).1 = .ok r →
        s.Attributed (c.next s) r := by
  intro p s
  have hp : p.Whole := whole_programs hwhole programs
  have hbuffer : 0 < (newWithoutRecovery p cfg).config.readBuffer := (sound_new hp cfg).buffer
  have hiff : s.Quiet ↔ (Session.new p cfg).2 = p.held := by
    have hexact := quiet_recover_iff (s := newWithoutRecovery p cfg) hbuffer hp
    exact hexact.trans (and_iff_left houtside)
  refine ⟨hiff, ?_, ?_⟩
  · intro hclears
    have hempty := recover_empties (s := newWithoutRecovery p cfg) hbuffer hp hclears
    obtain ⟨reads, waiting, hsame⟩ := recover_same (s := newWithoutRecovery p cfg) hbuffer
    refine ⟨hempty, ?_⟩
    show (recover (newWithoutRecovery p cfg)).2.device.awaiting = 0
    rw [hsame]
    exact houtside
  · intro c r hcount hok
    exact Call.attributed (hiff.mpr hcount) hok

/-- A device that answers the first command with a success and refuses the others, over a pipe
whose second read passes its deadline. -/
def tardy : Pipe := { latePipe with plan := fun n => if n = 1 then none else some 512 }

/-- A program that deletes an object, and is killed before it sees the answer. -/
def stopped : Program where
  config := Config.default
  opens := none
  calls := [.operation "DeleteObject" Op.deleteObject [1, 0]]
  killed := true

/-- The next program drops the answer that waits, and its delete reads the refusal. -/
theorem new_session_reads_its_own_stopped :
    let s := (Session.new (Run.after leave tardy [stopped]) Config.default).1
    let c := Call.operation "DeleteObject" Op.deleteObject [2, 0]
    (Session.new (Run.after leave tardy [stopped]) Config.default).2 = 12 ∧
      s.Attributed (c.next s) ⟨Resp.invalidObjectHandle, [], []⟩ := by
  have hall := new_session_reads_its_own (d := tardy) (by
    intro w hw
    cases hw) [stopped] Config.default rfl
  exact ⟨rfl, hall.2.2 _ _ rfl rfl⟩

end Program

namespace Session

open Proc

/-! ## The repair of a session -/

variable {s s' : Session Pipe} {step : String} {code : UInt16} {params : List UInt32}
  {id : UInt32}

/-- Reading an answer opens no data phase. -/
theorem readAnswer_awaiting {ω : Type} [Writer ω] (p : Session Pipe × ω) :
    (readAnswer step p).2.1.device.awaiting = p.1.device.awaiting := by
  have hread : ∀ s : Session Pipe, (readOnce step s).2.device.awaiting = s.device.awaiting := by
    intro s
    show ((Transport.read s.config.readBuffer s.config.timeout : Proc UsbError Pipe Bytes)
      s.device).2.awaiting = s.device.awaiting
    simp only [Transport.read, Pipe.give]
    cases s.device.plan s.device.reads with
    | none => rfl
    | some n => cases s.device.waiting <;> rfl
  have hsteps := @readAnswer_steps Pipe _ ω _ step
    (fun p q => q.1.device.awaiting = p.1.device.awaiting) (fun p => rfl)
    (fun h h' => h'.trans h) (fun p => hread p.1) (fun bytes p => rfl)
  exact hsteps p

/-- An operation without a payload opens no data phase. -/
theorem operation_awaiting (h : s.device.awaiting = 0) :
    (operation step code params s).2.device.awaiting = 0 := by
  obtain ⟨own, -, hcommand⟩ := Pipe.take_command h code s.transaction params
  have hread := @readAnswer_awaiting step Bytes _ ({
    s with
    device := s.device.take (buildCommand code s.transaction params)
    transaction := s.transaction + 1 }, [])
  have hrun : operation step code params s = collected (readAnswer step) {
    s with
    device := s.device.take (buildCommand code s.transaction params)
    transaction := s.transaction + 1 } := rfl
  rw [hrun, collected]
  split
  · rename_i hanswer
    rw [hanswer] at hread
    exact hread.trans hcommand
  · rename_i hanswer
    rw [hanswer] at hread
    exact hread.trans hcommand

theorem openSession_device_eq (s : Session Pipe) (id : UInt32) :
    (openSession id s).1 = (operation "OpenSession" Op.openSession [id] s).1 ∧
      (openSession id s).2.device =
        (operation "OpenSession" Op.openSession [id] s).2.device := by
  rw [openSession, bind_run]
  rcases operation "OpenSession" Op.openSession [id] s with ⟨e | out, t⟩
  · exact ⟨rfl, rfl⟩
  · dsimp only
    split <;> exact ⟨rfl, rfl⟩

theorem closeSession_device_eq (s : Session Pipe) : (closeSession s).2.device =
    (operation "CloseSession" Op.closeSession [] s).2.device := by
  rw [closeSession, bind_run]
  rcases operation "CloseSession" Op.closeSession [] s with ⟨e | out, t⟩
  · rfl
  · dsimp only
    split <;> rfl

/-- From an empty pipe, `OpenSession` reads its own answer. -/
theorem openSession_attributed {out : Outcome} (hquiet : s.Quiet)
    (hrun : openSession id s = (.ok out, s')) : s.Attributed s' (Call.report out) := by
  obtain ⟨hanswer, hdevice⟩ := openSession_device_eq s id
  rw [hrun] at hanswer hdevice
  have hoperation : s.Attributed (operation "OpenSession" Op.openSession [id] s).2
      (Call.report out) := operation_ok hquiet (Prod.ext hanswer.symm rfl)
  unfold Attributed at hoperation ⊢
  rw [hdevice]
  exact hoperation

/-- **A repair reads its own answers.**  The device answers the first `OpenSession` itself; and
when a session is open there, the answer to the second `OpenSession` is its own as well,
whatever became of the answer to the `CloseSession` between them. -/
theorem repair_reads_its_own {out : SessionOpen} (hsound : s.Sound) (hquiet : s.Quiet)
    (hclears : (closeSession (openSession id s).2).2.device.Clears)
    (hrun : openSessionOrRepair id s = (.ok out, s')) :
    ∃ first t, openSession id s = (.ok first, t) ∧ s.Attributed t (Call.report first) ∧
      (out.repaired = true ↔ first.responseCode = Resp.sessionAlreadyOpen) ∧
      (out.repaired = false → out.outcome = first ∧ out.wedged = false ∧ s' = t) ∧
      (out.repaired = true → out.dropped = (closeSession t).2.device.held ∧
        (recover (closeSession t).2).2.Attributed s' (Call.report out.outcome) ∧
        (out.wedged = true ↔ out.outcome.responseCode = Resp.sessionAlreadyOpen)) := by
  obtain ⟨first, t, hfirst, hrest⟩ := bind_eq_ok hrun
  rw [hfirst] at hclears
  refine ⟨first, t, hfirst, openSession_attributed hquiet hfirst, ?_⟩
  by_cases halready : first.responseCode = Resp.sessionAlreadyOpen
  · rw [if_neg (not_not_intro halready)] at hrest
    obtain ⟨closed, u, hclose, hrest⟩ := bind_eq_ok hrest
    cases hclose
    obtain ⟨dropped, v, hrecover, hrest⟩ := bind_eq_ok hrest
    cases hrecover
    obtain ⟨second, w, hsecond, hlast⟩ := bind_eq_ok hrest
    cases hlast
    -- The recovery empties the pipe, whatever the close left in it.
    have hsoundT : Sound t := by
      have hopen := hsound.openSession id
      rw [hfirst] at hopen
      exact hopen
    have hempty := recover_empties hsoundT.closeSession.buffer hsoundT.closeSession.whole hclears
    obtain ⟨reads, waiting, hsame⟩ := recover_same hsoundT.closeSession.buffer
    have houtsideT : t.device.awaiting = 0 := by
      have hdevice := (openSession_device_eq s id).2
      rw [hfirst] at hdevice
      rw [show t.device = _ from hdevice]
      exact operation_awaiting hquiet.awaiting
    have houtside : (recover (closeSession t).2).2.device.awaiting = 0 := by
      rw [hsame, closeSession_device_eq]
      exact operation_awaiting houtsideT
    have hcount : (recover (closeSession t).2).1 = (closeSession t).2.device.held :=
      ((quiet_recover_iff hsoundT.closeSession.buffer hsoundT.closeSession.whole).mp
        ⟨hempty, houtside⟩).1
    refine ⟨⟨fun _ => halready, fun _ => rfl⟩, nofun, fun _ => ⟨hcount, ?_, decide_eq_true_iff⟩⟩
    exact openSession_attributed ⟨hempty, houtside⟩ hsecond
  · rw [if_pos halready] at hrest
    cases hrest
    refine ⟨⟨nofun, fun h => absurd h halready⟩, fun _ => ⟨rfl, rfl, rfl⟩, nofun⟩

/-- Which reads work is not up to the host. -/
theorem moves_plan : Moves fun s t : Session Pipe => t.device.plan = s.device.plan where
  refl _ := rfl
  trans h h' := h'.trans h
  read _ s := by
    show ((Transport.read s.config.readBuffer s.config.timeout : Proc UsbError Pipe Bytes)
      s.device).2.plan = s.device.plan
    simp only [Transport.read, Pipe.give]
    cases s.device.plan s.device.reads with
    | none => rfl
    | some n => cases s.device.waiting <;> rfl
  write _ bytes s := by
    show (s.device.enter bytes).plan = s.device.plan
    unfold Pipe.enter
    split
    · rfl
    · split
      · rfl
      · split <;> rfl
  next _ := rfl

/-- A device on which a session stays open whatever it answers, over a pipe whose second read
passes its deadline. -/
def stuck : Pipe where
  behave history :=
    [⟨.response, if history.length = 2 then Resp.ok else Resp.sessionAlreadyOpen, [],
      Nat.zero_le _⟩]
  plan n := if n = 1 then none else some 512
  history := []
  reads := 0
  command := none
  awaiting := 0
  waiting := []
  made := []

/-- The success that answers the close comes late, and the repair does not take it for the answer
to the second `OpenSession`. -/
theorem repair_reads_its_own_stuck :
    let s := newWithoutRecovery stuck Config.default
    ∃ t, (recover (closeSession t).2).2.Attributed (openSessionOrRepair 1 s).2
      ⟨Resp.sessionAlreadyOpen, [], []⟩ := by
  intro s
  have hsound : Sound s := by
    refine ⟨fun w hw => ?_, by decide⟩
    cases hw
  have hclears : (closeSession (openSession 1 s).2).2.device.Clears := by
    have hreads : (closeSession (openSession 1 s).2).2.device.reads = 2 := by decide +kernel
    have hplan : (closeSession (openSession 1 s).2).2.device.plan = stuck.plan := by
      rw [closeSession_device_eq]
      apply (moves_plan.operation _).trans
      rw [(openSession_device_eq s 1).2]
      exact moves_plan.operation s
    refine ⟨fun k _ => ⟨511, ?_⟩, by decide +kernel⟩
    rw [hreads, hplan]
    exact if_neg (by omega)
  have hrun : openSessionOrRepair 1 s = (.ok
      ⟨⟨Resp.sessionAlreadyOpen, [], [], 1⟩, true, none, 12, true⟩,
      (openSessionOrRepair 1 s).2) := Prod.ext (by decide +kernel) rfl
  obtain ⟨first, t, -, -, -, -, hrepaired⟩ := repair_reads_its_own hsound ⟨rfl, rfl⟩ hclears hrun
  exact ⟨t, (hrepaired rfl).2.1⟩

/-! ### On a device that executes what it hears -/

section Keeper

variable {s s' : Session Keeper}

/-- The session once it read from the device. -/
def drawn (s : Session Keeper) : Session Keeper :=
  { s with device := (s.device.give s.config.readBuffer).2 }

/-- The first read of an operation. -/
theorem readOnce_drawn (s : Session Keeper) : (besides (readOnce step) :
    Proc SessionError (Session Keeper × Bytes) Bytes) (s, []) =
      ((s.device.give s.config.readBuffer).1.mapError (.usb step), (s.drawn, [])) := rfl

/-- An operation whose answer is the first that waits. -/
theorem operation_first {r : UInt16} {tid : UInt32} {rest : List Bytes}
    (hwaiting : (s.told code params).device.waiting = Keeper.response r tid :: rest)
    (hworks : s.device.fate s.device.reads = .works)
    (hbuffer : readBufferMin ≤ s.config.readBuffer) :
    ∃ t, operation step code params s = (.ok ⟨r, [], [], 1⟩, t) := by
  obtain ⟨-, hfate, hreads⟩ := told_keeps s code params
  have hlength : (Keeper.response r tid).length ≤ s.config.readBuffer := by
    rw [Keeper.response, length_pushHeader]
    unfold readBufferMin at hbuffer
    omega
  have hgive : ((s.told code params).device.give (s.told code params).config.readBuffer).1 =
      .ok (Keeper.response r tid) := by
    rw [Keeper.give, hfate, hreads, hworks, hwaiting]
    exact congrArg Except.ok (List.take_of_length_le hlength)
  have hread := @readOnce_drawn step (s.told code params)
  rw [hgive] at hread
  obtain ⟨hheader, hparse⟩ := parse_response r tid
  rw [operation_eq, collected, readAnswer, bind_ok hread, hheader,
    bind_ok (mapError_ofExcept_ok _ _ _)]
  dsimp only
  rw [hparse, bind_ok (mapError_ofExcept_ok _ _ _)]
  exact ⟨_, rfl⟩

/-- An operation where nothing waits has no answer. -/
theorem operation_none (hwaiting : (s.told code params).device.waiting = []) :
    ∃ e t, operation step code params s = (.error e, t) := by
  have hgive : ∃ e, ((s.told code params).device.give
      (s.told code params).config.readBuffer).1 = .error e := by
    rw [Keeper.give, hwaiting]
    split <;> exact ⟨_, rfl⟩
  obtain ⟨e, hgive⟩ := hgive
  have hread := @readOnce_drawn step (s.told code params)
  rw [hgive] at hread
  refine ⟨.usb step e, (s.told code params).drawn, ?_⟩
  rw [operation_eq, collected, readAnswer, bind_error hread]

/-- When all that waits says `r`, an operation that gives an answer gives `r`. -/
theorem operation_says {r : UInt16} {out : Outcome}
    (hall : ∀ w ∈ (s.told code params).device.waiting, ∃ tid, w = Keeper.response r tid)
    (hbuffer : readBufferMin ≤ s.config.readBuffer)
    (hrun : operation step code params s = (.ok out, s')) : out.responseCode = r := by
  by_cases hworks : Reads s 0
  · cases hwaiting : (s.told code params).device.waiting with
    | nil =>
        obtain ⟨e, t, herror⟩ := @operation_none step code params s hwaiting
        rw [hrun] at herror
        cases herror
    | cons w rest =>
        obtain ⟨tid, rfl⟩ := hall w (by rw [hwaiting]; exact List.mem_cons_self)
        obtain ⟨t, hfirst⟩ := @operation_first step code params s r tid rest hwaiting hworks hbuffer
        rw [hrun] at hfirst
        cases hfirst
        rfl
  · obtain ⟨e, lost, hfails⟩ := not_reads hworks
    obtain ⟨t, herror, -⟩ := @operation_unread s step code params e lost hfails
    rw [hrun] at herror
    cases herror

/-- Between two states the host took whole containers from the pipe. -/
structure Taken (s t : Session Keeper) : Prop where
  config : t.config = s.config
  waiting : (∀ w ∈ s.device.waiting, w.length ≤ s.config.readBuffer) →
    ∀ w ∈ t.device.waiting, w ∈ s.device.waiting

theorem Taken.refl (s : Session Keeper) : Taken s s := ⟨rfl, fun _ _ hw => hw⟩

theorem Taken.trans {t u : Session Keeper} (h : Taken s t) (h' : Taken t u) : Taken s u := by
  refine ⟨h'.config.trans h.config, fun hfull w hw => ?_⟩
  apply h.waiting hfull
  apply h'.waiting
  · intro v hv
    rw [h.config]
    exact hfull v (h.waiting hfull v hv)
  · exact hw

theorem give_taken (s : Session Keeper) :
    Taken s s.drawn := by
  refine ⟨rfl, fun hfull w hw => ?_⟩
  unfold drawn Keeper.give at hw
  dsimp only at hw
  split at hw
  · split at hw
    · exact List.mem_of_mem_tail hw
    · exact hw
  · split at hw
    · exact hw
    · rename_i v rest hwaiting
      have hle : v.length ≤ s.config.readBuffer :=
        hfull v (by rw [hwaiting]; exact List.mem_cons_self)
      rw [if_pos hle] at hw
      rw [hwaiting]
      exact List.mem_cons_of_mem _ hw

theorem operation_taken (s : Session Keeper) (step : String) (code : UInt16)
    (params : List UInt32) : Taken (s.told code params) (operation step code params s).2 := by
  have hsteps := @readAnswer_steps Keeper _ Bytes _ step (fun p q => Taken p.1 q.1)
    (fun p => .refl p.1) (fun h h' => h.trans h') (fun p => give_taken p.1)
    (fun bytes p => .refl p.1)
  rw [operation_eq]
  exact steps_collected (R := Taken) hsteps (s.told code params)

theorem recover_taken (s : Session Keeper) : Taken s (recover s).2 := by
  have hdrain : ∀ (rounds deadline dropped : Nat) (s : Session Keeper), Taken s {
      s with
      device := (drainFrom s.config.readBuffer rounds deadline dropped s.device).2 } := by
    intro rounds
    induction rounds with
    | zero =>
        intro deadline dropped s
        exact .refl s
    | succ rounds ih =>
        intro deadline dropped s
        have hgive := give_taken s
        rw [drainFrom]
        rcases hread : (Transport.read s.config.readBuffer deadline :
            Proc UsbError Keeper Bytes) s.device with ⟨e | bytes, d⟩
        · have hd : (s.device.give s.config.readBuffer).2 = d := congrArg Prod.snd hread
          rw [drawn, hd] at hgive
          exact hgive
        · have hd : (s.device.give s.config.readBuffer).2 = d := congrArg Prod.snd hread
          rw [drawn, hd] at hgive
          dsimp only
          split
          · exact hgive
          · exact hgive.trans (ih _ _ { s with device := d })
  exact hdrain _ _ _ s

/-- The device answers an `OpenSession` with a success exactly when no session is open. -/
theorem told_open (s : Session Keeper) (id : UInt32) :
    (s.told Op.openSession [id]).device.waiting = s.device.waiting ++
        [Keeper.response (if s.device.held = none then Resp.ok else Resp.sessionAlreadyOpen)
          s.transaction] ∧
      (s.device.held = none → (s.told Op.openSession [id]).device.held = some .here) := by
  rw [told, hear_command]
  dsimp only
  rw [if_pos rfl]
  cases s.device.held with
  | none => exact ⟨rfl, fun _ => rfl⟩
  | some o =>
      refine ⟨rfl, ?_⟩
      intro hnone
      cases hnone

/-- The device answers a `CloseSession` with a success when a session is open. -/
theorem told_close (hheld : s.device.held ≠ none) :
    (s.told Op.closeSession []).device.waiting =
      s.device.waiting ++ [Keeper.response Resp.ok s.transaction] := by
  rw [told, hear_command]
  dsimp only
  rw [if_neg (by decide), if_pos rfl]
  cases hopen : s.device.held with
  | none => contradiction
  | some o => rfl

/-- An `OpenSession` whose answer is read, on a device with no session, after nothing but
successes. -/
theorem openSession_opens {id : UInt32} {out : Outcome}
    (hbuffer : readBufferMin ≤ s.config.readBuffer) (hheld : s.device.held = none)
    (hwaiting : ∀ w ∈ s.device.waiting, ∃ tid, w = Keeper.response Resp.ok tid)
    (hrun : openSession id s = (.ok out, s')) :
    out.isOk = true ∧ s'.device.held = some .here ∧ s'.sessionOpen = true := by
  obtain ⟨hanswer, hhere⟩ := told_open s id
  rw [if_pos hheld] at hanswer
  obtain ⟨o, t, hoperation, hrest⟩ := bind_eq_ok hrun
  have hcode : o.responseCode = Resp.ok := by
    apply operation_says _ hbuffer hoperation
    intro w hw
    rw [hanswer] at hw
    rcases List.mem_append.mp hw with hold | hnew
    · exact hwaiting w hold
    · exact ⟨s.transaction, List.mem_singleton.mp hnew⟩
  have hok : o.isOk = true := decide_eq_true hcode
  rw [if_pos (.inl hok)] at hrest
  cases hrest
  have hread := operation_onlyRead s "OpenSession" Op.openSession [id]
  rw [hoperation] at hread
  exact ⟨hok, hread.held.trans (hhere hheld), rfl⟩

/-- After a close and a recovery no session is open, and only the success of the close can wait. -/
theorem close_and_recover (hbuffer : readBufferMin ≤ s.config.readBuffer)
    (hwaiting : s.device.waiting = []) (hheld : s.device.held ≠ none) :
    (recover (closeSession s).2).2.device.held = none ∧
      (recover (closeSession s).2).2.config = s.config ∧
      ∀ w ∈ (recover (closeSession s).2).2.device.waiting, ∃ tid,
        w = Keeper.response Resp.ok tid := by
  have hread := operation_onlyRead s "CloseSession" Op.closeSession []
  have htaken := operation_taken s "CloseSession" Op.closeSession []
  have hrecover := recover_onlyRead (closeSession s).2
  have hrest := recover_taken (closeSession s).2
  have hanswer := told_close hheld
  rw [hwaiting, List.nil_append] at hanswer
  have hconfig : (closeSession s).2.config = s.config := by
    rw [closeSession_config, hread.config]
    rfl
  have hleft : ∀ w ∈ (closeSession s).2.device.waiting,
      w = Keeper.response Resp.ok s.transaction := by
    intro w hw
    rw [closeSession_device] at hw
    have hmem := htaken.waiting (by
      intro v hv
      rw [hanswer] at hv
      rw [List.mem_singleton.mp hv, Keeper.response, length_pushHeader]
      show 12 ≤ s.config.readBuffer
      unfold readBufferMin at hbuffer
      omega) w hw
    rw [hanswer] at hmem
    exact List.mem_singleton.mp hmem
  refine ⟨?_, hrecover.config.trans hconfig, ?_⟩
  · rw [hrecover.held, closeSession_device, hread.held]
    exact told_closed s
  · intro w hw
    refine ⟨s.transaction, hleft w (hrest.waiting ?_ w hw)⟩
    intro v hv
    rw [hleft v hv, Keeper.response, length_pushHeader, hconfig]
    unfold readBufferMin at hbuffer
    omega

/-- **A repair opens a session.**  On a device that executes what it hears, whichever answers are
lost or late, a repair that gives an outcome opened a session of its own, the session knows it,
and no device looks wedged; it closed a session first exactly when one was open. -/
theorem repair_opens {id : UInt32} {out : SessionOpen}
    (hbuffer : readBufferMin ≤ s.config.readBuffer) (hwaiting : s.device.waiting = [])
    (hrun : openSessionOrRepair id s = (.ok out, s')) :
    s'.device.held = some .here ∧ s'.sessionOpen = true ∧ out.outcome.isOk = true ∧
      out.wedged = false ∧ (out.repaired = true ↔ s.device.held ≠ none) := by
  obtain ⟨first, t, hfirst, hrest⟩ := bind_eq_ok hrun
  by_cases hheld : s.device.held = none
  · have hnone : ∀ w ∈ s.device.waiting, ∃ tid, w = Keeper.response Resp.ok tid := by
      intro w hw
      rw [hwaiting] at hw
      cases hw
    obtain ⟨hok, hhere, hopen⟩ := openSession_opens hbuffer hheld hnone hfirst
    have hcode : first.responseCode ≠ Resp.sessionAlreadyOpen := by
      rw [of_decide_eq_true hok]
      decide
    rw [if_pos hcode] at hrest
    cases hrest
    exact ⟨hhere, hopen, hok, rfl, nofun, fun h => absurd hheld h⟩
  · have hreads : Reads s 0 := by
      by_contra hfails
      obtain ⟨e, lost, hfails⟩ := not_reads hfails
      obtain ⟨u, herror, -⟩ :=
        @operation_unread s "OpenSession" Op.openSession [id] e lost hfails
      rw [openSession, bind_error herror] at hfirst
      cases hfirst
    have hgiven := @openSession_reads s id hbuffer hwaiting hreads
    have hstill : (s.told Op.openSession [id]).device.held ≠ none := by
      rw [told_held hheld (by decide)]
      exact hheld
    have hopened : first.responseCode = Resp.sessionAlreadyOpen ∧ t.device.waiting = [] ∧
        t.device.held ≠ none ∧ t.config = s.config := by
      rw [if_neg hheld, hfirst] at hgiven
      cases hgiven
      exact ⟨rfl, rfl, hstill, rfl⟩
    obtain ⟨halready, hempty, hheldT, hconfigT⟩ := hopened
    rw [if_neg (not_not_intro halready)] at hrest
    obtain ⟨closed, u, hclose, hrest⟩ := bind_eq_ok hrest
    obtain rfl : (closeSession t).2 = u := congrArg Prod.snd hclose
    obtain ⟨dropped, v, hrecover, hrest⟩ := bind_eq_ok hrest
    obtain rfl : (recover (closeSession t).2).2 = v := congrArg Prod.snd hrecover
    obtain ⟨second, w, hsecond, hlast⟩ := bind_eq_ok hrest
    cases hlast
    -- The close cleared the way, and what is left of its answer says success.
    have hbufferT : readBufferMin ≤ t.config.readBuffer := by
      rw [hconfigT]
      exact hbuffer
    obtain ⟨hnone, hconfig, hsays⟩ := close_and_recover hbufferT hempty hheldT
    have hbufferV : readBufferMin ≤ (recover (closeSession t).2).2.config.readBuffer := by
      rw [hconfig]
      exact hbufferT
    obtain ⟨hok, hhere, hopen⟩ := openSession_opens hbufferV hnone hsays hsecond
    refine ⟨hhere, hopen, hok, ?_, fun _ => hheld, fun _ => rfl⟩
    apply decide_eq_false
    show second.responseCode ≠ Resp.sessionAlreadyOpen
    rw [of_decide_eq_true hok]
    decide

/-- A device that an earlier program left with a session open, on which the answer to the second
command is late. -/
def leftOpen : Keeper where
  held := some .earlier
  waiting := []
  fate n := if n = 1 then .fails (.transfer 0x81 .timedOut) false else .works
  reads := 0
  answers := fun _ => []
  wrote := []

/-- The repair drops the late answer, and opens a session of its own. -/
theorem repair_opens_leftOpen :
    (openSessionOrRepair 1 (newWithoutRecovery leftOpen Config.default)).2.device.held =
      some .here := by
  have hanswer : (openSessionOrRepair 1 (newWithoutRecovery leftOpen Config.default)).1 =
      .ok ⟨⟨Resp.ok, [], [], 1⟩, true, none, 12, false⟩ := by decide +kernel
  rcases hrun : openSessionOrRepair 1 (newWithoutRecovery leftOpen Config.default) with ⟨r, t⟩
  rw [hrun] at hanswer
  cases hanswer
  exact (repair_opens (by decide) rfl hrun).1

end Keeper

end Session

end Bsdroid
