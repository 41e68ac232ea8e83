import Bsdroid.MtpSession.Attribution
import Bsdroid.MtpSession.Sending

/-!
# Transfers of a data phase

A data phase arrives in transfers of any sizes.  The session joins them until the declared
count is there.  It neither looks whether the last transfer brought more than was left
(`Session.exact_phase_iff`), nor goes on when the transfers are many and small
(`Session.read_limit_iff`).
-/

namespace Bsdroid

namespace Session

open Proc

variable {ω : Type} {step : String} {s : Session Receiver} {w w' : ω} {chunks : List Bytes}

/-- The `n`-th transfer from now on, as a read of the host takes it. -/
def nextTransfer (s : Session Receiver) (n : Nat) : Except UsbError Bytes :=
  (s.device.answers (s.device.reads + n)).map (List.take s.config.readBuffer)

/-- The session after so many reads. -/
def readOn (s : Session Receiver) (n : Nat) : Session Receiver :=
  { s with device := { s.device with reads := s.device.reads + n } }

/-- The transfers that arrive next. -/
def Arrives (s : Session Receiver) (chunks : List Bytes) : Prop :=
  ∀ n c, chunks[n]? = some c → s.nextTransfer n = .ok c

@[simp] theorem readOn_zero (s : Session Receiver) : s.readOn 0 = s := rfl

@[simp] theorem readOn_config (s : Session Receiver) (n : Nat) :
    (s.readOn n).config = s.config := rfl

theorem readOn_readOn (s : Session Receiver) (n k : Nat) :
    (s.readOn n).readOn k = s.readOn (n + k) := by
  simp only [readOn, Nat.add_assoc]

theorem nextTransfer_readOn (s : Session Receiver) (n k : Nat) :
    (s.readOn n).nextTransfer k = s.nextTransfer (n + k) := by
  simp only [nextTransfer, readOn, Nat.add_assoc]

theorem arrives_cons {c : Bytes} :
    Arrives s (c :: chunks) ↔ s.nextTransfer 0 = .ok c ∧ Arrives (s.readOn 1) chunks := by
  constructor
  · intro h
    refine ⟨h 0 c rfl, fun n d hd => ?_⟩
    rw [nextTransfer_readOn, Nat.add_comm]
    exact h (n + 1) d hd
  · rintro ⟨hfirst, hrest⟩ n d hd
    cases n with
    | zero =>
        cases hd
        exact hfirst
    | succ n =>
        have hnext := hrest n d hd
        rwa [nextTransfer_readOn, Nat.add_comm] at hnext

/-- One read of the host. -/
theorem readOnce_run (s : Session Receiver) :
    readOnce step s = ((s.nextTransfer 0).mapError (.usb step), s.readOn 1) := rfl

theorem besides_readOnce {bytes : Bytes} (hnext : s.nextTransfer 0 = .ok bytes) :
    (besides (readOnce step) : Proc SessionError (Session Receiver × ω) Bytes) (s, w) =
      (.ok bytes, (s.readOn 1, w)) := by
  show (((readOnce step) s).1, ((readOnce step s).2, w)) = _
  rw [readOnce_run, hnext]
  rfl

theorem besides_readOnce_ok {bytes : Bytes} {p : Session Receiver × ω}
    (hrun : (besides (readOnce step) : Proc SessionError (Session Receiver × ω) Bytes) (s, w) =
      (.ok bytes, p)) : s.nextTransfer 0 = .ok bytes ∧ p = (s.readOn 1, w) := by
  have hread : (besides (readOnce step) : Proc SessionError (Session Receiver × ω) Bytes) (s, w) =
      ((s.nextTransfer 0).mapError (.usb step), (s.readOn 1, w)) := rfl
  rw [hread] at hrun
  cases hnext : s.nextTransfer 0 with
  | error e =>
      rw [hnext] at hrun
      cases hrun
  | ok b =>
      rw [hnext] at hrun
      cases hrun
      exact ⟨rfl, rfl⟩

/-- Two runs of transfers agree as far as both go. -/
theorem Arrives.prefix_or {chunks' : List Bytes} (h : Arrives s chunks) (h' : Arrives s chunks') :
    chunks <+: chunks' ∨ chunks' <+: chunks := by
  induction chunks generalizing s chunks' with
  | nil => exact .inl (List.nil_prefix)
  | cons c cs ih =>
      cases chunks' with
      | nil => exact .inr (List.nil_prefix)
      | cons c' cs' =>
          obtain ⟨hfirst, hrest⟩ := arrives_cons.mp h
          obtain ⟨hfirst', hrest'⟩ := arrives_cons.mp h'
          cases hfirst.symm.trans hfirst'
          exact (ih hrest hrest').imp (fun hp => List.cons_prefix_cons.mpr ⟨rfl, hp⟩)
            fun hp => List.cons_prefix_cons.mpr ⟨rfl, hp⟩

/-! ## More than was declared -/

section Joined

variable [LawfulWriter ω] {s' : Session Receiver} {declared rounds : Nat}
  {progress progress' : Progress}

/-- The loop joins the transfers that arrive, and stops behind the one that completes the
declared count. -/
structure Joined (s : Session Receiver) (w w' : ω) (declared : Nat) (progress progress' : Progress)
    (chunks : List Bytes) : Prop where
  arrives : Arrives s chunks
  haveBytes : progress'.haveBytes = progress.haveBytes + chunks.flatten.length
  payloadBytes : progress'.payloadBytes = progress.payloadBytes + chunks.flatten.length
  written : LawfulWriter.written w' = LawfulWriter.written w ++ chunks.flatten
  stops : ∀ front c, front ++ [c] <+: chunks →
    progress.haveBytes + front.flatten.length < declared

theorem Joined.nil (s : Session Receiver) (w : ω) (declared : Nat) (progress : Progress)
    (reads : Nat) : Joined s w w declared progress { progress with reads := reads } [] where
  arrives n c h := nomatch h
  haveBytes := rfl
  payloadBytes := rfl
  written := (List.append_nil _).symm
  stops front c h := by
    have hnil := List.prefix_nil.mp h
    cases front with
    | nil => cases hnil
    | cons a front => cases hnil

theorem readRest_joins (hrun : readRest step declared rounds progress (s, w) =
    (.ok progress', (s', w'))) : ∃ chunks, Joined s w w' declared progress progress' chunks := by
  induction rounds generalizing s w progress with
  | zero =>
      cases hrun
      exact ⟨[], .nil _ _ _ _ _⟩
  | succ rounds ih =>
      rw [readRest] at hrun
      by_cases hdone : progress.haveBytes ≥ declared
      · rw [if_pos hdone] at hrun
        cases hrun
        exact ⟨[], .nil _ _ _ _ _⟩
      · rw [if_neg hdone] at hrun
        obtain ⟨more, q, hread, hrun⟩ := bind_eq_ok hrun
        obtain ⟨hnext, rfl⟩ := besides_readOnce_ok hread
        by_cases hempty : more.isEmpty = true
        · rw [if_pos hempty] at hrun
          cases hrun
          exact ⟨[], .nil _ _ _ _ _⟩
        · rw [if_neg hempty] at hrun
          obtain ⟨⟨⟩, ⟨s₁, w₁⟩, hwrite, hrun⟩ := bind_eq_ok hrun
          obtain ⟨hsame, hwritten⟩ := writeOut_ok hwrite
          dsimp only at hsame
          subst hsame
          obtain ⟨chunks, hjoined⟩ := ih hrun
          refine ⟨more :: chunks, arrives_cons.mpr ⟨hnext, hjoined.arrives⟩, ?_, ?_, ?_, ?_⟩
          · rw [hjoined.haveBytes, List.flatten_cons, List.length_append, Nat.add_assoc]
          · rw [hjoined.payloadBytes, List.flatten_cons, List.length_append, Nat.add_assoc]
          · rw [hjoined.written, hwritten, List.flatten_cons, List.append_assoc]
          · intro front c hfront
            cases front with
            | nil =>
                rw [List.flatten_nil, List.length_nil, Nat.add_zero]
                exact Nat.lt_of_not_le hdone
            | cons a front =>
                obtain ⟨rfl, hrest⟩ := List.cons_prefix_cons.mp hfront
                have hless := hjoined.stops front c hrest
                rw [List.flatten_cons, List.length_append, ← Nat.add_assoc]
                exact hless

/-- An answer that was read, and whose first container is a data container. -/
theorem readAnswer_joins {o : StreamOutcome} {first : Bytes} {header : Header}
    (hrun : readAnswer step (s, w) = (.ok o, (s', w'))) (hfirst : s.nextTransfer 0 = .ok first)
    (hheader : Header.parse first = .ok header) (hkind : header.kind = .data) :
    ∃ chunks, Arrives s (first :: chunks) ∧ headerLen ≤ first.length ∧
      header.length.toNat ≤ (first :: chunks).flatten.length ∧
      o.bytes = (first :: chunks).flatten.length - headerLen ∧
      LawfulWriter.written w' =
        LawfulWriter.written w ++ (first :: chunks).flatten.drop headerLen ∧
      ∀ front c, first :: front ++ [c] <+: first :: chunks →
        (first :: front).flatten.length < header.length.toNat := by
  have hlong : headerLen ≤ first.length := by
    by_contra hshort
    rw [Header.parse, if_pos (Nat.lt_of_not_le hshort)] at hheader
    cases hheader
  rw [readAnswer, bind_ok (besides_readOnce hfirst), hheader,
    bind_ok (mapError_ofExcept_ok _ _ _)] at hrun
  simp only [hkind] at hrun
  split at hrun
  · cases hrun
  rw [Nat.min_eq_right hlong] at hrun
  obtain ⟨⟨⟩, ⟨s₁, w₁⟩, hwrite, hrun⟩ := bind_eq_ok hrun
  obtain ⟨hsame, hwritten⟩ := writeOut_ok hwrite
  dsimp only at hsame
  subst hsame
  rw [bind_ok (get_run _)] at hrun
  dsimp only at hrun
  obtain ⟨progress, ⟨s₂, w₂⟩, hrest, hrun⟩ := bind_eq_ok hrun
  split at hrun
  · cases hrun
  rename_i hcomplete
  obtain ⟨last, ⟨s₃, w₃⟩, hlast, hrun⟩ := bind_eq_ok hrun
  obtain ⟨-, hlast⟩ := besides_readOnce_ok hlast
  cases hlast
  obtain ⟨c, ⟨s₄, w₄⟩, hc, hrun⟩ := bind_eq_ok hrun
  obtain ⟨-, hc⟩ := mapError_ofExcept_eq_ok hc
  cases hc
  split at hrun
  · cases hrun
  cases hrun
  obtain ⟨chunks, hjoined⟩ := readRest_joins hrest
  have hhave := hjoined.haveBytes
  have hpayload := hjoined.payloadBytes
  dsimp only at hhave hpayload
  refine ⟨chunks, arrives_cons.mpr ⟨hfirst, hjoined.arrives⟩, hlong, ?_, ?_, ?_, ?_⟩
  · rw [List.flatten_cons, List.length_append]
    omega
  · rw [List.flatten_cons, List.length_append]
    dsimp only
    omega
  · rw [hjoined.written, hwritten, List.flatten_cons, List.drop_append_of_le_length hlong,
      List.append_assoc]
  · intro front c hfront
    have hless := hjoined.stops front c (List.cons_prefix_cons.mp hfront).2
    rw [List.flatten_cons, List.length_append]
    exact hless

/-- A data phase is exactly as long as its header says, and the bytes are the payload bytes of
the transfers in order. -/
structure ExactPhase (s : Session Receiver) (w w' : ω) (declared : Nat) (o : StreamOutcome) :
    Prop where
  header : headerLen ≤ declared
  counted : o.bytes = declared - headerLen
  written : ∃ chunks data, Arrives s chunks ∧ data = chunks.flatten.drop headerLen ∧
    data.length = declared - headerLen ∧
      LawfulWriter.written w' = LawfulWriter.written w ++ data

/-- The transfers that arrive make up exactly the declared length. -/
def MakesUp (s : Session Receiver) (declared : Nat) : Prop :=
  ∃ chunks, Arrives s chunks ∧ chunks.flatten.length = declared

theorem exactPhase_of_readAnswer {o : StreamOutcome} {first : Bytes} {header : Header}
    (hrun : readAnswer step (s, w) = (.ok o, (s', w'))) (hfirst : s.nextTransfer 0 = .ok first)
    (hheader : Header.parse first = .ok header) (hkind : header.kind = .data) :
    ExactPhase s w w' header.length.toNat o ↔
      headerLen ≤ header.length.toNat ∧ MakesUp s header.length.toNat := by
  obtain ⟨chunks, harrives, hlong, hcomplete, hbytes, hwritten, hstops⟩ :=
    readAnswer_joins hrun hfirst hheader hkind
  have hall : headerLen ≤ (first :: chunks).flatten.length := by
    rw [List.flatten_cons, List.length_append]
    omega
  constructor
  · rintro ⟨hdeclared, hcounted, -⟩
    exact ⟨hdeclared, first :: chunks, harrives, by omega⟩
  · rintro ⟨hdeclared, others, harrives', htotal⟩
    -- The loop stops no later than where the transfers make up the declared length.
    have htotal' : (first :: chunks).flatten.length = header.length.toNat := by
      rcases harrives.prefix_or harrives' with ⟨rest, hrest⟩ | ⟨rest, hrest⟩
      · have hlength := congrArg (fun cs : List Bytes => cs.flatten.length) hrest
        simp only [List.flatten_append, List.length_append] at hlength
        omega
      · cases others with
        | nil =>
            rw [List.flatten_nil, List.length_nil] at htotal
            unfold headerLen at hdeclared
            omega
        | cons first' front =>
            obtain ⟨rfl, hfront⟩ := List.cons.inj hrest
            cases rest with
            | nil =>
                rw [List.append_nil] at hrest
                rw [← hrest]
                exact htotal
            | cons c rest =>
                have hless := hstops front c ⟨rest, by rw [← hfront]; simp⟩
                omega
    refine ⟨hdeclared, by omega, first :: chunks, _, harrives, rfl, ?_, hwritten⟩
    rw [List.length_drop]
    omega

/-- What arrives does not depend on what the host writes. -/
theorem nextTransfer_wrote (s : Session Receiver) (bytes : Bytes) :
    (s.wrote bytes).nextTransfer = s.nextTransfer := by
  have hkeeps : ∀ packets, (s.device.take packets).answers = s.device.answers ∧
      (s.device.take packets).reads = s.device.reads := by
    intro packets
    unfold Receiver.take
    split
    · exact ⟨rfl, rfl⟩
    · split
      · exact ⟨rfl, rfl⟩
      · split <;> exact ⟨rfl, rfl⟩
  funext n
  obtain ⟨hanswers, hreads⟩ := hkeeps (s.device.arriving bytes)
  simp only [nextTransfer, wrote, hanswers, hreads]

/-- An operation is a write and the answer to it. -/
theorem operationStream_asks {code : UInt16} {params : List UInt32} {o : StreamOutcome}
    {p : Session Receiver × ω} (hrun : operationStream step code params (s, w) = (.ok o, p)) :
    readAnswer step (s.numbered.wrote (buildCommand code s.transaction params), w) = (.ok o, p) := by
  obtain ⟨tid, p₁, htid, hrun⟩ := bind_eq_ok hrun
  cases htid
  obtain ⟨⟨⟩, p₂, hwrite, hrun⟩ := bind_eq_ok hrun
  obtain ⟨r, hwrote⟩ :=
    @writeAll_run step s.numbered (buildCommand code s.transaction params)
  have hp : p₂ = (s.numbered.wrote (buildCommand code s.transaction params), w) := by
    have hrest : besides (writeAll step (buildCommand code s.transaction params)) (s.numbered, w) =
        (.ok (), p₂) := hwrite
    rw [besides_run, hwrote] at hrest
    exact (Prod.mk.inj hrest).2.symm
  rwa [hp] at hrun

/-- **A data phase is exactly as long as declared when the declared length counts the header,
and the transfers make it up.**  Of one that is longer every byte goes to the writer, and none
of it is a fault. -/
theorem exact_phase_iff {code : UInt16} {params : List UInt32} {o : StreamOutcome} {first : Bytes}
    {header : Header} (hrun : operationStream step code params (s, w) = (.ok o, (s', w')))
    (hfirst : s.nextTransfer 0 = .ok first) (hheader : Header.parse first = .ok header)
    (hkind : header.kind = .data) :
    ExactPhase s w w' header.length.toNat o ↔
      headerLen ≤ header.length.toNat ∧ MakesUp s header.length.toNat := by
  have hnext : (s.numbered.wrote (buildCommand code s.transaction params)).nextTransfer =
      s.nextTransfer := nextTransfer_wrote _ _
  have harrives : ∀ chunks,
      Arrives (s.numbered.wrote (buildCommand code s.transaction params)) chunks ↔
        Arrives s chunks := by
    intro chunks
    rw [Arrives, Arrives, hnext]
  have hanswer := exactPhase_of_readAnswer (operationStream_asks hrun)
    ((congrFun hnext 0).trans hfirst) hheader hkind
  unfold MakesUp at hanswer ⊢
  simp only [harrives] at hanswer
  refine Iff.trans ⟨?_, ?_⟩ hanswer
  · rintro ⟨hdeclared, hcounted, chunks, data, hchunks, hrest⟩
    exact ⟨hdeclared, hcounted, chunks, data, (harrives chunks).mpr hchunks, hrest⟩
  · rintro ⟨hdeclared, hcounted, chunks, data, hchunks, hrest⟩
    exact ⟨hdeclared, hcounted, chunks, data, (harrives chunks).mp hchunks, hrest⟩

end Joined

/-- A device that answers with these transfers, in this order. -/
def answering (transfers : List Bytes) : Receiver where
  packet := usb2Packet
  plan _ := none
  answers n := (transfers[n]?).elim (.error (.transfer 0x81 .timedOut)) .ok
  reads := 0
  wrote := []
  outstanding := 0
  payload := []
  commands := []

/-- A session with such a device. -/
def listening (transfers : List Bytes) : Session Receiver :=
  newWithoutRecovery (answering transfers) Config.default

/-- The header of a data container that declares so many bytes. -/
def declares (length : UInt32) : Bytes := pushHeader length .data Op.getDeviceInfo 0

/-- The response that an operation worked. -/
def accepted : Bytes := pushHeader 12 .response Resp.ok 0

/-- A payload of two bytes in a transfer of its own. -/
theorem two_bytes_exact :
    let s := listening [declares 14, [1, 2], accepted]
    let done := operationStream "GetDeviceInfo" Op.getDeviceInfo [] (s, ([] : Bytes))
    ExactPhase s [] done.2.2 14 ⟨Resp.ok, [], 2, 2⟩ :=
  (exact_phase_iff
    (show operationStream "GetDeviceInfo" Op.getDeviceInfo []
      (listening [declares 14, [1, 2], accepted], ([] : Bytes)) = (.ok ⟨Resp.ok, [], 2, 2⟩, _) from rfl)
    (show (listening [declares 14, [1, 2], accepted]).nextTransfer 0 = .ok (declares 14) from rfl)
    (show Header.parse (declares 14) = .ok ⟨14, .data, Op.getDeviceInfo, 0⟩ from rfl) rfl).mpr
    ⟨by decide, [declares 14, [1, 2]], by
      intro n c hc
      match n with
      | 0 =>
          cases hc
          rfl
      | 1 =>
          cases hc
          rfl, rfl⟩

/-- A transfer that brings two bytes more than its header declares is no fault. -/
theorem longer_than_declared : ¬ ∀ (s s' : Session Receiver) (w' : Bytes) (o : StreamOutcome)
    (first : Bytes) (header : Header),
    operationStream "GetDeviceInfo" Op.getDeviceInfo [] (s, ([] : Bytes)) = (.ok o, (s', w')) →
      s.nextTransfer 0 = .ok first → Header.parse first = .ok header → header.kind = .data →
        ExactPhase s [] w' header.length.toNat o := by
  intro hclaim
  have hexact := hclaim (listening [declares 14 ++ [1, 2, 3, 4], accepted]) _ _
    ⟨Resp.ok, [], 4, 1⟩ (declares 14 ++ [1, 2, 3, 4]) ⟨14, .data, Op.getDeviceInfo, 0⟩ rfl rfl rfl rfl
  exact absurd hexact.counted (by decide)

/-! ## The read limit -/

section Limit

/-- A transfer of a data phase the device can finish: the first one holds the header, none is
empty, their sizes add up to the declared length, and the response follows. -/
structure Finishable (s : Session Receiver) (first : Bytes) (rest : List Bytes) : Prop where
  buffer : readBufferMin ≤ s.config.readBuffer
  arrives : Arrives s (first :: rest)
  nonempty : ∀ c ∈ rest, c ≠ []
  header : ∃ header, Header.parse first = .ok header ∧ header.kind = .data ∧
    header.length.toNat = (first :: rest).flatten.length
  response : ∃ last c, s.nextTransfer (rest.length + 1) = .ok last ∧
    Container.parse last = .ok c ∧ c.kind = .response

variable [LawfulWriter ω] {declared rounds : Nat} {progress : Progress} {first : Bytes}
  {rest : List Bytes}

/-- So many reads take so many transfers. -/
theorem readRest_arrives (htakes : ∀ b (w : ω), ∃ w', Writer.writeAll b w = (.ok (), w'))
    (harrives : Arrives s chunks) (hnonempty : ∀ c ∈ chunks, c ≠ [])
    (htotal : progress.haveBytes + chunks.flatten.length = declared) :
    ∃ progress' s' w', readRest step declared rounds progress (s, w) = (.ok progress', (s', w')) ∧
      progress'.haveBytes = progress.haveBytes + (chunks.take rounds).flatten.length ∧
      progress'.payloadBytes = progress.payloadBytes + (chunks.take rounds).flatten.length ∧
      s' = s.readOn (chunks.take rounds).length ∧
      LawfulWriter.written w' = LawfulWriter.written w ++ (chunks.take rounds).flatten := by
  induction rounds generalizing s w progress chunks with
  | zero =>
      refine ⟨progress, s, w, rfl, ?_⟩
      simp
  | succ rounds ih =>
      rw [readRest]
      cases chunks with
      | nil =>
          rw [if_pos (by simpa using htotal.ge)]
          refine ⟨progress, s, w, rfl, ?_⟩
          simp
      | cons c cs =>
          have hc : c ≠ [] := hnonempty c List.mem_cons_self
          have hcpos : 0 < c.length := List.length_pos_iff.mpr hc
          rw [List.flatten_cons, List.length_append] at htotal
          obtain ⟨hnext, hrest⟩ := arrives_cons.mp harrives
          obtain ⟨w₁, hw⟩ := htakes c w
          have hwrite : (writeOut step c : Proc SessionError (Session Receiver × ω) Unit)
              (s.readOn 1, w) = (.ok (), (s.readOn 1, w₁)) := by
            rw [writeOut, mapError, onPart, hw]
            rfl
          rw [if_neg (by omega), bind_ok (besides_readOnce hnext),
            if_neg (by simpa using hc), bind_ok hwrite]
          obtain ⟨progress', s', w', hrun, hhave, hpayload, hs, hwritten⟩ := @ih (s.readOn 1) w₁ cs
            ⟨progress.haveBytes + c.length, progress.payloadBytes + c.length, progress.reads + 1⟩
            hrest (fun d hd => hnonempty d (List.mem_cons_of_mem _ hd)) (by dsimp only; omega)
          dsimp only at hhave hpayload
          refine ⟨progress', s', w', hrun, ?_, ?_, ?_, ?_⟩
          · rw [hhave, List.take_succ_cons, List.flatten_cons, List.length_append, Nat.add_assoc]
          · rw [hpayload, List.take_succ_cons, List.flatten_cons, List.length_append,
              Nat.add_assoc]
          · rw [hs, readOn_readOn, List.take_succ_cons, List.length_cons, Nat.add_comm]
          · rw [hwritten, LawfulWriter.written_writeAll hw, List.take_succ_cons,
              List.flatten_cons, List.append_assoc]

/-- The answer is not cut short, and the whole payload arrives at the writer. -/
structure JoinsAll (step : String) (s : Session Receiver) (w : ω) (payload : Bytes) : Prop where
  complete : ∀ want got p, readAnswer step (s, w) ≠ (.error (.incomplete step want got), p)
  whole : ∃ o s' w', readAnswer step (s, w) = (.ok o, (s', w')) ∧ o.bytes = payload.length ∧
    LawfulWriter.written w' = LawfulWriter.written w ++ payload

/-- The limit of all data phases is above the limit of any one. -/
theorem readRounds_eq {buffer : Nat} (hdeclared : declared < 2 ^ 32)
    (hbuffer : readBufferMin ≤ buffer) :
    min (declared / buffer + 16) maxReadRounds = declared / buffer + 16 := by
  have hmax : maxReadRounds = 2 ^ 27 := by decide
  have hdiv : declared / buffer ≤ declared / readBufferMin :=
    Nat.div_le_div_left hbuffer (by decide)
  unfold readBufferMin at hdiv
  omega

/-- Of transfers that are not empty the first few hold less than all. -/
theorem length_flatten_take_lt {n : Nat} (hnonempty : ∀ c ∈ rest, c ≠ []) (hn : n < rest.length) :
    (rest.take n).flatten.length < rest.flatten.length := by
  have hsplit := congrArg (fun cs : List Bytes => cs.flatten.length) (List.take_append_drop n rest)
  rw [List.drop_eq_getElem_cons hn] at hsplit
  simp only [List.flatten_append, List.flatten_cons, List.length_append] at hsplit
  have hpos := List.length_pos_iff.mpr (hnonempty rest[n] (List.getElem_mem hn))
  omega

/-- What the answer is once the loop of the data phase is through. -/
theorem readAnswer_of_readRest {header : Header} {s₂ : Session Receiver} {w₁ w₂ : ω}
    {progress' : Progress} (hbuffer : readBufferMin ≤ s.config.readBuffer)
    (hfirst : s.nextTransfer 0 = .ok first) (hheader : Header.parse first = .ok header)
    (hkind : header.kind = .data) (hlong : headerLen ≤ first.length)
    (hwrite : Writer.writeAll (first.drop headerLen) w = (.ok (), w₁))
    (hrun : readRest step header.length.toNat (header.length.toNat / s.config.readBuffer + 16)
      ⟨first.length, first.length - headerLen, 1⟩ (s.readOn 1, w₁) = (.ok progress', (s₂, w₂))) :
    (progress'.haveBytes < header.length.toNat → readAnswer step (s, w) =
      (.error (.incomplete step header.length.toNat progress'.haveBytes), (s₂, w₂))) ∧
    ∀ last c, header.length.toNat ≤ progress'.haveBytes → s₂.nextTransfer 0 = .ok last →
      Container.parse last = .ok c → c.kind = .response → readAnswer step (s, w) =
        (.ok ⟨c.code, c.parameters, progress'.payloadBytes, progress'.reads⟩,
          (s₂.readOn 1, w₂)) := by
  have hrounds := readRounds_eq header.length.toNat_lt hbuffer
  have hlimit : ¬ header.length.toNat > maxDataBytes := by
    have hmax : maxDataBytes = 2 ^ 36 := by decide
    have hlt := header.length.toNat_lt
    omega
  have hout : (writeOut step (first.drop headerLen) :
      Proc SessionError (Session Receiver × ω) Unit) (s.readOn 1, w) =
        (.ok (), (s.readOn 1, w₁)) := by
    rw [writeOut, mapError, onPart, hwrite]
    rfl
  have hstart : ∀ r,
      ((if progress'.haveBytes < header.length.toNat then
        Proc.fail (.incomplete step header.length.toNat progress'.haveBytes)
      else do
        let last ← besides (readOnce step)
        let c ← (Proc.ofExcept (Container.parse last)).mapError (.parse step)
        if c.kind ≠ .response then Proc.fail (.unexpected step .response c.kind)
        else pure ⟨c.code, c.parameters, progress'.payloadBytes, progress'.reads⟩) :
          Proc SessionError (Session Receiver × ω) StreamOutcome) (s₂, w₂) = r →
      readAnswer step (s, w) = r := by
    intro r hr
    rw [readAnswer, bind_ok (besides_readOnce hfirst), hheader,
      bind_ok (mapError_ofExcept_ok _ _ _)]
    simp only [hkind]
    rw [if_neg hlimit, Nat.min_eq_right hlong, bind_ok hout, bind_ok (get_run _)]
    dsimp only [readOn_config]
    rw [hrounds, bind_ok hrun]
    exact hr
  constructor
  · intro hless
    apply hstart
    rw [if_pos hless]
    rfl
  · intro last c hcomplete hlast hparse hresponse
    apply hstart
    rw [if_neg (Nat.not_lt_of_le hcomplete), bind_ok (besides_readOnce hlast), hparse,
      bind_ok (mapError_ofExcept_ok _ _ _), if_neg (not_not_intro hresponse)]
    rfl

/-- **The read limit stops no transfer exactly when its count of transfers is at most
seventeen more than the declared length has full reads.** -/
theorem read_limit_iff (htakes : ∀ b (w : ω), ∃ w', Writer.writeAll b w = (.ok (), w')) (w : ω)
    (h : Finishable s first rest) :
    JoinsAll step s w ((first :: rest).flatten.drop headerLen) ↔
      (first :: rest).length ≤
        (first :: rest).flatten.length / s.config.readBuffer + 17 := by
  obtain ⟨header, hheader, hkind, hlength⟩ := h.header
  obtain ⟨last, c, hlast, hparse, hresponse⟩ := h.response
  obtain ⟨hfirst, hrest⟩ := arrives_cons.mp h.arrives
  have hlong : headerLen ≤ first.length := by
    by_contra hshort
    rw [Header.parse, if_pos (Nat.lt_of_not_le hshort)] at hheader
    cases hheader
  obtain ⟨w₁, hwrite⟩ := htakes (first.drop headerLen) w
  rw [← hlength, List.flatten_cons, List.drop_append_of_le_length hlong, List.length_cons]
  rw [List.flatten_cons, List.length_append] at hlength
  obtain ⟨progress, s₂, w₂, hrun, hhave, hpayload, rfl, hwritten⟩ :=
    @readRest_arrives ω step (s.readOn 1) w₁ rest _ header.length.toNat
      (header.length.toNat / s.config.readBuffer + 16) ⟨first.length, first.length - headerLen, 1⟩
      htakes hrest h.nonempty hlength.symm
  dsimp only at hhave hpayload
  obtain ⟨hcut, hjoin⟩ :=
    readAnswer_of_readRest h.buffer hfirst hheader hkind hlong hwrite hrun
  by_cases hmany : rest.length ≤ header.length.toNat / s.config.readBuffer + 16
  · rw [List.take_of_length_le hmany] at hhave hpayload hwritten hjoin
    have hanswer := hjoin last c (by omega)
      (by rwa [nextTransfer_readOn, nextTransfer_readOn, Nat.add_zero, Nat.add_comm]) hparse hresponse
    refine iff_of_true ⟨?_, _, _, _, hanswer, ?_, ?_⟩ (by omega)
    · intro want got p hincomplete
      rw [hanswer] at hincomplete
      cases hincomplete
    · rw [List.length_append, List.length_drop]
      exact hpayload
    · rw [hwritten, LawfulWriter.written_writeAll hwrite, List.append_assoc]
  · have hless := length_flatten_take_lt h.nonempty (Nat.lt_of_not_le hmany)
    refine iff_of_false ?_ (by omega)
    intro hjoins
    exact hjoins.complete _ _ _ (hcut (by omega))

end Limit

theorem nextTransfer_listening {transfers : List Bytes} {n : Nat} {c : Bytes}
    (hc : transfers[n]? = some c) (hfits : c.length ≤ Config.default.readBuffer) :
    (listening transfers).nextTransfer n = .ok c := by
  have hanswer : (answering transfers).answers n = .ok c := by
    show (transfers[n]?).elim _ _ = _
    rw [hc]
    rfl
  have hnext : (listening transfers).nextTransfer n =
      ((answering transfers).answers n).map (List.take Config.default.readBuffer) := by
    rw [nextTransfer, show (listening transfers).device.reads + n = n from Nat.zero_add n]
    rfl
  rw [hnext, hanswer]
  exact congrArg _ (List.take_of_length_le hfits)

/-- A data phase that arrives as its header, and then so many bytes in a transfer each. -/
def byteWise (count : Nat) : List Bytes :=
  declares (UInt32.ofNat (headerLen + count)) :: List.replicate count [0]

theorem finishable_byteWise {count : Nat} (hcount : count ≤ maxPayloadLen) :
    Finishable (listening (byteWise count ++ [accepted]))
      (declares (UInt32.ofNat (headerLen + count))) (List.replicate count [0]) where
  buffer := show (512 : Nat) ≤ 65536 by decide
  arrives n c hc := by
    apply nextTransfer_listening
    · exact List.getElem?_append_left (List.getElem?_eq_some_iff.mp hc).1 ▸ hc
    · rcases List.mem_cons.mp (List.mem_of_getElem? hc) with rfl | hmem
      · rw [declares, length_pushHeader]
        decide
      · rw [List.eq_of_mem_replicate hmem]
        decide
  nonempty c hc := by
    rw [List.eq_of_mem_replicate hc]
    exact List.cons_ne_nil _ _
  header := by
    have hparse := Header.parse_pushHeader (UInt32.ofNat (headerLen + count)) .data
      Op.getDeviceInfo 0 []
    rw [List.append_nil] at hparse
    refine ⟨_, hparse, rfl, ?_⟩
    have hlt : headerLen + count < 2 ^ 32 := by
      unfold maxPayloadLen headerLen at *
      omega
    rw [UInt32.toNat_ofNat_of_lt' hlt, declares, List.flatten_cons, List.length_append,
      length_pushHeader, List.length_flatten, List.map_replicate, List.sum_replicate_nat,
      List.length_singleton, Nat.mul_one]
    rfl
  response := by
    refine ⟨accepted, ⟨12, .response, Resp.ok, 0, []⟩, ?_, rfl, rfl⟩
    apply nextTransfer_listening
    · rw [List.length_replicate, byteWise, List.cons_append, List.getElem?_cons_succ]
      simp
    · decide

/-- Sixteen small transfers behind the header are joined. -/
theorem sixteen_bytes_joined :
    JoinsAll "GetDeviceInfo" (listening (byteWise 16 ++ [accepted])) ([] : Bytes)
      ((byteWise 16).flatten.drop headerLen) :=
  (read_limit_iff (fun b w => ⟨w ++ b, rfl⟩) [] (finishable_byteWise (by decide))).mpr (by decide)

/-- Of seventeen the last one is not read. -/
theorem seventeen_bytes_cut_short :
    ∃ first rest, Finishable (listening (byteWise 17 ++ [accepted])) first rest ∧
      (readAnswer "GetDeviceInfo" (listening (byteWise 17 ++ [accepted]), ([] : Bytes))).1 =
        .error (.incomplete "GetDeviceInfo" 29 28) :=
  ⟨_, _, finishable_byteWise (by decide), by decide +kernel⟩

end Session

end Bsdroid
