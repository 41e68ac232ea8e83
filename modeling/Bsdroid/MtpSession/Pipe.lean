import Bsdroid.MtpSession.Session

/-!
# The bulk-in pipe

The far end of a session: a device that reads what the host writes, and a pipe
that holds the containers it made in the order it made them.  Each container has
the transaction id of the last command the device read.  A read takes bytes of
the first container alone, as many as the plan of the pipe says and never more
than the host asked for, or fails and takes nothing; a read of an empty pipe
passes its deadline.

What the device does for a write is any function of the writes so far, so every
answer, every delay and every order of failed reads is a `Pipe`.
-/

namespace Bsdroid

/-- A container a device can make. -/
structure Answer where
  kind : ContainerType
  code : UInt16
  payload : Bytes
  fits : payload.length ≤ maxPayloadLen

/-- A container, with the transaction id of the command it answers. -/
structure Sent where
  tid : UInt32
  answer : Answer

namespace Sent

/-- The value of the length field. -/
def length (c : Sent) : UInt32 := UInt32.ofNat (headerLen + c.answer.payload.length)

/-- The bytes of the container. -/
def wire (c : Sent) : Bytes :=
  pushHeader c.length c.answer.kind c.answer.code c.tid ++ c.answer.payload

theorem build_eq_wire (c : Sent) :
    build c.answer.kind c.answer.code c.tid c.answer.payload = .ok c.wire := by
  simp [build, containerLength, Nat.not_lt.mpr c.answer.fits, wire, length]

theorem toNat_length (c : Sent) : c.length.toNat = c.wire.length := by
  have hfits := c.answer.fits
  have hlt : headerLen + c.answer.payload.length < 2 ^ 32 := by
    unfold maxPayloadLen headerLen at *; omega
  rw [length, UInt32.toNat_ofNat_of_lt' hlt]
  simp [wire, headerLen]

theorem wire_ne_nil (c : Sent) : c.wire ≠ [] := by
  intro h
  have hlen := congrArg List.length h
  simp [wire] at hlen

/-- The first bytes of a container that hold a header hold its header. -/
theorem header_of_take {c : Sent} {k : Nat} {h : Header}
    (hparse : Header.parse (c.wire.take k) = .ok h) :
    h = ⟨c.length, c.answer.kind, c.answer.code, c.tid⟩ ∧ headerLen ≤ k := by
  have hk : headerLen ≤ k := by
    by_contra hk
    have hshort : (c.wire.take k).length < headerLen := by
      rw [List.length_take]
      omega
    rw [Header.parse, if_pos hshort] at hparse
    cases hparse
  have hsplit : c.wire.take k =
      pushHeader c.length c.answer.kind c.answer.code c.tid ++
        c.answer.payload.take (k - headerLen) := by
    rw [wire, List.take_append, List.take_of_length_le (by
      rw [length_pushHeader]; exact hk), length_pushHeader]
    rfl
  rw [hsplit, Header.parse_pushHeader] at hparse
  cases hparse
  exact ⟨rfl, hk⟩

/-- The first bytes of a container parse as a container only when they are all
of it. -/
theorem container_of_take {c : Sent} {k : Nat} {got : Container}
    (hparse : Container.parse (c.wire.take k) = .ok got) :
    got = ⟨c.length, c.answer.kind, c.answer.code, c.tid, c.answer.payload⟩ ∧
      c.wire.length ≤ k := by
  have hk : c.wire.length ≤ k := by
    unfold Container.parse at hparse
    rcases hh : Header.parse (c.wire.take k) with e | h
    · rw [hh] at hparse
      cases hparse
    · rw [hh] at hparse
      obtain ⟨rfl, _⟩ := header_of_take hh
      by_contra hk
      have hshort : (c.wire.take k).length < c.length.toNat := by
        rw [List.length_take, toNat_length]
        omega
      simp only [hshort, or_true, if_true] at hparse
      cases hparse
  have hall := Container.parse_build c.build_eq_wire []
  rw [List.append_nil] at hall
  rw [List.take_of_length_le hk, hall] at hparse
  cases hparse
  exact ⟨rfl, hk⟩

end Sent

/-- A device and the pipe it fills.  `behave` gives the containers the device
makes after a write, from all the writes so far, and `plan` gives for each read
how many bytes its transfer carries, or that it fails. -/
structure Pipe where
  behave : List Bytes → List Answer
  plan : Nat → Option Nat
  history : List Bytes
  reads : Nat
  command : Option UInt32
  awaiting : Nat
  waiting : List Bytes
  made : List Sent

namespace Pipe

/-- How the device reads a write: payload while a data phase is open, and then
by its header. -/
def enter (bytes : Bytes) (p : Pipe) : Pipe :=
  if 0 < p.awaiting then { p with awaiting := p.awaiting - bytes.length }
  else
    match Header.parse bytes with
    | .error _ => p
    | .ok h =>
        match h.kind with
        | .command => { p with command := some h.transactionId }
        | .data => { p with awaiting := h.payloadLen - (bytes.length - headerLen) }
        | _ => p

/-- The containers the device makes at this point of its history. -/
def answers (p : Pipe) : List Sent :=
  match p.command with
  | none => []
  | some tid => (p.behave p.history).map (Sent.mk tid)

/-- The device answers: what it makes goes to the end of the pipe. -/
def answer (p : Pipe) : Pipe :=
  { p with made := p.made ++ p.answers, waiting := p.waiting ++ p.answers.map Sent.wire }

/-- The device takes a write. -/
def take (bytes : Bytes) (p : Pipe) : Pipe :=
  let q := p.enter bytes
  answer { q with history := q.history ++ [bytes] }

/-- The device gives up to `n` bytes of the first container. -/
def give (n : Nat) (p : Pipe) : Option (Bytes × Pipe) :=
  match p.waiting with
  | [] => none
  | w :: rest =>
      some (w.take n, { p with waiting := if w.drop n = [] then rest else w.drop n :: rest })

instance : Transport Pipe where
  write bytes _ := fun p => (.ok bytes.length, p.take bytes)
  read capacity _ := fun p =>
    let next := { p with reads := p.reads + 1 }
    match p.plan p.reads with
    | none => (.error (.transfer 0x81 .timedOut), next)
    | some n =>
        match give (min n capacity) next with
        | none => (.error (.transfer 0x81 .timedOut), next)
        | some (bytes, p) => (.ok bytes, p)
  clearStalls p := p

/-- Between two states the device made the containers `own`, each for the
command `tid`, and they wait at the end of the pipe. -/
structure Made (before after : Pipe) (tid : UInt32) (own : List Sent) : Prop where
  made : after.made = before.made ++ own
  waiting : after.waiting = before.waiting ++ own.map Sent.wire
  ofCommand : ∀ c ∈ own, c.tid = tid
  command : after.command = some tid

/-- An answer made for the command in progress. -/
theorem Made.answer {before p : Pipe} {tid : UInt32} {own : List Sent}
    (h : Made before p tid own) :
    Made before p.answer tid (own ++ p.answers) := by
  refine ⟨?_, ?_, ?_, h.command⟩
  · rw [Pipe.answer, h.made, List.append_assoc]
  · rw [Pipe.answer, h.waiting, List.map_append, List.append_assoc]
  · intro c hc
    rcases List.mem_append.mp hc with hc | hc
    · exact h.ofCommand c hc
    · rw [answers, h.command] at hc
      obtain ⟨a, -, rfl⟩ := List.mem_map.mp hc
      rfl

/-- A device outside a data phase takes a command as a command. -/
theorem take_command {p : Pipe} (h : p.awaiting = 0) (code : UInt16) (tid : UInt32)
    (params : List UInt32) :
    ∃ own, Made p (p.take (buildCommand code tid params)) tid own ∧
      (p.take (buildCommand code tid params)).awaiting = 0 := by
  have henter : p.enter (buildCommand code tid params) = { p with command := some tid } := by
    rw [enter, if_neg (by omega), buildCommand, Header.parse_pushHeader]
  rw [take, henter]
  refine ⟨_, Made.answer (show Made p _ tid [] from ⟨?_, ?_, ?_, rfl⟩), h⟩
  · exact (List.append_nil _).symm
  · exact (List.append_nil _).symm
  · intro c hc
    cases hc

/-- A write that leaves the command in progress leaves the device answering
it. -/
theorem Made.take {before p : Pipe} {tid : UInt32} {own : List Sent}
    (h : Made before p tid own) {bytes : Bytes}
    (hsame : ∃ n, p.enter bytes = { p with awaiting := n }) :
    ∃ more, Made before (p.take bytes) tid more := by
  obtain ⟨n, hn⟩ := hsame
  rw [Pipe.take, hn]
  exact ⟨_, Made.answer (show Made before _ tid own from ⟨h.made, h.waiting, h.ofCommand, h.command⟩)⟩

/-- The header of a data phase opens it, and the payload behind it counts. -/
theorem enter_data {p : Pipe} (bytes : Bytes) (h : p.awaiting = 0) {code : UInt16}
    {tid : UInt32} {size : Nat} {first : Bytes} (hfirst : buildDataHeader code tid size = .ok first) :
    p.enter (first ++ bytes) = { p with awaiting := size - bytes.length } := by
  unfold buildDataHeader containerLength at hfirst
  by_cases hbig : size > maxPayloadLen
  · simp [hbig] at hfirst
  · simp only [hbig, if_false, Except.ok.injEq] at hfirst
    subst hfirst
    have hlt : headerLen + size < 2 ^ 32 := by
      unfold maxPayloadLen headerLen at *; omega
    have hopen : (Header.payloadLen ⟨UInt32.ofNat (headerLen + size), .data, code, tid⟩) =
        size := by
      rw [Header.payloadLen, UInt32.toNat_ofNat_of_lt' hlt]
      omega
    have hbehind : ∀ header : Bytes, header.length = 12 →
        (header ++ bytes).length - headerLen = bytes.length := by
      intro header hheader
      rw [List.length_append, hheader, headerLen]
      omega
    rw [enter, if_neg (by omega), Header.parse_pushHeader]
    simp only [hopen, hbehind _ (length_pushHeader _ _ _ _)]

theorem enter_payload {p : Pipe} (h : 0 < p.awaiting) (bytes : Bytes) :
    p.enter bytes = { p with awaiting := p.awaiting - bytes.length } := by
  rw [enter, if_pos h]

theorem enter_nil {p : Pipe} (h : p.awaiting = 0) : p.enter [] = { p with awaiting := 0 } := by
  rw [enter, if_neg (by omega)]
  cases p
  cases h
  rfl

theorem take_awaiting (p : Pipe) (bytes : Bytes) :
    (p.take bytes).awaiting = (p.enter bytes).awaiting := rfl

end Pipe

end Bsdroid
