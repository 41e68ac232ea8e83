import Bsdroid.Lib.Proc
import Bsdroid.PtpProto.Datasets

/-!
# One MTP session over two bulk endpoints

An operation is a command container, then an optional data phase, then a
response container.  The session owns the transport and counts the
transactions; every step is an `Proc` on it, so a fault keeps the state of
the transport and the count it happened at.

`readAnswer` is the one place that joins many transfers into one payload.  It
reads the kind and the length of the first header, and neither it nor any other
step compares the transaction id of an answer with the id of the command.
-/

namespace Bsdroid

/-- What a transfer did. -/
inductive TransferStatus where
  | completed
  | error
  | timedOut
  | cancelled
  | stall
  | noDevice
  | overflow
  | other (v : UInt8)
deriving DecidableEq, Repr

/-- A fault in a transfer. -/
inductive UsbError where
  | transfer (endpoint : UInt8) (status : TransferStatus)
  | shortWrite (want got : Nat)
  | timeoutTooLarge (millis : Nat)
deriving DecidableEq, Repr

/-- A fault of the host's own files, with the number the system gave. -/
structure IoError where
  rawOsError : Option Nat
deriving DecidableEq, Repr

/-- A fault in an operation. -/
inductive SessionError where
  | usb (step : String) (source : UsbError)
  | parse (step : String) (source : ParseError)
  | unexpected (step : String) (expected got : ContainerType)
  | tooLarge (step : String) (declared limit : Nat)
  | incomplete (step : String) (want got : Nat)
  | write (step : String) (source : IoError)
  | shortRead (step : String) (want got : Nat) (source : Option IoError)
  | build (step : String) (source : PayloadTooLarge)
deriving DecidableEq, Repr

/-- The step that failed. -/
def SessionError.step : SessionError → String
  | .usb step _ | .parse step _ | .unexpected step _ _ | .tooLarge step _ _
  | .incomplete step _ _ | .write step _ | .shortRead step _ _ _ | .build step _ => step

/-- The smallest read buffer the session accepts. -/
def readBufferMin : Nat := 512

/-- The largest data phase the host accepts, in bytes. -/
def maxDataBytes : Nat := 64 * 1024 * 1024 * 1024

/-- The largest count of reads for one data phase. -/
def maxReadRounds : Nat := maxDataBytes / readBufferMin

/-- The deadline for the first read of a drain, in milliseconds. -/
def drainFirstMillis : Nat := 15

/-- The deadline for each read of a drain after the first, in milliseconds. -/
def drainRestMillis : Nat := 250

/-- The packet size of a USB 2.0 bulk endpoint, in bytes. -/
def usb2Packet : Nat := 512

/-- How a session reads and writes.  The deadline is in milliseconds. -/
structure Config where
  timeout : Nat
  readBuffer : Nat
  writeChunk : Nat
  packet : Nat
deriving DecidableEq, Repr

def Config.default : Config :=
  { timeout := 10000, readBuffer := 64 * 1024, writeChunk := 512 * 1024, packet := usb2Packet }

/-- The least multiple of `m` that is not below `n`. -/
def nextMultipleOf (n m : Nat) : Nat := if n % m = 0 then n else n + (m - n % m)

/-- Corrects any value that would break a transfer. -/
def Config.normalised (c : Config) : Config :=
  let packet := if c.packet = 0 then usb2Packet else c.packet
  let readBuffer := if c.readBuffer < readBufferMin then readBufferMin else c.readBuffer
  let least := nextMultipleOf (headerLen + 1) packet
  let writeChunk := if c.writeChunk < least then least else c.writeChunk
  { timeout := c.timeout
    readBuffer := readBuffer
    writeChunk := writeChunk - writeChunk % packet
    packet := packet }

/-- What one operation did. -/
structure Outcome where
  responseCode : UInt16
  data : Bytes
  responseParams : List UInt32
  reads : Nat
deriving DecidableEq, Repr

def Outcome.isOk (o : Outcome) : Bool := o.responseCode = Resp.ok

/-- Reads the payload as a PTP array of `u32`.  An empty payload gives an empty
list. -/
def Outcome.asU32Array (o : Outcome) : Except ParseError (List UInt32) :=
  if o.data.isEmpty then .ok [] else parseU32Array o.data

/-- What one streamed operation did. -/
structure StreamOutcome where
  responseCode : UInt16
  responseParams : List UInt32
  bytes : Nat
  reads : Nat
deriving DecidableEq, Repr

def StreamOutcome.isOk (o : StreamOutcome) : Bool := o.responseCode = Resp.ok

/-- What a session needs from the thing underneath it.  A read has a capacity,
and both transfers have a deadline in milliseconds. -/
class Transport (τ : Type) where
  write : Bytes → Nat → Proc UsbError τ Nat
  read : Nat → Nat → Proc UsbError τ Bytes
  clearStalls : τ → τ

/-- Where an operation puts the data phase. -/
class Writer (ω : Type) where
  writeAll : Bytes → Proc IoError ω Unit

/-- A vector takes every byte. -/
instance : Writer Bytes where
  writeAll b := Proc.modify (· ++ b)

/-- What a reader gives for one call. -/
inductive ReadAnswer where
  | bytes (b : Bytes)
  | interrupted
  | fault (e : IoError)
deriving DecidableEq, Repr

/-- Fills a buffer of `want` bytes from a reader, and reports a short read with
its cause.  A reader is the answers it has left, and gives nothing after the
last one; an answer that is longer than the room in the buffer keeps the rest. -/
def readExactOrShort (step : String) (want : Nat) :
    Bytes → List ReadAnswer → Except SessionError Bytes × List ReadAnswer
  | done, [] =>
      if want ≤ done.length then (.ok done, [])
      else (.error (.shortRead step want done.length none), [])
  | done, answer :: rest =>
      if want ≤ done.length then (.ok done, answer :: rest)
      else
        match answer with
        | .bytes b =>
            let room := want - done.length
            if b.isEmpty then (.error (.shortRead step want done.length none), rest)
            else if room < b.length then
              (.ok (done ++ b.take room), .bytes (b.drop room) :: rest)
            else readExactOrShort step want (done ++ b) rest
        | .interrupted => readExactOrShort step want done rest
        | .fault e => (.error (.shortRead step want done.length (some e)), rest)

/-- Says whether a data phase needs a packet of zero bytes at the end. -/
def needsZeroPacket (total packet : Nat) : Bool := packet ≠ 0 ∧ total % packet = 0

/-- One MTP session. -/
structure Session (τ : Type) where
  device : τ
  transaction : UInt32
  config : Config
  sessionOpen : Bool

namespace Session

variable {τ : Type} [Transport τ]

/-- Runs one transfer on the transport of the session. -/
def transfer {α : Type} (step : String) (x : Proc UsbError τ α) :
    Proc SessionError (Session τ) α :=
  (x.onPart Session.device fun d s => { s with device := d }).mapError (.usb step)

def writeAll (step : String) (bytes : Bytes) : Proc SessionError (Session τ) Unit := do
  let s ← Proc.get
  let _ ← transfer step (Transport.write bytes s.config.timeout)
  pure ()

def readOnce (step : String) : Proc SessionError (Session τ) Bytes := do
  let s ← Proc.get
  transfer step (Transport.read s.config.readBuffer s.config.timeout)

/-- Takes the next transaction id. -/
def nextTransaction : Proc SessionError (Session τ) UInt32 := fun s =>
  (.ok s.transaction, { s with transaction := s.transaction + 1 })

/-- Puts bytes of the data phase where the caller wants them. -/
def writeOut {ω : Type} [Writer ω] (step : String) (bytes : Bytes) :
    Proc SessionError (Session τ × ω) Unit :=
  ((Writer.writeAll bytes : Proc IoError ω Unit).onPart Prod.snd
    fun w s => (s.1, w)).mapError (.write step)

/-- Runs a step of the session next to a writer. -/
def besides {ω α : Type} (x : Proc SessionError (Session τ) α) :
    Proc SessionError (Session τ × ω) α :=
  x.onPart Prod.fst fun s p => (s, p.2)

/-- How far a data phase is: the bytes that arrived with the header counted,
the payload bytes among them, and the reads. -/
structure Progress where
  haveBytes : Nat
  payloadBytes : Nat
  reads : Nat
deriving DecidableEq, Repr

/-- Reads transfers until the declared count is there, a transfer is empty, or
the rounds are used up. -/
def readRest {ω : Type} [Writer ω] (step : String) (declared : Nat) :
    Nat → Progress → Proc SessionError (Session τ × ω) Progress
  | 0, p => pure p
  | rounds + 1, p =>
      if p.haveBytes ≥ declared then pure p
      else do
        let more ← besides (readOnce step)
        if more.isEmpty then pure { p with reads := p.reads + 1 }
        else do
          writeOut step more
          readRest step declared rounds
            { haveBytes := p.haveBytes + more.length
              payloadBytes := p.payloadBytes + more.length
              reads := p.reads + 1 }

/-- Reads the answer of an operation: an optional data phase, then the response
container. -/
def readAnswer {ω : Type} [Writer ω] (step : String) :
    Proc SessionError (Session τ × ω) StreamOutcome := do
  let buf ← besides (readOnce step)
  let first ← (Proc.ofExcept (Header.parse buf)).mapError (.parse step)
  match first.kind with
  | .data =>
      let declared := first.length.toNat
      if declared > maxDataBytes then
        Proc.fail (.tooLarge step declared maxDataBytes)
      else do
        let start := min buf.length headerLen
        writeOut step (buf.drop start)
        let (s, _) ← Proc.get
        let rounds := min (declared / s.config.readBuffer + 16) maxReadRounds
        let p ← readRest step declared rounds
          { haveBytes := buf.length, payloadBytes := buf.length - start, reads := 1 }
        if p.haveBytes < declared then
          Proc.fail (.incomplete step declared p.haveBytes)
        else do
          let last ← besides (readOnce step)
          let c ← (Proc.ofExcept (Container.parse last)).mapError (.parse step)
          if c.kind ≠ .response then
            Proc.fail (.unexpected step .response c.kind)
          else pure {
            responseCode := c.code
            responseParams := c.parameters
            bytes := p.payloadBytes
            reads := p.reads }
  | .response => do
      let c ← (Proc.ofExcept (Container.parse buf)).mapError (.parse step)
      pure { responseCode := c.code, responseParams := c.parameters, bytes := 0, reads := 1 }
  | other => Proc.fail (.unexpected step .response other)

/-- Does one operation, and writes the data phase to a writer. -/
def operationStream {ω : Type} [Writer ω] (step : String) (code : UInt16)
    (params : List UInt32) : Proc SessionError (Session τ × ω) StreamOutcome := do
  let tid ← besides nextTransaction
  besides (writeAll step (buildCommand code tid params))
  readAnswer step

/-- Collects the data phase of an answer in a vector. -/
def collected (x : Proc SessionError (Session τ × Bytes) StreamOutcome) :
    Proc SessionError (Session τ) Outcome := fun s =>
  match x (s, []) with
  | (.ok o, (s, data)) => (.ok {
      responseCode := o.responseCode
      data := data
      responseParams := o.responseParams
      reads := o.reads }, s)
  | (.error e, (s, _)) => (.error e, s)

/-- Does one operation and reads the answer into memory. -/
def operation (step : String) (code : UInt16) (params : List UInt32) :
    Proc SessionError (Session τ) Outcome :=
  collected (operationStream step code params)

/-- Fills one buffer from the reader next to the session. -/
def fill (step : String) (want : Nat) :
    Proc SessionError (Session τ × List ReadAnswer) Bytes := fun s =>
  let r := readExactOrShort step want [] s.2
  (r.1, (s.1, r.2))

/-- Sends the payload that does not fit the first write, chunk by chunk.  The
answer is the count of payload bytes that went out. -/
def sendRest (step : String) (chunk size : Nat) :
    Nat → Nat → Proc SessionError (Session τ × List ReadAnswer) Nat
  | 0, sent => pure sent
  | rounds + 1, sent =>
      if sent ≥ size then pure sent
      else do
        let bytes ← fill step (min chunk (size - sent))
        besides (writeAll step bytes)
        sendRest step chunk size rounds (sent + min chunk (size - sent))

/-- Ends a data phase of `total` bytes: a full last packet tells the device that
more bytes follow, so an empty one goes after it. -/
def endDataPhase (step : String) (total : UInt32) : Proc SessionError (Session τ) Unit := do
  let s ← Proc.get
  if needsZeroPacket total.toNat s.config.packet then writeAll step []
  else pure ()

/-- Does one operation that sends a payload from a reader.  `size` is the count
of bytes the reader has to give. -/
def operationSending (step : String) (code : UInt16) (params : List UInt32) (size : Nat) :
    Proc SessionError (Session τ × List ReadAnswer) Outcome := do
  let total ← (Proc.ofExcept (containerLength size)).mapError (.build step)
  let tid ← besides nextTransaction
  besides (writeAll step (buildCommand code tid params))
  let (s, _) ← Proc.get
  let chunk := s.config.writeChunk
  let first ← (Proc.ofExcept (buildDataHeader code tid size)).mapError (.build step)
  let want := min (chunk - headerLen) size
  let bytes ← fill step want
  besides (writeAll step (first ++ bytes))
  let sent ← sendRest step chunk size (size / chunk + 4) want
  if sent < size then
    Proc.fail (.shortRead step size sent none)
  else do
    besides (endDataPhase step total)
    besides (collected (readAnswer step))

/-- Does one operation that sends a payload the caller holds in memory. -/
def operationWithData (step : String) (code : UInt16) (params : List UInt32)
    (payload : Bytes) : Proc SessionError (Session τ) Outcome := fun s =>
  let r := operationSending step code params payload.length (s, [.bytes payload])
  (r.1, r.2.1)

/-- Reads and drops bytes until a read is empty or fails, or the rounds are used
up.  The answer is the count of bytes dropped. -/
def drainFrom (capacity : Nat) : Nat → Nat → Nat → τ → Nat × τ
  | 0, _, dropped, d => (dropped, d)
  | rounds + 1, deadline, dropped, d =>
      match Transport.read capacity deadline d with
      | (.ok bytes, d) =>
          if bytes.isEmpty then (dropped, d)
          else drainFrom capacity rounds drainRestMillis (dropped + bytes.length) d
      | (.error _, d) => (dropped, d)

/-- Reads and drops the bytes the device still holds for the host. -/
def drain (s : Session τ) : Nat × Session τ :=
  let r := drainFrom s.config.readBuffer maxReadRounds drainFirstMillis 0 s.device
  (r.1, { s with device := r.2 })

/-- Puts the two endpoints in a known state. -/
def recover (s : Session τ) : Nat × Session τ :=
  drain { s with device := Transport.clearStalls s.device }

/-- Starts a session and skips the recovery step. -/
def newWithoutRecovery (device : τ) (config : Config) : Session τ :=
  { device := device, transaction := 0, config := config.normalised, sessionOpen := false }

/-- Starts a session over two open bulk channels, with the count of bytes it
dropped. -/
def new (device : τ) (config : Config) : Session τ × Nat :=
  let r := recover (newWithoutRecovery device config)
  (r.2, r.1)

/-- Sends `OpenSession` with a session id. -/
def openSession (id : UInt32) : Proc SessionError (Session τ) Outcome := do
  let out ← operation "OpenSession" Op.openSession [id]
  if out.isOk ∨ out.responseCode = Resp.sessionAlreadyOpen then
    Proc.modify fun s => { s with sessionOpen := true }
  pure out

/-- Sends `CloseSession`. -/
def closeSession : Proc SessionError (Session τ) Outcome := do
  let out ← operation "CloseSession" Op.closeSession []
  if out.isOk then
    Proc.modify fun s => { s with sessionOpen := false }
  pure out

end Session

/-- What `openSessionOrRepair` had to do. -/
structure SessionOpen where
  outcome : Outcome
  repaired : Bool
  closeResponse : Option UInt16
  dropped : Nat
  wedged : Bool
deriving DecidableEq, Repr

namespace Session

variable {τ : Type} [Transport τ]

/-- Opens a session, and repairs the state an earlier session left. -/
def openSessionOrRepair (id : UInt32) : Proc SessionError (Session τ) SessionOpen := do
  let first ← openSession id
  if first.responseCode ≠ Resp.sessionAlreadyOpen then
    pure { outcome := first, repaired := false, closeResponse := none, dropped := 0,
           wedged := false }
  else do
    let closed ← closeSession.attempt
    let dropped ← (fun s => ((.ok (recover s).1 : Except SessionError Nat), (recover s).2) :
      Proc SessionError (Session τ) Nat)
    let second ← openSession id
    pure {
      outcome := second
      repaired := true
      closeResponse := closed.toOption.map Outcome.responseCode
      dropped := dropped
      wedged := second.responseCode = Resp.sessionAlreadyOpen }

/-- Closes the session that the host opened, when the session value is dropped. -/
def drop (s : Session τ) : Session τ :=
  if s.sessionOpen then (closeSession (recover s).2).2 else s

/-! ## What reading an answer does -/

section Steps

open Proc

variable {ω : Type} [Writer ω] {step : String} {R : Session τ × ω → Session τ × ω → Prop}
  (hrefl : ∀ p, R p p) (htrans : ∀ {p q r}, R p q → R q r → R p r)
  (hread : Steps R (besides (readOnce step)))
  (hout : ∀ bytes, Steps R (writeOut step bytes))

include hrefl htrans hread hout

theorem readRest_steps (declared rounds : Nat) (progress : Progress) :
    Steps R (readRest step declared rounds progress) := by
  induction rounds generalizing progress with
  | zero => exact .pure hrefl _
  | succ rounds ih =>
      unfold readRest
      split
      · exact .pure hrefl _
      · refine .bind (R := R) htrans hread fun more => ?_
        split
        · exact .pure hrefl _
        · exact .bind (R := R) htrans (hout more) fun _ => ih _

/-- Whatever each read and each write of the payload does, reading an answer does. -/
theorem readAnswer_steps : Steps R (readAnswer step) := by
  refine .bind (R := R) htrans hread fun buf => ?_
  refine .bind (R := R) htrans (.mapError (.ofExcept hrefl _)) fun first => ?_
  split
  · dsimp only
    split
    · exact .fail hrefl _
    · refine .bind (R := R) htrans (hout _) fun _ => ?_
      refine .bind (R := R) htrans (.get hrefl) fun held => ?_
      refine .bind (R := R) htrans (readRest_steps hrefl htrans hread hout _ _ _) fun progress => ?_
      split
      · exact .fail hrefl _
      · refine .bind (R := R) htrans hread fun last => ?_
        refine .bind (R := R) htrans (.mapError (.ofExcept hrefl _)) fun c => ?_
        split
        · exact .fail hrefl _
        · exact .pure hrefl _
  · refine .bind (R := R) htrans (.mapError (.ofExcept hrefl _)) fun c => ?_
    exact .pure hrefl _
  · exact .fail hrefl _

end Steps

end Session

end Bsdroid
