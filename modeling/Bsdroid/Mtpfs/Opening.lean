import Bsdroid.Lib.Retry
import Bsdroid.Mtpfs.Backend
import Bsdroid.UsbFreebsd.Discover

/-!
# From the bus to an open session

`Bus.mtpOpen` looks for a device, opens its endpoints and a session, and reads what the device can
do.  It looks five times, and it does all of it again, up to five times, for a fault that
another try can answer.  The bus can change in each wait between two tries.

Whatever stops a try after its session started, the value that held the session is dropped, and
the drop sends a `CloseSession` without a look at the flag of the session.  So the device behind
a socket is as it was, or as a drop left it (`Bus.mtpOpen_holds`).
-/

namespace Bsdroid

/-- A device whose port can be reset. -/
class Port (τ : Type) where
  resetDevice : τ → τ

/-- What steers one mount.  The deadline is in milliseconds. -/
structure Settings where
  timeout : Nat
  writeChunk : Nat
  noProplist : Bool
  usbReset : Bool
deriving DecidableEq, Repr

def Settings.default : Settings :=
  { timeout := 10000, writeChunk := 512 * 1024, noProplist := false, usbReset := false }

/-- The count of bytes the host asks for in one read. -/
def readBuffer : Nat := 1024 * 1024

/-- How the session of a mount reads and writes. -/
def Settings.config (settings : Settings) (iface : MtpInterface) : Config :=
  Config.normalised
    { timeout := settings.timeout
      readBuffer := readBuffer
      writeChunk := settings.writeChunk
      packet := iface.maxPacketSize.toNat }

/-- Why a mount did not start. -/
inductive OpenError where
  | noDevice
  | noBackend
  | endpointOpen (endpoint : UInt8) (code : Int)
  | badNode (name : Str)
  | namedDeviceNotFound (name : Str)
  | mount (e : Error)
deriving DecidableEq, Repr

/-- Says whether another try can work for this error. -/
def OpenError.worthAnotherTry : OpenError → Bool
  | .noBackend | .endpointOpen _ _ | .mount (.session _) => true
  | _ => false

/-- A place on the bus: what the host sees of the device, and the device. -/
structure Socket (τ : Type) where
  handle : DeviceHandle
  behind : τ

/-- The devices the host can see, and what the steps of the host meet: whether the library
gives a backend, the code it gives for an endpoint, and what a wait changes. -/
structure Bus (τ : Type) where
  sockets : List (Socket τ)
  time : Nat
  gives : Nat → Bool
  opens : Nat → UInt8 → Int
  changes : Nat → List (Socket τ) → List (Socket τ)

namespace Mtp

variable {τ : Type} [Transport τ] [Port τ]

/-- The device when the session of a mount is dropped. -/
def drop (usbReset : Bool) (m : Mtp (Session τ)) : τ :=
  let closed := (Session.closeSession m.session).2
  let left :=
    if usbReset then { closed with device := Port.resetDevice closed.device } else closed
  (Session.drop left).device

/-- Opens a session, and reads what the device can do. -/
def greet (noProplist : Bool) : Proc Error (Mtp (Session τ)) Unit := do
  let opened ← ((Session.openSessionOrRepair 1).onPart Mtp.session
    fun s m => { m with session := s }).mapError .session
  if opened.outcome.isOk then readCapabilities noProplist
  else Proc.fail (.device "OpenSession" opened.outcome.responseCode)

/-- The session of a mount, before it is open on the device. -/
def unopened (settings : Settings) (iface : MtpInterface) (device : τ) : Mtp (Session τ) :=
  fresh (Session.new device (settings.config iface)).1 (settings.config iface).packet

end Mtp

namespace Bus

variable {τ : Type}

def tick (b : Bus τ) : Bus τ := { b with time := b.time + 1 }

/-- Waits, and the bus changes. -/
def sleep (b : Bus τ) : Bus τ := { b.tick with sockets := b.changes b.time b.sockets }

/-- The bus with another device in a place. -/
def putBack (slot : Nat) (device : τ) (b : Bus τ) : Bus τ :=
  { b with sockets := b.sockets.modify slot fun s => { s with behind := device } }

/-- The place of the device that `Discover.find` gives. -/
def locate (want : Option Selector) : List (Socket τ) → Option (Nat × Found × τ)
  | [] => none
  | s :: rest =>
      match Discover.find want [s.handle] with
      | some found => some (0, found, s.behind)
      | none => (locate want rest).map fun place => (place.1 + 1, place.2)

/-- Looks for a device once. -/
def look (want : Option Selector) : Proc Unit (Bus τ) (Nat × Found × τ) := fun b =>
  match locate want b.sockets with
  | some place => (.ok place, b)
  | none => (.error (), b)

/-- The count of tries after the first. -/
def moreTries : Nat := 4

/-- Looks for a device, and gives a new cellphone time to finish its work. -/
def findWithPatience (want : Option Selector) : Proc Unit (Bus τ) (Nat × Found × τ) :=
  Proc.retry (fun _ => true) sleep (look want) moreTries

/-- Starts the library. -/
def startBackend : Proc OpenError (Bus τ) Unit := fun b =>
  if b.gives b.time then (.ok (), b.tick) else (.error .noBackend, b.tick)

/-- Opens one transfer for an endpoint. -/
def openTransfer (endpoint : UInt8) : Proc OpenError (Bus τ) Unit := fun b =>
  if b.opens b.time endpoint = 0 then (.ok (), b.tick)
  else (.error (.endpointOpen endpoint (b.opens b.time endpoint)), b.tick)

/-- Opens both bulk endpoints. -/
def intoMtp (iface : MtpInterface) : Proc OpenError (Bus τ) Unit := do
  openTransfer iface.bulkOut
  openTransfer iface.bulkIn

/-- The device the caller wants. -/
def wantOf : Option Str → Except OpenError (Option Selector)
  | none => .ok none
  | some name =>
      match Discover.parseSelector name with
      | some sel => .ok (some sel)
      | none => .error (.badNode name)

/-- The error for a device that is not there. -/
def missing : Option Str → OpenError
  | none => .noDevice
  | some name => .namedDeviceNotFound name

variable [Transport τ] [Port τ]

/-- Opens a session on the device of a place.  A session that does not come up is dropped. -/
def mountOn (settings : Settings) (slot : Nat) (iface : MtpInterface) (device : τ) :
    Proc OpenError (Bus τ) (Nat × Mtp (Session τ)) := fun b =>
  match Mtp.greet settings.noProplist (Mtp.unopened settings iface device) with
  | (.ok (), m) => (.ok (slot, m), b)
  | (.error e, m) => (.error (.mount e), b.putBack slot (m.drop settings.usbReset))

/-- Finds a device, opens a session, and reads what the device can do, in one try. -/
def mtpOpenOnce (name : Option Str) (settings : Settings) :
    Proc OpenError (Bus τ) (Nat × Mtp (Session τ)) := do
  let want ← Proc.ofExcept (wantOf name)
  startBackend
  let place ← (findWithPatience want).mapError fun _ => missing name
  intoMtp place.2.1.iface
  mountOn settings place.1 place.2.1.iface place.2.2

/-- Tries more than one time for an error that another try can answer. -/
def mtpOpen (name : Option Str) (settings : Settings) :
    Proc OpenError (Bus τ) (Nat × Mtp (Session τ)) :=
  Proc.retry OpenError.worthAnotherTry sleep (mtpOpenOnce name settings) moreTries

/-! ## What a try does to the bus -/

section Holds

omit [Transport τ] [Port τ]

variable {Q : DeviceHandle → τ → Prop} {b : Bus τ} {want : Option Selector}
  {name : Option Str} {settings : Settings}

/-- A property of every device. -/
def Everywhere (Q : DeviceHandle → τ → Prop) (sockets : List (Socket τ)) : Prop :=
  ∀ s ∈ sockets, Q s.handle s.behind

/-- A property of every device on the bus, which no change of the bus takes away. -/
structure Holds (Q : DeviceHandle → τ → Prop) (b : Bus τ) : Prop where
  now : Everywhere Q b.sockets
  later : ∀ n sockets, Everywhere Q sockets → Everywhere Q (b.changes n sockets)

/-- A device that offers MTP, and that the caller does not exclude. -/
structure Offers (want : Option Selector) (h : DeviceHandle) : Prop where
  mtp : (Discover.inspect h).isSome
  named : ∀ sel, want = some sel → sel.matches h = true

/-- The place holds a device that is on offer. -/
def At (want : Option Selector) (slot : Nat) (b : Bus τ) : Prop :=
  ∃ s, b.sockets[slot]? = some s ∧ Offers want s.handle

/-- The bus while a device of it is in use. -/
structure InUse (Q : DeviceHandle → τ → Prop) (want : Option Selector) (slot : Nat)
    (b : Bus τ) : Prop extends Holds Q b where
  at_ : At want slot b

/-- The bus while the device a caller named is in use. -/
def Lent (Q : DeviceHandle → τ → Prop) (name : Option Str) (slot : Nat) (b : Bus τ) : Prop :=
  ∃ want, wantOf name = .ok want ∧ InUse Q want slot b

theorem Holds.tick (h : Holds Q b) : Holds Q b.tick := ⟨h.now, h.later⟩

theorem Holds.sleep (h : Holds Q b) : Holds Q b.sleep := ⟨h.later b.time b.sockets h.now, h.later⟩

theorem Holds.putBack {slot : Nat} {device : τ} (h : Holds Q b) (hat : At want slot b)
    (hdevice : ∀ handle, Offers want handle → Q handle device) :
    Holds Q (b.putBack slot device) := by
  refine ⟨?_, h.later⟩
  obtain ⟨t, ht, hoffers⟩ := hat
  intro s hs
  obtain ⟨i, hi⟩ := List.mem_iff_getElem?.mp hs
  rw [Bus.putBack, List.getElem?_modify] at hi
  obtain ⟨u, hu, rfl⟩ := Option.map_eq_some_iff.mp hi
  by_cases hslot : slot = i
  · rw [← hslot, ht] at hu
    cases hu
    rw [if_pos hslot]
    exact hdevice t.handle hoffers
  · rw [if_neg hslot]
    exact h.now u (List.mem_of_getElem? hu)

/-- A device that was found is on offer. -/
theorem offers_of_find {handle : DeviceHandle} {found : Found}
    (h : Discover.find want [handle] = some found) : Offers want handle := by
  rw [Discover.find] at h
  by_cases hother : (want.map fun sel => sel.matches handle) = some false
  · rw [if_pos hother] at h
    cases h
  · rw [if_neg hother] at h
    constructor
    · cases hinspect : Discover.inspect handle with
      | none =>
          rw [hinspect] at h
          cases h
      | some f => rfl
    · intro sel hsel
      cases hmatches : sel.matches handle with
      | true => rfl
      | false =>
          rw [hsel, Option.map_some, hmatches] at hother
          exact absurd rfl hother

theorem locate_at {sockets : List (Socket τ)} {place : Nat × Found × τ}
    (h : locate want sockets = some place) :
    ∃ s, sockets[place.1]? = some s ∧ Offers want s.handle := by
  induction sockets generalizing place with
  | nil => cases h
  | cons s rest ih =>
      rw [locate] at h
      cases hfind : Discover.find want [s.handle] with
      | some found =>
          rw [hfind] at h
          cases h
          exact ⟨s, rfl, offers_of_find hfind⟩
      | none =>
          rw [hfind] at h
          obtain ⟨next, hnext, rfl⟩ := Option.map_eq_some_iff.mp h
          exact ih hnext

theorem find_cons (want : Option Selector) (h : DeviceHandle) (rest : List DeviceHandle) :
    Discover.find want (h :: rest) = (Discover.find want [h]).or (Discover.find want rest) := by
  rw [Discover.find, Discover.find]
  by_cases hother : (want.map fun sel => sel.matches h) = some false
  · rw [if_pos hother, if_pos hother]
    rfl
  · rw [if_neg hother, if_neg hother]
    cases Discover.inspect h with
    | none => rfl
    | some found => rfl

/-- The place is that of the device that `Discover.find` gives. -/
theorem locate_find (want : Option Selector) (sockets : List (Socket τ)) :
    (locate want sockets).map (fun place => place.2.1) =
      Discover.find want (sockets.map Socket.handle) := by
  induction sockets with
  | nil => rfl
  | cons s rest ih =>
      rw [locate, List.map_cons, find_cons want s.handle (rest.map Socket.handle), ← ih]
      cases Discover.find want [s.handle] with
      | some found => rfl
      | none =>
          cases locate want rest with
          | none => rfl
          | some place => rfl

/-! ## The steps of a try -/

section Steps

open Proc

theorem look_holds (want : Option Selector) : Triple (Holds Q) (look want)
    (fun place b => InUse Q want place.1 b) (fun _ => Holds Q) := by
  intro b hb
  rw [look]
  cases hlocate : locate want b.sockets with
  | none => exact hb
  | some place => exact ⟨hb, locate_at hlocate⟩

theorem findWithPatience_holds (want : Option Selector) : Triple (Holds Q)
    (findWithPatience want) (fun place b => InUse Q want place.1 b) (fun _ => Holds Q) :=
  (look_holds want).retry (fun _ _ _ hb => hb.sleep) moreTries

theorem startBackend_holds : Triple (Holds Q) startBackend (fun _ => Holds Q)
    (fun _ => Holds Q) := by
  intro b hb
  rw [startBackend]
  by_cases hgives : b.gives b.time = true
  · rw [if_pos hgives]
    exact hb.tick
  · rw [if_neg hgives]
    exact hb.tick

theorem openTransfer_inUse (slot : Nat) (endpoint : UInt8) :
    Triple (InUse Q want slot) (openTransfer endpoint) (fun _ => InUse Q want slot)
      (fun _ => Holds Q) := by
  intro b hb
  rw [openTransfer]
  by_cases hopens : b.opens b.time endpoint = 0
  · rw [if_pos hopens]
    exact ⟨hb.tick, hb.at_⟩
  · rw [if_neg hopens]
    exact hb.tick

theorem intoMtp_inUse (slot : Nat) (iface : MtpInterface) :
    Triple (InUse Q want slot) (intoMtp iface) (fun _ => InUse Q want slot)
      (fun _ => Holds Q) := by
  apply (openTransfer_inUse slot iface.bulkOut).bind
  intro u
  exact openTransfer_inUse slot iface.bulkIn

end Steps

end Holds

/-! ## A try -/

section Tries

open Proc

variable {Q : DeviceHandle → τ → Prop} {want : Option Selector} {name : Option Str}
  {settings : Settings}

theorem mountOn_holds (hdrop : ∀ handle, Offers want handle →
    ∀ m : Mtp (Session τ), Q handle (m.drop settings.usbReset)) (slot : Nat)
    (iface : MtpInterface) (device : τ) :
    Triple (InUse Q want slot) (mountOn settings slot iface device)
      (fun r b => InUse Q want r.1 b) (fun _ => Holds Q) := by
  intro b hb
  rw [mountOn]
  rcases Mtp.greet settings.noProplist (Mtp.unopened settings iface device) with ⟨e | u, m⟩
  · exact hb.toHolds.putBack hb.at_ fun handle hoffers => hdrop handle hoffers m
  · exact hb

/-- A try leaves each device as it was, or as the drop of a session leaves it. -/
theorem mtpOpenOnce_holds (hdrop : ∀ want handle, wantOf name = .ok want → Offers want handle →
    ∀ m : Mtp (Session τ), Q handle (m.drop settings.usbReset)) :
    Triple (Holds Q) (mtpOpenOnce name settings) (fun r b => Lent Q name r.1 b)
      (fun _ => Holds Q) := by
  unfold mtpOpenOnce
  cases hname : wantOf name with
  | error e =>
      intro b hb
      exact hb
  | ok want =>
      show Triple (Holds Q) (startBackend >>= fun _ => _) _ _
      apply startBackend_holds.bind
      intro u
      have hplace : Triple (Holds Q)
          ((findWithPatience want).mapError fun _ => missing name : Proc OpenError (Bus τ) _)
          (fun place b => InUse Q want place.1 b) (fun _ => Holds Q) :=
        (findWithPatience_holds want).mapError fun _ _ hb => hb
      apply hplace.bind
      intro place
      apply (intoMtp_inUse place.1 place.2.1.iface).bind
      intro u
      apply (mountOn_holds (hdrop want · hname) place.1 place.2.1.iface place.2.2).weaken
      · intro b hb
        exact hb
      · intro r b hb
        exact ⟨want, hname, hb⟩
      · intro e b hb
        exact hb

/-- **What a start leaves on the bus.**  A property that no change of the bus takes away, and
that every drop of a session gives to a device on offer, holds of all devices after every
start, worked or failed. -/
theorem mtpOpen_holds (hdrop : ∀ want handle, wantOf name = .ok want → Offers want handle →
    ∀ m : Mtp (Session τ), Q handle (m.drop settings.usbReset)) :
    Triple (Holds Q) (mtpOpen name settings) (fun r b => Lent Q name r.1 b)
      (fun _ => Holds Q) :=
  (mtpOpenOnce_holds hdrop).retry (fun _ _ _ hb => hb.sleep) moreTries

end Tries

/-! ## When a start gives up -/

section GivesUp

open Proc

variable {want : Option Selector} {name : Option Str} {settings : Settings} {b b' : Bus τ}

omit [Transport τ] [Port τ] in
theorem look_run (want : Option Selector) (b : Bus τ) : (look want b).2 = b := by
  rw [look]
  cases locate want b.sockets with
  | none => rfl
  | some place => rfl

omit [Transport τ] [Port τ] in
/-- A device was missing at every look, with a wait before each one after the first. -/
theorem findWithPatience_error (h : findWithPatience want b = (.error (), b')) :
    ∀ j ≤ moreTries, Discover.find want ((sleep^[j] b).sockets.map Socket.handle) = none := by
  intro j hj
  obtain ⟨e, he, -⟩ := retry_gives_up h rfl j hj
  rw [paused_of_looks (look_run want), look] at he
  rw [← locate_find]
  cases hlocate : locate want (sleep^[j] b).sockets with
  | none => rfl
  | some place =>
      rw [hlocate] at he
      cases he

omit [Transport τ] [Port τ] in
theorem intoMtp_error {iface : MtpInterface} {e : OpenError}
    (h : intoMtp iface b = (.error e, b')) : ∃ endpoint code, e = .endpointOpen endpoint code := by
  have htransfer : ∀ {endpoint : UInt8} {c c' : Bus τ},
      openTransfer endpoint c = (.error e, c') → ∃ endpoint code, e = .endpointOpen endpoint code := by
    intro endpoint c c' hrun
    rw [openTransfer] at hrun
    split at hrun
    · cases hrun
    · cases hrun
      exact ⟨_, _, rfl⟩
  rcases Proc.bind_eq_error h with hfirst | ⟨u, c, -, hsecond⟩
  · exact htransfer hfirst
  · exact htransfer hsecond

/-- A try that reports a missing device looked for it until its patience ended. -/
theorem mtpOpenOnce_missing (h : mtpOpenOnce name settings b = (.error (missing name), b')) :
    ∃ want, wantOf name = .ok want ∧ ∀ j ≤ moreTries,
      Discover.find want ((sleep^[j] b.tick).sockets.map Socket.handle) = none := by
  unfold mtpOpenOnce at h
  rcases Proc.bind_eq_error h with hwant | ⟨want, c, hwant, h⟩
  · -- A name that does not parse gives another error.
    cases name with
    | none => cases hwant
    | some name =>
        have hnamed : wantOf (some name) = .error (missing (some name)) :=
          congrArg Prod.fst hwant
        rw [wantOf] at hnamed
        cases hparse : Discover.parseSelector name with
        | none =>
            rw [hparse] at hnamed
            cases hnamed
        | some sel =>
            rw [hparse] at hnamed
            cases hnamed
  obtain ⟨hname, rfl⟩ := Proc.ofExcept_eq_ok hwant
  rcases Proc.bind_eq_error h with hstart | ⟨u, c, hstart, h⟩
  · rw [startBackend] at hstart
    split at hstart
    · cases hstart
    · cases name <;> cases hstart
  have hc : c = b.tick := by
    rw [startBackend] at hstart
    split at hstart
    · cases hstart
      rfl
    · cases hstart
  refine ⟨want, hname, ?_⟩
  rcases Proc.bind_eq_error h with hfind | ⟨place, c', -, h⟩
  · rw [mapError] at hfind
    rcases hrun : findWithPatience want c with ⟨e | place, c'⟩
    · rw [hc] at hrun
      exact findWithPatience_error hrun
    · rw [hrun] at hfind
      cases hfind
  · -- Neither an endpoint nor a session gives this error.
    rcases Proc.bind_eq_error h with hinto | ⟨u, c'', -, hmount⟩
    · obtain ⟨endpoint, code, he⟩ := intoMtp_error hinto
      cases name <;> cases he
    · rw [mountOn] at hmount
      split at hmount
      · cases hmount
      · cases name <;> cases hmount

/-- **A start gives up only with reason.**  Its answer is that of the first try whose answer
another try could not change, or of the fifth one.  When that answer is that the device is
missing, the try looked five times, with a wait between two looks, and the bus had no such
device at any of them. -/
theorem mtpOpen_gives_up (name : Option Str) (settings : Settings) (b : Bus τ) :
    ∃ k ≤ moreTries, ∃ c, c = paused sleep (mtpOpenOnce name settings) k b ∧
      mtpOpen name settings b = mtpOpenOnce name settings c ∧
      (∀ j < k, Worth OpenError.worthAnotherTry
        (mtpOpenOnce name settings (paused sleep (mtpOpenOnce name settings) j b)).1) ∧
      (k = moreTries ∨ ¬ Worth OpenError.worthAnotherTry (mtpOpenOnce name settings c).1) ∧
      ((mtpOpen name settings b).1 = .error (missing name) →
        ∃ want, wantOf name = .ok want ∧ ∀ j ≤ moreTries,
          Discover.find want ((sleep^[j] c.tick).sockets.map Socket.handle) = none) := by
  obtain ⟨k, hk, htry, hbefore, hlast⟩ :=
    retry_is_try OpenError.worthAnotherTry sleep (mtpOpenOnce name settings) moreTries b
  refine ⟨k, hk, _, rfl, htry, hbefore, hlast, ?_⟩
  intro hmissing
  rw [mtpOpen, htry] at hmissing
  exact mtpOpenOnce_missing (Prod.ext hmissing rfl)

end GivesUp

end Bus

end Bsdroid
