import Bsdroid.Cellphone.Listener
import Bsdroid.Mtpfs.Calls
import Bsdroid.Mtpfs.Opening

/-!
# One run of the program

`mtpfs` reads its arguments, and then it prints a help text, lists the devices, prints the name
of one device, or mounts one and serves the callbacks until the folder is unmounted.  FUSE is
outside: what it does with its own arguments is the list of the callbacks it makes.

A run speaks to no device but the one its arguments name (`mtpfs_reaches_only_the_named`), and
whatever faults it meets, the last thing it tells a device is to close the session
(`mtpfs_leaves_no_session`).
-/

namespace Bsdroid

/-! ## The arguments -/

/-- The options that take their value in the next argument. -/
def optionsWithValue : List Str := [['-', 'o']]

/-- Separates what the program reads from what FUSE reads. -/
def splitArgs : List Str → List Str × List Str
  | [] => ([], [])
  | a :: rest =>
      if a.head? = some '-' then
        if a ∈ optionsWithValue then
          -- An option at the end has no value, and FUSE reports that.
          match rest with
          | [] => ([], [a])
          | value :: rest => ((splitArgs rest).1, a :: value :: (splitArgs rest).2)
        else ((splitArgs rest).1, a :: (splitArgs rest).2)
      else (a :: (splitArgs rest).1, (splitArgs rest).2)

/-- What the arguments ask for. -/
inductive Plan where
  | usage (asked : Bool)
  | list
  | name (device : Option Str)
  | mount (device : Option Str) (fuseArgs : List Str) (folder : Str)
deriving DecidableEq, Repr

namespace Plan

def helpOptions : List Str := [['-', '-', 'h', 'e', 'l', 'p'], ['-', 'h']]

def listOptions : List Str := [['-', 'l'], ['-', '-', 'l', 'i', 's', 't']]

def nameOptions : List Str := [['-', '-', 'n', 'a', 'm', 'e']]

/-- Reads the arguments.  One name is a folder, and the first of two names is a device. -/
def ofArgs (args : List Str) : Plan :=
  if args.any (· ∈ helpOptions) then .usage true
  else if args.any (· ∈ listOptions) then .list
  else if args.any (· ∈ nameOptions) then .name (splitArgs args).1.head?
  else
    match (splitArgs args).1 with
    | [folder] => .mount none (splitArgs args).2 folder
    | [device, folder] => .mount (some device) (splitArgs args).2 folder
    | _ => .usage false

/-- The plan opens a device, and this is the name for it. -/
def Opens (name : Option Str) : Plan → Prop
  | .name device | .mount device _ _ => device = name
  | _ => False

end Plan

/-! ## The run -/

/-- The arguments FUSE gets.  The option `-s` keeps the callbacks in one thread. -/
def fuseArguments (fuseArgs : List Str) (folder : Str) : List Str :=
  ['m', 't', 'p', 'f', 's'] :: ['-', 's'] :: fuseArgs ++ [folder]

/-- How a run ends. -/
inductive Ending where
  | usage (asked : Bool)
  | listed (devices : List Found)
  | refused (e : OpenError)
  | named (name : Str)
  | unmounted (arguments : List Str) (worked : Bool)

/-- The program ends with a success. -/
def Ending.success : Ending → Bool
  | .usage asked => asked
  | .listed devices => !devices.isEmpty
  | .refused _ => false
  | .named _ => true
  | .unmounted _ worked => worked

/-- The name of the device, for a person to read. -/
def Mtp.name {σ : Type} (m : Mtp σ) : Str := trim (m.info.manufacturer ++ ' ' :: m.info.model)

/-- What FUSE does for a mount: the callbacks it makes, and whether it gives 0. -/
structure FuseRun where
  host : Host
  calls : List (Host × Fs.Call)
  worked : Bool

section Run

variable {τ : Type} [Transport τ] [Port τ]

/-- The session of a mount after the callbacks. -/
def FuseRun.mtp (fuse : FuseRun) (m : Mtp (Session τ)) : Mtp (Session τ) :=
  ((Fs.start m fuse.host).run fuse.calls).mtp

open Bus

/-- One run of the program. -/
def mtpfs (settings : Settings) (fuse : FuseRun) (args : List Str) (b : Bus τ) :
    Ending × Bus τ :=
  match Plan.ofArgs args with
  | .usage asked => (.usage asked, b)
  | .list =>
      match startBackend b with
      | (.ok (), b) => (.listed (Discover.list (b.sockets.map Socket.handle)), b)
      | (.error e, b) => (.refused e, b)
  | .name device =>
      match mtpOpen device settings b with
      | (.ok (slot, m), b) => (.named m.name, b.putBack slot (m.drop settings.usbReset))
      | (.error e, b) => (.refused e, b)
  | .mount device fuseArgs folder =>
      match mtpOpen device settings b with
      | (.ok (slot, m), b) =>
          (.unmounted (fuseArguments fuseArgs folder) fuse.worked,
            b.putBack slot ((fuse.mtp m).drop settings.usbReset))
      | (.error e, b) => (.refused e, b)

/-! ## What a run leaves on the bus -/

variable {Q : DeviceHandle → τ → Prop} {settings : Settings} {fuse : FuseRun} {args : List Str}
  {b : Bus τ}

/-- A run opens a device of this name, and this one is on offer. -/
def OpensOn (args : List Str) (h : DeviceHandle) : Prop :=
  ∃ name want, (Plan.ofArgs args).Opens name ∧ wantOf name = .ok want ∧ Offers want h

omit [Transport τ] [Port τ] in
/-- An open device goes back to the bus. -/
theorem lent_putBack {name : Option Str} {slot : Nat} {device : τ} {b : Bus τ}
    (h : Lent Q name slot b)
    (hdevice : ∀ want handle, wantOf name = .ok want → Offers want handle → Q handle device) :
    Holds Q (b.putBack slot device) := by
  obtain ⟨want, hwant, huse⟩ := h
  exact huse.toHolds.putBack huse.at_ fun handle => hdevice want handle hwant

theorem mtpfs_holds (hb : Holds Q b) (hdrop : ∀ handle, OpensOn args handle →
    ∀ m : Mtp (Session τ), Q handle (m.drop settings.usbReset)) :
    Holds Q (mtpfs settings fuse args b).2 := by
  have hopen : ∀ name, (Plan.ofArgs args).Opens name →
      Proc.Triple (Holds Q) (mtpOpen name settings) (fun r b => Lent Q name r.1 b)
        (fun _ => Holds Q) := by
    intro name hname
    apply mtpOpen_holds
    intro want handle hwant hoffers
    exact hdrop handle ⟨name, want, hname, hwant, hoffers⟩
  rw [mtpfs]
  cases hplan : Plan.ofArgs args with
  | usage asked => exact hb
  | list =>
      have hstart := startBackend_holds (Q := Q) b hb
      dsimp only
      rcases hrun : startBackend b with ⟨e | u, b'⟩
      · rw [hrun] at hstart
        exact hstart
      · rw [hrun] at hstart
        exact hstart
  | name device =>
      have hstart := hopen device (by rw [hplan]; rfl) b hb
      dsimp only
      rcases hrun : mtpOpen device settings b with ⟨e | r, b'⟩
      · rw [hrun] at hstart
        exact hstart
      · rw [hrun] at hstart
        apply lent_putBack hstart
        intro want handle hwant hoffers
        exact hdrop handle ⟨device, want, by rw [hplan]; rfl, hwant, hoffers⟩ r.2
  | mount device fuseArgs folder =>
      have hstart := hopen device (by rw [hplan]; rfl) b hb
      dsimp only
      rcases hrun : mtpOpen device settings b with ⟨e | r, b'⟩
      · rw [hrun] at hstart
        exact hstart
      · rw [hrun] at hstart
        apply lent_putBack hstart
        intro want handle hwant hoffers
        exact hdrop handle ⟨device, want, by rw [hplan]; rfl, hwant, hoffers⟩ (fuse.mtp r.2)

/-- **A run speaks only to the device its arguments name.**  What is true of every other
device, and what no change of the bus takes away, is true of them after the run.  `inspect` opens
each device of the bus and reads its descriptors, which is no message of a session and is not
counted here. -/
theorem mtpfs_reaches_only_the_named {D : DeviceHandle → τ → Prop}
    (hb : Holds (fun h d => ¬ OpensOn args h → D h d) b) :
    Everywhere (fun h d => ¬ OpensOn args h → D h d) (mtpfs settings fuse args b).2.sockets := by
  have hholds := @mtpfs_holds _ _ _ _ settings fuse args b hb ?_
  · exact hholds.now
  · intro handle hopens m hother
    exact absurd hopens hother

end Run

/-! ## No session is left open -/

/-- A reset starts the device again. -/
instance : Port Keeper where
  resetDevice d := { d with held := none, waiting := [] }

/-- A bus with these devices, on which no session is open, and which does not change. -/
def Bus.still (handles : List DeviceHandle) (fate : Nat → ReadFate) : Bus Keeper where
  sockets := handles.map fun h => ⟨h, Session.closed fate⟩
  time := 0
  gives _ := true
  opens _ _ := 0
  changes _ sockets := sockets

theorem Bus.still_behind {handles : List DeviceHandle} {fate : Nat → ReadFate}
    {s : Socket Keeper} (hs : s ∈ (Bus.still handles fate).sockets) :
    s.behind = Session.closed fate := by
  obtain ⟨h, -, rfl⟩ := List.mem_map.mp hs
  rfl

/-- The arguments that name the cellphone with the vendor class. -/
def deskArguments : List Str :=
  [['u', 'g', 'e', 'n', '1', '.', '1', '2'], ['/', 'm', 'n', 't']]

/-- The other devices hear nothing. -/
theorem mtpfs_reaches_only_the_named_desk :
    Bus.Everywhere (fun h (d : Keeper) => ¬ OpensOn deskArguments h → d.wrote = [])
      (mtpfs Settings.default ⟨Host.obliging, [], true⟩ deskArguments
        (Bus.still Discover.desk Session.losesSecond)).2.sockets := by
  refine mtpfs_reaches_only_the_named ⟨?_, ?_⟩
  · intro s hs hother
    rw [Bus.still_behind hs]
    rfl
  · intro n sockets hsockets
    exact hsockets

/-- A reset of a device that listens starts it again. -/
instance : Port Listener where
  resetDevice d := { d with keeper := Port.resetDevice d.keeper, phase := .idle }

/-- A bus with these devices, on which no session is open and every write arrives. -/
def Bus.listening (handles : List DeviceHandle) (fate : Nat → ReadFate) : Bus Listener where
  sockets := handles.map fun h => ⟨h, ⟨Session.closed fate, .idle, fun _ => none, []⟩⟩
  time := 0
  gives _ := true
  opens _ _ := 0
  changes _ sockets := sockets

section Left

open Session Proc Bus

/-- A session stays open on the device. -/
def StaysOpen (m m' : Mtp (Session Listener)) : Prop :=
  Opened m.session.device → Opened m'.session.device

theorem takes_staysOpen : Mtp.Takes (fun r =>
    Op.takesData r.code = false ∧ r.code ≠ Op.closeSession ∧ r.payload = none) StaysOpen where
  refl _ h := h
  trans h h' hopened := h' (h hopened)
  cache _ _ h := h
  exec r hr m hopened := by
    obtain ⟨step, code, params, payload⟩ := r
    obtain ⟨hdata, hclose, hpayload⟩ := hr
    cases hpayload
    exact operation_opened hdata hclose hopened

theorem firstStorageIn_staysOpen (attempts : Nat) :
    Steps StaysOpen (Mtp.firstStorageIn attempts : Proc Error (Mtp (Session Listener)) UInt32) := by
  have h := takes_staysOpen
  induction attempts with
  | zero => exact .fail h.refl _
  | succ attempts ih =>
      apply Steps.bind (R := StaysOpen) h.trans (h.operation ⟨by decide, by decide, rfl⟩)
      intro data
      split
      · exact .pure h.refl _
      · exact ih

/-- The questions at the start of a mount leave the session open. -/
theorem readCapabilities_staysOpen (noProplist : Bool) : Steps StaysOpen
    (Mtp.readCapabilities noProplist : Proc Error (Mtp (Session Listener)) Unit) := by
  have h := takes_staysOpen
  have hrest : Steps StaysOpen (do
      let storage ← Mtp.firstStorage
      Proc.modify fun m => { m with storage := storage } :
        Proc Error (Mtp (Session Listener)) Unit) := by
    apply Steps.bind (R := StaysOpen) h.trans (firstStorageIn_staysOpen 10)
    intro storage
    exact .modify fun _ hheld => hheld
  apply Steps.bind (R := StaysOpen) h.trans (h.operation ⟨by decide, by decide, rfl⟩)
  intro raw
  apply Steps.bind (R := StaysOpen) h.trans (.mapError (.ofExcept h.refl _))
  intro info
  have hopen : ∀ f : Mtp (Session Listener) → Mtp (Session Listener),
      (∀ m, (f m).session = m.session) → Steps StaysOpen
        (Proc.modify f : Proc Error (Mtp (Session Listener)) Unit) := by
    intro f hf m hheld
    show Opened (f m).session.device
    rw [hf]
    exact hheld
  refine Steps.bind (R := StaysOpen) h.trans (hopen _ ?_) fun u => ?_
  · intro m
    rfl
  dsimp only
  split
  · refine Steps.bind (R := StaysOpen) h.trans (hopen _ ?_) fun u => hrest
    intro m
    rfl
  · split
    · refine Steps.bind (R := StaysOpen) h.trans (hopen _ ?_) fun u => hrest
      intro m
      rfl
    · exact .fail h.refl _

/-- A mount that starts holds a session on its device. -/
theorem greet_opened (noProplist : Bool) : Triple (fun _ => True)
    (Mtp.greet noProplist : Proc Error (Mtp (Session Listener)) Unit)
    (fun _ m => Opened m.session.device) (fun _ _ => True) := by
  intro m hm
  rcases hrun : Mtp.greet noProplist m with ⟨e | u, m'⟩
  · exact trivial
  · unfold Mtp.greet at hrun
    obtain ⟨opened, m₁, hopened, hrest⟩ := Proc.bind_eq_ok hrun
    have hsession : ∃ t, openSessionOrRepair 1 m.session = (.ok opened, t) ∧
        m₁ = { m with session := t } := by
      rw [mapError, onPart] at hopened
      dsimp only at hopened
      rcases hrepair : openSessionOrRepair 1 m.session with ⟨e | o, t⟩
      · rw [hrepair] at hopened
        cases hopened
      · rw [hrepair] at hopened
        cases hopened
        exact ⟨t, rfl, rfl⟩
    obtain ⟨t, hrepair, rfl⟩ := hsession
    have hopen := repair_opened hrepair
    by_cases hok : opened.outcome.isOk = true
    · rw [if_pos hok] at hrest
      have hstays := readCapabilities_staysOpen noProplist { m with session := t } hopen
      rw [hrest] at hstays
      exact hstays
    · rw [if_neg hok] at hrest
      cases hrest

variable [Port Listener] {settings : Settings} {fuse : FuseRun} {args : List Str}
  {b : Bus Listener}

/-- A start gives a mount only with a session open on its device. -/
theorem mtpOpen_yields_session (name : Option Str) :
    Yields (fun r => Opened r.2.session.device)
      (mtpOpen name settings : Proc OpenError (Bus Listener) (Nat × Mtp (Session Listener))) := by
  apply Yields.retry
  apply Yields.after
  intro want
  apply Yields.after
  intro u
  apply Yields.after
  intro place
  apply Yields.after
  intro u c r c' hrun
  have hgreet := greet_opened settings.noProplist
    (Mtp.unopened settings place.2.1.iface place.2.2) trivial
  rw [mountOn] at hrun
  rcases hopened : Mtp.greet settings.noProplist
    (Mtp.unopened settings place.2.1.iface place.2.2) with ⟨e | u, m⟩
  · rw [hopened] at hrun
    cases hrun
  · rw [hopened] at hrun hgreet
    cases hrun
    exact hgreet

/-- A reset of the port writes nothing, and opens no session. -/
def ResetsOnly (d : Listener) : Prop :=
  (Port.resetDevice d).wrote = d.wrote ∧
    ((Port.resetDevice d).keeper.held = some .here → d.keeper.held = some .here)

/-- The drop of a mount closes the session of the device, whatever the flag of the session
says. -/
theorem drop_mount_settled (hreset : ∀ d : Listener, ResetsOnly d) (usbReset : Bool)
    (m : Mtp (Session Listener)) : (m.drop usbReset).Settled := by
  have hclosed := closeSession_settled m.session
  rw [Mtp.drop]
  apply drop_settled
  cases usbReset with
  | false => exact hclosed
  | true =>
      obtain ⟨hwrote, hheld⟩ := hreset (closeSession m.session).2.device
      intro hhere
      obtain ⟨tid, hlast⟩ := hclosed (hheld hhere)
      refine ⟨tid, ?_⟩
      show (Port.resetDevice (closeSession m.session).2.device).wrote.getLast? = _
      rw [hwrote]
      exact hlast

/-- **A run holds a session just as long as it needs one.**  A start gives a mount only with a
session open on its device, but for a device that took the `OpenSession` for payload.  Whatever
a run was asked to do and whatever faults it met (a start that fails after its session was open,
a send that ends short, a lost answer to the `CloseSession`), a device on which a session of the
run stays open had a `CloseSession` for its last write, and did not hear it. -/
theorem mtpfs_leaves_no_session (hreset : ∀ d : Listener, ResetsOnly d)
    (hb : Holds (fun _ d => d.Settled) b) :
    (∀ name r b', mtpOpen name settings b = (.ok r, b') → Opened r.2.session.device) ∧
      Everywhere (fun _ d => d.Settled) (mtpfs settings fuse args b).2.sockets := by
  constructor
  · intro name r b' hopen
    exact mtpOpen_yields_session name b r b' hopen
  · have hholds := @mtpfs_holds _ _ _ _ settings fuse args b hb ?_
    · exact hholds.now
    · intro handle hopens m
      exact drop_mount_settled hreset settings.usbReset m

end Left

/-- The answer to the second command is lost, and no session stays open that a device was told
to close. -/
theorem mtpfs_leaves_no_session_desk :
    Bus.Everywhere (fun _ (d : Listener) => d.Settled)
      (mtpfs Settings.default ⟨Host.obliging, [], true⟩ deskArguments
        (Bus.listening Discover.desk Session.losesSecond)).2.sockets := by
  refine (mtpfs_leaves_no_session ?_ ⟨?_, ?_⟩).2
  · intro d
    refine ⟨rfl, ?_⟩
    intro hhere
    cases hhere
  · intro s hs hhere
    obtain ⟨h, -, rfl⟩ := List.mem_map.mp hs
    cases hhere
  · intro n sockets hsockets
    exact hsockets

end Bsdroid
