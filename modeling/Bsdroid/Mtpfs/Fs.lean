import Bsdroid.Cellphone.Phone
import Bsdroid.Mtpfs.Spool

/-!
# The callbacks of the mount

`Fs` is the state the callbacks share: the session, the tree of listings, the
files a program is writing, and the spool files on the disk.  One definition
stands for each callback, under its name in the source, with its early returns
as faults that carry the error number.

The map of the files a program is writing goes by the path alone.  An entry that
leaves the map is dropped, and the drop removes its spool file (`dropPending`).
-/

namespace Bsdroid

/-! ## The error numbers the callbacks give -/

namespace Libc

def ENOENT : Int := 2
def EIO : Int := 5
def ENOTDIR : Int := 20
def EISDIR : Int := 21
def ENOSPC : Int := 28
def EROFS : Int := 30
def ENOTSUP : Int := 45

end Libc

/-! ## The flags of an `open` call that the callbacks read -/

namespace Oflag

def ACCMODE : Nat := 0x0003
def WRONLY : Nat := 0x0001
def RDWR : Nat := 0x0002
def TRUNC : Nat := 0x0400

/-- Says whether the caller asked to write. -/
def writes (flags : Nat) : Bool := flags &&& ACCMODE = WRONLY ∨ flags &&& ACCMODE = RDWR

end Oflag

/-- The bit in a `fh` value that marks a handle a caller can write. -/
def fhWriter : Nat := 2 ^ 32

/-- Takes the object handle out of a `fh` value. -/
def fhHandle (fh : Nat) : UInt32 := UInt32.ofNat fh

/-- Says whether a `fh` value belongs to a caller that writes.  Without one the
path decides. -/
def fhWrites : Option Nat → Bool
  | none => true
  | some fh => fh &&& fhWriter ≠ 0

/-- The mode bits for a folder and for a file. -/
def modeDir : Nat := 0o040755
def modeFile : Nat := 0o100644

/-- The count of bytes the host reads at a time when it fills a spool file. -/
def readChunk : Nat := 1024 * 1024

/-- The largest count of listings one path walk reads. -/
def maxWalk : Nat := 64

/-- A file a program is writing.  The open file and the path of the spool file
are one number here, because nothing else removes or makes that path. -/
structure Pending where
  parent : UInt32
  name : Str
  spool : Nat
  size : Nat
  sent : Option Int
  replaces : Option UInt32
  broken : Option Int
  keepSpool : Bool
deriving DecidableEq, Repr

/-- The attributes of one object. -/
structure Stat where
  mode : Nat
  links : Nat
  size : Nat
  blocks : Nat
deriving DecidableEq, Repr

/-- The state the callbacks share, with the disk of the host under it. -/
structure Fs (σ : Type) where
  mtp : Mtp σ
  tree : Tree
  pending : Str → Option Pending
  disk : Nat → Option Bytes
  spoolCount : Nat
  host : Host

namespace Fs

variable {σ : Type} {E α : Type}

/-- The state of a mount that just started. -/
def start (mtp : Mtp σ) (host : Host) : Fs σ where
  mtp := mtp
  tree := Tree.new
  pending _ := none
  disk _ := none
  spoolCount := 0
  host := host

/-! ## Steps the callbacks share -/

/-- A step on the session. -/
def onMtp (x : Proc Error (Mtp σ) α) : Proc Error (Fs σ) α :=
  x.onPart Fs.mtp fun m fs => { fs with mtp := m }

/-- A step on the session whose fault the callback reports in its own way. -/
def tryMtp (x : Proc Error (Mtp σ) α) : Proc E (Fs σ) (Except Error α) := (onMtp x).attempt

def setChildren (parent : UInt32) (entries : List Entry) : Proc E (Fs σ) Unit :=
  Proc.modify fun fs => { fs with tree := fs.tree.setChildren parent entries }

def forgetListing (parent : UInt32) : Proc E (Fs σ) Unit :=
  Proc.modify fun fs => { fs with tree := fs.tree.forgetListing parent }

/-- Takes the next number of the counter that spool files and aside names
share. -/
def nextCount : Proc E (Fs σ) Nat := fun fs =>
  (.ok fs.spoolCount, { fs with spoolCount := fs.spoolCount + 1 })

/-- Makes a spool file. -/
def makeSpool : Proc Int (Fs σ) Nat := do
  let n ← nextCount
  let fs ← Proc.get
  if fs.host.makes then do
    Proc.modify fun fs => { fs with disk := Function.update fs.disk n (some []) }
    pure n
  else Proc.fail (-Libc.EIO)

/-- The bytes of a spool file. -/
def spoolBytes (fs : Fs σ) (spool : Nat) : Bytes := (fs.disk spool).getD []

/-- Puts bytes into a spool file. -/
def putSpool (spool : Nat) (bytes : Bytes) : Proc E (Fs σ) Unit :=
  Proc.modify fun fs => { fs with disk := Function.update fs.disk spool (some bytes) }

/-- Drops an entry, and removes its spool file unless the file stays. -/
def dropPending (p : Pending) : Proc E (Fs σ) Unit :=
  Proc.modify fun fs =>
    if p.keepSpool then fs else { fs with disk := Function.update fs.disk p.spool none }

/-- Takes an entry out of the map. -/
def takePending (path : Str) : Proc E (Fs σ) (Option Pending) := fun fs =>
  (.ok (fs.pending path), { fs with pending := Function.update fs.pending path none })

/-- Puts an entry into the map, and drops the entry that was there. -/
def insertPending (path : Str) (p : Pending) : Proc E (Fs σ) Unit := do
  let old ← takePending path
  Proc.modify fun fs => { fs with pending := Function.update fs.pending path (some p) }
  match old with
  | some old => dropPending old
  | none => pure ()

section Runs

variable (fs : Fs σ)

theorem tryMtp_run (x : Proc Error (Mtp σ) α) :
    (tryMtp x : Proc E (Fs σ) (Except Error α)) fs =
      (.ok (x fs.mtp).1, { fs with mtp := (x fs.mtp).2 }) := rfl

theorem setChildren_run (parent : UInt32) (entries : List Entry) :
    (setChildren parent entries : Proc E (Fs σ) Unit) fs =
      (.ok (), { fs with tree := fs.tree.setChildren parent entries }) := rfl

theorem forgetListing_run (parent : UInt32) :
    (forgetListing parent : Proc E (Fs σ) Unit) fs =
      (.ok (), { fs with tree := fs.tree.forgetListing parent }) := rfl

theorem nextCount_run :
    (nextCount : Proc E (Fs σ) Nat) fs =
      (.ok fs.spoolCount, { fs with spoolCount := fs.spoolCount + 1 }) := rfl

theorem putSpool_run (spool : Nat) (bytes : Bytes) :
    (putSpool spool bytes : Proc E (Fs σ) Unit) fs =
      (.ok (), { fs with disk := Function.update fs.disk spool (some bytes) }) := rfl

theorem takePending_run (path : Str) :
    (takePending path : Proc E (Fs σ) (Option Pending)) fs =
      (.ok (fs.pending path), { fs with pending := Function.update fs.pending path none }) := rfl

end Runs

variable [Link σ]

/-- Finds the handle a path names, and reads a folder when the tree needs one.
The rounds bound the listings one walk reads. -/
def resolveIn (path : Str) : Nat → Proc E (Fs σ) (Option UInt32)
  | 0 => pure none
  | rounds + 1 => do
      let fs ← Proc.get
      match fs.tree.lookup path with
      | .found h => pure (some h)
      | .notFound => pure none
      | .needListing parent => do
          match ← tryMtp (Mtp.list parent) with
          | .ok entries => do
              setChildren parent entries
              resolveIn path rounds
          | .error _ => pure none

def resolve (path : Str) : Proc E (Fs σ) (Option UInt32) := resolveIn path maxWalk

/-- The handle a path names, or `ENOENT`. -/
def resolved (path : Str) : Proc Int (Fs σ) UInt32 := do
  match ← resolve path with
  | some h => pure h
  | none => Proc.fail (-Libc.ENOENT)

/-- The place of the last separator of a path. -/
def lastSlash : Str → Option Nat
  | [] => none
  | c :: cs =>
      match lastSlash cs with
      | some i => some (i + 1)
      | none => if c = '/' then some 0 else none

/-- Splits a path into the folder and the name. -/
def splitParent (path : Str) : Str × Str :=
  match lastSlash path with
  | some 0 => (['/'], path.drop 1)
  | some i => (path.take i, path.drop (i + 1))
  | none => (['/'], path)

/-- The name of an object that moves aside, for a number of the counter. -/
def asideOf (name : Str) (n : Nat) : Str :=
  name ++ ['.', 'b', 's', 'd', 'r', 'o', 'i', 'd', '-', 'o', 'l', 'd', '-'] ++ Nat.toDigits 10 n

/-- Builds a name for an object that moves aside. -/
def asideName (name : Str) : Proc E (Fs σ) Str := do
  let n ← nextCount
  pure (asideOf name n)

/-! ## Questions -/

/-- Gives the attributes of one object. -/
def opGetattr (path : Str) : Proc Int (Fs σ) Stat := do
  let fs ← Proc.get
  match fs.pending path with
  | some p => pure { mode := modeFile, links := 1, size := p.size, blocks := 0 }
  | none => do
      let handle ← resolved path
      let fs ← Proc.get
      if handle = root then pure { mode := modeDir, links := 2, size := 0, blocks := 0 }
      else
        match fs.tree.get handle with
        | some e =>
            if e.isDir then pure { mode := modeDir, links := 2, size := 0, blocks := 0 }
            else pure {
              mode := modeFile
              links := 1
              size := e.size
              blocks := (e.size + 511) / 512 }
        | none => Proc.fail (-Libc.ENOENT)

/-- A name as it goes in a folder: a separator or a null reads as `_`. -/
def shownName (name : Str) : Str := name.map fun c => if c = '/' ∨ c = '\x00' then '_' else c

/-- Lists a folder. -/
def opReaddir (path : Str) : Proc Int (Fs σ) (List Str) := do
  let handle ← resolved path
  let fs ← Proc.get
  -- A folder the walk did not open still needs a read.
  if fs.tree.isListed handle then pure ()
  else
    match ← tryMtp (Mtp.list handle) with
    | .ok entries => setChildren handle entries
    | .error _ => Proc.fail (-Libc.EIO)
  let fs ← Proc.get
  match fs.tree.children handle with
  | some entries => pure (['.'] :: ['.', '.'] :: entries.map fun e => shownName e.name)
  | none => Proc.fail (-Libc.EIO)

/-- Reports the size and the free space of the storage, in blocks of 4096
bytes. -/
def opStatfs : Proc Int (Fs σ) (Nat × Nat) := do
  match ← tryMtp Mtp.storageInfo with
  | .ok (total, free) => pure (total / 4096, free / 4096)
  | .error _ => Proc.fail (-Libc.EIO)

/-! ## Files a program writes -/

/-- Reads a whole object from the device into a spool file, from a position on.
Each round takes at least one byte or ends the loop, so `size` rounds are
enough. -/
def copyFrom (handle : UInt32) (size spool : Nat) : Nat → Nat → Proc Int (Fs σ) Nat
  | 0, pos => pure pos
  | rounds + 1, pos =>
      if pos < size then do
        match ← tryMtp (Mtp.readAt handle pos (min readChunk (size - pos)) size) with
        | .error _ => Proc.fail (-Libc.EIO)
        | .ok data =>
            if data.isEmpty then pure pos
            else do
              let fs ← Proc.get
              match fs.host.fills pos with
              | some count => do
                  putSpool spool (fs.spoolBytes spool ++ data.take count)
                  Proc.fail (-Libc.EIO)
              | none => do
                  putSpool spool (fs.spoolBytes spool ++ data)
                  copyFrom handle size spool rounds (pos + data.length)
      else pure pos

/-- Reads a whole object from the device into a spool file. -/
def copyObjectToSpool (handle : UInt32) (size spool : Nat) : Proc Int (Fs σ) Nat :=
  copyFrom handle size spool size 0

/-- Refuses a change to a file that does not fit on the disk of the host. -/
def checkRoom (size : Nat) (keep : Bool) : Proc Int (Fs σ) Unit := do
  let fs ← Proc.get
  if keep ∧ size > 0 then
    match fs.host.free with
    | some free => if size > free then Proc.fail (-Libc.ENOSPC) else pure ()
    | none => pure ()
  else pure ()

/-- Makes a spool file for an object that is already on the device.  `keep` says
whether the old bytes go into it. -/
def adoptForWrite (path : Str) (handle : UInt32) (entry : Entry) (keep : Bool) :
    Proc Int (Fs σ) Unit := do
  checkRoom entry.size keep
  let spool ← makeSpool
  let size ← if keep ∧ entry.size > 0 then copyObjectToSpool handle entry.size spool else pure 0
  insertPending path {
    parent := entry.parent
    name := entry.name
    spool := spool
    size := size
    sent := none
    replaces := some handle
    broken := none
    keepSpool := false }

/-- Opens a file.  The answer is the `fh` value: the handle, with a mark for a
caller that writes. -/
def opOpen (path : Str) (flags : Nat) : Proc Int (Fs σ) Nat := do
  let handle ← resolved path
  let fs ← Proc.get
  match fs.tree.get handle with
  | some entry =>
      if entry.isDir then Proc.fail (-Libc.EISDIR)
      else do
        if Oflag.writes flags ∧ fs.pending path = none then
          adoptForWrite path handle entry (flags &&& Oflag.TRUNC = 0)
        else pure ()
        pure (handle.toNat + if Oflag.writes flags then fhWriter else 0)
  | none => Proc.fail (-Libc.EISDIR)

/-- Makes a new file. -/
def opCreate (path : Str) : Proc Int (Fs σ) Nat := do
  let (dir, name) := splitParent path
  if name.isEmpty then Proc.fail (-Libc.EIO)
  else do
    let parent ← resolved dir
    let spool ← makeSpool
    insertPending path {
      parent := parent
      name := name
      spool := spool
      size := 0
      sent := none
      replaces := none
      broken := none
      keepSpool := false }
    pure fhWriter

/-- Changes an entry in the map. -/
def setPending (path : Str) (p : Pending) : Proc E (Fs σ) Unit :=
  Proc.modify fun fs => { fs with pending := Function.update fs.pending path (some p) }

/-- Keeps the bytes of a write. -/
def opWrite (path : Str) (bytes : Bytes) (offset : Nat) : Proc Int (Fs σ) Nat := do
  let fs ← Proc.get
  match fs.pending path with
  | none => Proc.fail (-Libc.EROFS)
  | some p => do
      let (answer, file) := writeAt offset bytes fs.host.writes 0 (fs.spoolBytes p.spool)
      putSpool p.spool file
      match answer with
      | .error rc => do
          setPending path { p with broken := some rc }
          Proc.fail (-rc)
      | .ok done =>
          if done < bytes.length then do
            setPending path { p with broken := some Libc.ENOSPC }
            Proc.fail (-Libc.ENOSPC)
          else do
            setPending path { p with size := max p.size (offset + bytes.length) }
            pure bytes.length

/-- Makes room for the contents of an entry, and says whether the old object
still exists.  The old object moves aside when two copies fit, and goes first
when only one does. -/
def makeRoom (p : Pending) : Proc Int (Fs σ) (Pending × Bool) := do
  match p.replaces with
  | none => pure (p, true)
  | some old => do
      let fs ← Proc.get
      let oldSize := ((fs.tree.get old).map Entry.size).getD 0
      let free := match ← tryMtp Mtp.storageInfo with
        | .ok (_, free) => free
        | .error _ => wordSize - 1
      if free ≥ p.size then do
        let aside ← asideName p.name
        match ← tryMtp (Mtp.renameObject old aside) with
        | .ok () => pure (p, true)
        | .error _ => Proc.fail (-Libc.EIO)
      else if min (free + oldSize) (wordSize - 1) ≥ p.size then do
        match ← tryMtp (Mtp.deleteObject old) with
        | .ok () => pure ({ p with replaces := none }, false)
        | .error _ => Proc.fail (-Libc.EIO)
      else Proc.fail (-Libc.ENOSPC)

/-- What comes before the send: the spool file holds the bytes and can be read
from the start, and the device has room. -/
def readyToSend (p : Pending) : Proc Int (Fs σ) (Pending × Bool) := do
  let fs ← Proc.get
  match p.broken with
  | some rc => Proc.fail (-rc)
  | none => if fs.host.seeks then makeRoom p else Proc.fail (-Libc.EIO)

/-- The send itself, and what follows from its answer: the old object goes when
the contents arrived, and gets its name back when they did not. -/
def deliver (p : Pending) (oldCopyExists : Bool) : Proc E (Fs σ) (Int × Pending) := do
  let fs ← Proc.get
  match ← tryMtp (Mtp.sendObjectStream p.parent p.name
      (readerOf fs.host.reading (fs.spoolBytes p.spool)) p.size) with
  | .ok _ => do
      match p.replaces with
      | some old => do
          -- A leftover object is untidy, and is not a fault of the write.
          let _ ← tryMtp (Mtp.deleteObject old)
          pure ()
      | none => pure ()
      forgetListing p.parent
      pure (0, { p with replaces := none })
  | .error _ => do
      match p.replaces with
      | some old => do
          let _ ← tryMtp (Mtp.renameObject old p.name)
          pure ()
      | none => pure ()
      forgetListing p.parent
      pure (-Libc.EIO, {
        p with
        replaces := none
        keepSpool := p.keepSpool || !oldCopyExists })

/-- Sends one spooled file to the device.  The answer is the error number, and
the entry after the send. -/
def sendPending (p : Pending) : Proc E (Fs σ) (Int × Pending) := do
  match ← (readyToSend p).attempt with
  | .error rc => pure (rc, p)
  | .ok (p, oldCopyExists) => deliver p oldCopyExists

/-- Sends the file to the device when a program closes the file. -/
def opFlush (path : Str) (fi : Option Nat) : Proc Int (Fs σ) Int :=
  if fhWrites fi then do
    match ← takePending path with
    | none => pure 0
    | some p => do
        let (rc, p) ← match p.sent with
          | some earlier => pure (earlier, p)
          | none => do
              let (rc, p) ← sendPending p
              pure (rc, { p with sent := some rc })
        insertPending path p
        pure rc
  else pure 0

/-- Removes the spool file when a program closes the file. -/
def opRelease (path : Str) (fi : Option Nat) : Proc Int (Fs σ) Int :=
  if fhWrites fi then do
    match ← takePending path with
    | none => pure 0
    | some p => do
        let p ← match p.sent with
          | some _ => pure p
          | none => do
              let (_, p) ← sendPending p
              pure p
        dropPending p
        pure 0
  else pure 0

/-- Sets the size of the spool file of an entry, and of the entry. -/
def resizePending (path : Str) (p : Pending) (size : Nat) : Proc Int (Fs σ) Pending := do
  let fs ← Proc.get
  if fs.host.resizes then do
    putSpool p.spool (resize (fs.spoolBytes p.spool) size)
    setPending path { p with size := size }
    pure { p with size := size }
  else Proc.fail (-Libc.EIO)

/-- Accepts a change of size.  A file no program writes adopts a spool file and
is sent at once. -/
def opTruncate (path : Str) (size : Nat) : Proc Int (Fs σ) Int := do
  let fs ← Proc.get
  match fs.pending path with
  | some p => do
      let _ ← resizePending path p size
      pure 0
  | none => do
      let handle ← resolved path
      let fs ← Proc.get
      match fs.tree.get handle with
      | some entry =>
          if entry.isDir then Proc.fail (-Libc.EISDIR)
          else do
            adoptForWrite path handle entry (size > 0)
            let fs ← Proc.get
            match fs.pending path with
            | some p => do
                let _ ← resizePending path p size
                match ← takePending path with
                | some taken => do
                    let (rc, taken) ← sendPending taken
                    dropPending taken
                    pure rc
                | none => Proc.fail (-Libc.EIO)
            | none => Proc.fail (-Libc.EIO)
      | none => Proc.fail (-Libc.EISDIR)

/-! ## Changes of the tree -/

/-- Moves the object that holds the new name aside.  The answer is that object,
and no object when the name is free; `none` says that the caller renames an
object onto itself. -/
def clearTarget (target newName : Str) (handle newParent : UInt32) :
    Proc Int (Fs σ) (Option (Option UInt32)) := do
  match ← resolve target with
  | none => pure (some none)
  | some taken =>
      if taken = handle then pure none
      else if taken = root then Proc.fail (-Libc.EIO)
      else do
        let aside ← asideName newName
        match ← tryMtp (Mtp.renameObject taken aside) with
        | .error _ => Proc.fail (-Libc.EIO)
        | .ok () => do
            forgetListing newParent
            pure (some (some taken))

/-- Moves the object to the new folder, when the folders differ. -/
def moveAcross (handle oldParent newParent : UInt32) : Proc Int (Fs σ) Unit := do
  let fs ← Proc.get
  if newParent ≠ oldParent then
    if fs.mtp.canMove then
      match ← tryMtp (Mtp.moveObject handle newParent) with
      | .ok () => pure ()
      | .error _ => Proc.fail (-Libc.EIO)
    else Proc.fail (-Libc.ENOTSUP)
  else pure ()

/-- Gives the object its new name, when the names differ.  A fault puts the
object that moved aside back. -/
def renameInPlace (handle newParent : UInt32) (newName : Str) (aside : Option UInt32) :
    Proc Int (Fs σ) Unit := do
  let fs ← Proc.get
  let oldName := ((fs.tree.get handle).map Entry.name).getD []
  if oldName ≠ newName then
    if fs.mtp.canRename then
      match ← tryMtp (Mtp.renameObject handle newName) with
      | .ok () => pure ()
      | .error _ => do
          match aside with
          | some old => do
              let _ ← tryMtp (Mtp.renameObject old newName)
              pure ()
          | none => pure ()
          forgetListing newParent
          Proc.fail (-Libc.EIO)
    else Proc.fail (-Libc.ENOTSUP)
  else pure ()

/-- Removes the object that moved aside. -/
def dropAside (aside : Option UInt32) : Proc Int (Fs σ) Unit := do
  match aside with
  | some old => do
      let _ ← tryMtp (Mtp.deleteObject old)
      pure ()
  | none => pure ()

/-- Gives an object a new name, and moves the object to another folder. -/
def opRename (source target : Str) : Proc Int (Fs σ) Int := do
  let handle ← resolved source
  if handle = root then Proc.fail (-Libc.EIO)
  else do
    let (oldDir, _) := splitParent source
    let (newDir, newName) := splitParent target
    if newName.isEmpty then Proc.fail (-Libc.EIO)
    else do
      let oldParent ← resolved oldDir
      let newParent ← resolved newDir
      match ← clearTarget target newName handle newParent with
      | none => pure 0
      | some aside => do
          moveAcross handle oldParent newParent
          renameInPlace handle newParent newName aside
          dropAside aside
          forgetListing oldParent
          forgetListing newParent
          pure 0

/-- Removes an object, and checks the kind first. -/
def removeObject (path : Str) (wantDir : Bool) : Proc Int (Fs σ) Int := do
  let handle ← resolved path
  if handle = root then Proc.fail (-Libc.EIO)
  else do
    let fs ← Proc.get
    match fs.tree.get handle with
    | none => Proc.fail (-Libc.ENOENT)
    | some e =>
        if e.isDir ≠ wantDir then
          Proc.fail (if wantDir then -Libc.ENOTDIR else -Libc.EISDIR)
        else do
          match ← tryMtp (Mtp.deleteObject handle) with
          | .ok () => do
              forgetListing e.parent
              pure 0
          | .error _ => Proc.fail (-Libc.EIO)

/-- Removes a file. -/
def opUnlink (path : Str) : Proc Int (Fs σ) Int := removeObject path false

/-- Removes a folder. -/
def opRmdir (path : Str) : Proc Int (Fs σ) Int := removeObject path true

/-- Makes a folder. -/
def opMkdir (path : Str) : Proc Int (Fs σ) Int := do
  let (dir, name) := splitParent path
  if name.isEmpty then Proc.fail (-Libc.EIO)
  else do
    let parent ← resolved dir
    match ← tryMtp (Mtp.sendObject parent name [] true) with
    | .ok _ => do
        forgetListing parent
        pure 0
    | .error _ => Proc.fail (-Libc.EIO)

/-- Reads part of a file.  A spool file holds bytes the device has not seen, so
it answers first. -/
def opRead (path : Str) (size offset : Nat) (fi : Option Nat) : Proc Int (Fs σ) Bytes := do
  let fs ← Proc.get
  match fs.pending path with
  | some p =>
      if offset ≥ p.size then pure []
      else
        match fs.host.readsAt with
        | some count =>
            pure (((fs.spoolBytes p.spool).drop offset).take (min count (min size (p.size - offset))))
        | none => Proc.fail (-Libc.EIO)
  | none => do
      let handle ← match fi with
        | some fh => if fhHandle fh ≠ 0 then pure (fhHandle fh) else resolved path
        | none => resolved path
      let fs ← Proc.get
      match fs.tree.get handle with
      | none => Proc.fail (-Libc.ENOENT)
      | some e =>
          if offset ≥ e.size then pure []
          else
            match ← tryMtp (Mtp.readAt handle offset (min size (e.size - offset)) e.size) with
            | .ok data => pure (data.take size)
            | .error _ => Proc.fail (-Libc.EIO)

/-! ## One call -/

/-- A call of the kernel, with the bytes and the `fh` value it brings. -/
inductive Call where
  | getattr (path : Str)
  | readdir (path : Str)
  | statfs
  | opens (path : Str) (flags : Nat)
  | create (path : Str)
  | read (path : Str) (size offset : Nat) (fi : Option Nat)
  | write (path : Str) (bytes : Bytes) (offset : Nat)
  | truncate (path : Str) (size : Nat)
  | flush (path : Str) (fi : Option Nat)
  | release (path : Str) (fi : Option Nat)
  | rename (source target : Str)
  | unlink (path : Str)
  | rmdir (path : Str)
  | mkdir (path : Str)
deriving DecidableEq, Repr

/-- The number a callback gives back: a count of bytes, 0, or an error number
below 0. -/
def Call.number : Call → Proc Int (Fs σ) Int
  | .getattr path => do let _ ← opGetattr path; pure 0
  | .readdir path => do let _ ← opReaddir path; pure 0
  | .statfs => do let _ ← opStatfs; pure 0
  | .opens path flags => do let _ ← opOpen path flags; pure 0
  | .create path => do let _ ← opCreate path; pure 0
  | .read path size offset fi => do
      let bytes ← opRead path size offset fi
      pure bytes.length
  | .write path bytes offset => do
      let count ← opWrite path bytes offset
      pure count
  | .truncate path size => opTruncate path size
  | .flush path fi => opFlush path fi
  | .release path fi => opRelease path fi
  | .rename source target => opRename source target
  | .unlink path => opUnlink path
  | .rmdir path => opRmdir path
  | .mkdir path => opMkdir path

/-- Runs a call to its end. -/
def Call.run (c : Call) (fs : Fs σ) : Int × Fs σ :=
  match c.number fs with
  | (.ok n, fs) => (n, fs)
  | (.error n, fs) => (n, fs)

end Fs

end Bsdroid
