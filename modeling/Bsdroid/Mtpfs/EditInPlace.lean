import Bsdroid.Mtpfs.Acknowledged
import Bsdroid.Mtpfs.Adopt

/-!
# An open for writing, and its close

A program opens a file to change part of it, and closes it.  The close puts what the entry stands
for in the place of the file, so a copy that is short when the open answers 0 cuts the file.
`Fs.edits_whole_iff` says when it does not: a fault stops the adoption, or the recorded size is not
below the length of the object and no chunk of the copy starts with nothing.
-/

namespace Bsdroid

/-- The answer of `op_open` to a program that writes marks it as one. -/
theorem fhWrites_writer (h : UInt32) : fhWrites (some (h.toNat + fhWriter)) = true := by
  have hlow : h.toNat.testBit 32 = false := Nat.testBit_lt_two_pow h.toNat_lt
  have hhigh : (h.toNat + fhWriter).testBit 32 = true := by
    rw [fhWriter, Nat.add_comm, Nat.testBit_two_pow_add_eq, hlow]
    rfl
  have hne : (h.toNat + fhWriter) &&& fhWriter ≠ 0 := by
    intro hzero
    have hbit := congrArg (fun n => Nat.testBit n 32) hzero
    simp only [Nat.testBit_and, hhigh, Nat.zero_testBit, Bool.true_and] at hbit
    rw [fhWriter, Nat.testBit_two_pow_self] at hbit
    cases hbit
  exact decide_eq_true hne

namespace Fs

variable {fs fs' fs₀ : Fs Phone} {h : UInt32} {x : Object} {path : Str} {entry : Entry}

/-- An edit in place starts from the whole object.  The adoption makes an entry for all of it, or
none; and where `op_open` gave a handle, a close that answers 0 puts a file with all the bytes of the
object in its place.  The device and the disk of the host can do anything between the two, as long
as the entry and its spool file are as the open left them, and the handle is not one of a folder. -/
structure EditsWhole (x : Object) (path : Str) (h : UInt32) (entry : Entry) (fs : Fs Phone) :
    Prop where
  adopts : WholeOrNothing x path entry fs (adoptForWrite path h entry true fs)
  closes : ∀ flags fs₀ fh fs', Oflag.writes flags = true → flags &&& Oflag.TRUNC = 0 →
    resolved path fs₀ = (.ok h, fs) → fs.tree.get h = some entry →
    opOpen path flags fs₀ = (.ok fh, fs') →
      ∀ (now : Fs Phone) host, now.pending path = fs'.pending path → now.disk = fs'.disk →
        now.store.Kind h false → (now.call (host, .flush path (some fh))).1 = .ok 0 →
          ∃ y, now.store.Brought (now.step (host, .flush path (some fh))).store entry.parent
            entry.name x.content.bytes y

/-- An open for writing of a file that no program writes is an adoption. -/
theorem opOpen_adopts {flags fh : Nat} (hfree : fs.pending path = none)
    (hwrites : Oflag.writes flags = true) (hkeep : flags &&& Oflag.TRUNC = 0)
    (hresolved : resolved path fs₀ = (.ok h, fs)) (hentry : fs.tree.get h = some entry)
    (hrun : opOpen path flags fs₀ = (.ok fh, fs')) :
    fh = h.toNat + fhWriter ∧ adoptForWrite path h entry true fs = (.ok (), fs') := by
  rw [opOpen, Proc.bind_ok hresolved, Proc.bind_ok (Proc.get_run _), hentry] at hrun
  dsimp only at hrun
  cases hdir : entry.isDir with
  | true =>
      rw [hdir, if_pos rfl] at hrun
      cases hrun
  | false =>
      rw [hdir, if_neg Bool.false_ne_true, if_pos ⟨hwrites, hfree⟩, hwrites, if_pos rfl,
        decide_eq_true hkeep] at hrun
      obtain ⟨⟨⟩, fs₁, hadopts, hrun⟩ := Proc.bind_eq_ok hrun
      cases hrun
      exact ⟨rfl, hadopts⟩

/-- **An edit in place starts from the whole file** exactly when a fault stops it before there is an
entry, or the recorded size is not below the length of the object and no chunk of the copy starts
with nothing. -/
theorem edits_whole_iff (hx : fs.mtp.session.store.find h = some x) (hok : fs.mtp.CacheOk)
    (hsize : entry.size < wordSize) (hnames : fs.mtp.Names (entry.size - 1))
    (hfree : fs.pending path = none) :
    EditsWhole x path h entry fs ↔
      NoEntry fs h entry.size ∨ (x.content.bytes.length ≤ entry.size ∧
        (ReachesCopy fs entry.size → ¬ Starved x h entry.size fs.host.fills 0 fs.mtp)) := by
  have hiff := adoptForWrite_whole_iff hx hok hsize hnames hfree
  refine ⟨fun hwhole => hiff.mp hwhole.adopts, fun hcond => ⟨hiff.mpr hcond, ?_⟩⟩
  intro flags fs₀ fh fs' hwrites hkeep hresolved hentry hopen now host hpending hdisk hkind hflush
  obtain ⟨rfl, hadopts⟩ := opOpen_adopts hfree hwrites hkeep hresolved hentry hopen
  have hmade : ¬ NoEntry fs h entry.size := by
    intro hnone
    obtain ⟨rc, fs₁, hrefused, -⟩ := @adoptForWrite_refused fs h path entry hnone
    cases hadopts.symm.trans hrefused
  obtain ⟨n, fs₁, hrun, hp, hspool, hle, hfed⟩ :=
    adoptForWrite_made hx hok hsize hnames hfree hmade
  cases hadopts.symm.trans hrun
  obtain ⟨hlong, hthere⟩ := hcond.resolve_left hmade
  obtain rfl := hfed.mpr hthere
  rw [List.take_of_length_le hlong] at hspool
  have hnow : now.pending path = some (adopted h entry fs.spoolCount entry.size) := by
    rw [hpending, hp, Function.update_self]
  have hholds : Holds now path (.of x.content.bytes) := by
    refine ⟨_, x.content.bytes, hnow, rfl, ?_, rfl, Nat.le_antisymm hle hlong⟩
    rw [hdisk]
    exact hspool
  have hreplaces : ∀ old, (adopted h entry fs.spoolCount entry.size).replaces = some old →
      now.store.Kind old false := by
    intro old hold
    cases hold
    exact hkind
  obtain ⟨y, hbrought⟩ := flush_brings hreplaces hnow rfl hholds (fhWrites_writer h) hflush
  rw [SparseFile.contents_of] at hbrought
  exact ⟨y, hbrought⟩

/-- The entry of a file of 3 bytes in the root, and its path. -/
def threeBytes : Entry := ⟨1, root, ['a'], false, 3⟩

def slashA : Str := ['/', 'a']

/-- A mount on a cellphone that holds it, and gives at most some bytes of every
range. -/
def mountGiving (given : Nat) : Fs Phone :=
  start (Mtp.standard (Phone.holding (Mtp.storeOfZeros 3 (by decide))
    { Policy.obliging with given := fun _ _ => given })) Host.obliging

/-- A device that gives one byte of every range still gives the whole file. -/
theorem edits_whole_byte_by_byte :
    EditsWhole (Mtp.zeros 1 ['a'] 3) slashA 1 threeBytes (mountGiving 1) ↔
      NoEntry (mountGiving 1) 1 3 ∨ ((Mtp.zeros 1 ['a'] 3).content.bytes.length ≤ 3 ∧
        (ReachesCopy (mountGiving 1) 3 → ¬ Starved (Mtp.zeros 1 ['a'] 3) 1 3 (fun _ => none) 0
          (mountGiving 1).mtp)) :=
  edits_whole_iff (show Store.find _ 1 = some (Mtp.zeros 1 ['a'] 3) by decide +kernel)
    (fun _ hc => by cases hc) (show 3 < wordSize by decide) (.inl ⟨rfl, by decide⟩) rfl

/-- The file as a listing showed it before its third byte came. -/
def twoBytes : Entry := { threeBytes with size := 2 }

/-- A mount that knows the file by that listing. -/
def listedShort : Fs Phone :=
  { mountGiving (2 ^ 64) with tree := Tree.new.setChildren root [twoBytes] }

/-- An open of `/a` for writing, and its close. -/
def openAndClose (fs : Fs Phone) : Int × Int × Fs Phone :=
  let (opened, fs₁) := Call.run (.opens slashA Oflag.RDWR) fs
  let (closed, fs₂) := Call.run (.flush slashA (some fhWriter)) fs₁
  (opened, closed, fs₂)

/-- The files in the root of the device. -/
def files (fs : Fs Phone) : List (Str × Bytes) :=
  (fs.store.children root).map fun y => (y.name, y.content.bytes)

/-- **An edit can start from a part of the file.**  A device that answers OK with no bytes leaves an
empty copy, and a listing from before the file grew leaves a short one.  The open and the close both
answer 0, and the copy is in the place of the file. -/
theorem short_copy_cuts :
    (¬ EditsWhole (Mtp.zeros 1 ['a'] 3) slashA 1 threeBytes (mountGiving 0) ∧
      (openAndClose (mountGiving 0)).1 = 0 ∧ (openAndClose (mountGiving 0)).2.1 = 0 ∧
      files (openAndClose (mountGiving 0)).2.2 = [(['a'], [])]) ∧
    ¬ EditsWhole (Mtp.zeros 1 ['a'] 3) slashA 1 twoBytes listedShort ∧
      (openAndClose listedShort).1 = 0 ∧ (openAndClose listedShort).2.1 = 0 ∧
      files (openAndClose listedShort).2.2 = [(['a'], [0, 0])] := by
  refine ⟨⟨fun hwhole => ?_, by decide +kernel, by decide +kernel, by decide +kernel⟩,
    fun hwhole => ?_, by decide +kernel, by decide +kernel, by decide +kernel⟩
  · have hrun : (adoptForWrite slashA 1 threeBytes true (mountGiving 0)).1 = .ok () := by
      decide +kernel
    have hsize : ((adoptForWrite slashA 1 threeBytes true (mountGiving 0)).2.pending slashA).map
        Pending.size = some 0 := by decide +kernel
    have hadopts := hwhole.adopts
    rcases hresult : adoptForWrite slashA 1 threeBytes true (mountGiving 0) with ⟨r, fs'⟩
    rw [hresult] at hadopts hrun hsize
    obtain rfl : r = .ok () := hrun
    obtain ⟨-, p, hp, hpsize, -⟩ := hadopts
    rw [hp, Function.update_self, Option.map_some, Option.some.injEq, hpsize] at hsize
    exact absurd hsize (by decide)
  · have hrun : (adoptForWrite slashA 1 twoBytes true listedShort).1 = .ok () := by decide +kernel
    have hadopts := hwhole.adopts
    rcases hresult : adoptForWrite slashA 1 twoBytes true listedShort with ⟨r, fs'⟩
    rw [hresult] at hadopts hrun
    obtain rfl : r = .ok () := hrun
    exact absurd hadopts.1 (by decide)

end Fs

end Bsdroid
