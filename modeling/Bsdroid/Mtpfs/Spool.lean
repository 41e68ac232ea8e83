import Bsdroid.Lib.SparseFile
import Bsdroid.MtpSession.Session

/-!
# The spool files of the host

The bytes a program writes go to a spool file first, and the send to the device
reads them from there.  `Host` is what the disk of the host does in one call: a
short write, a full disk, a failed read.  A host that does what it is asked is
`Host.obliging`.
-/

namespace Bsdroid

/-- What a file gives for one write at a position. -/
inductive WriteAnswer where
  | took (count : Nat)
  | fault (number : Int)
deriving DecidableEq, Repr

/-- One read of a file by a reader. -/
inductive ReadStep where
  | upTo (count : Nat)
  | interrupted
  | fault (e : IoError)
deriving DecidableEq, Repr

/-- What the disk of the host does in one call.  `writes` and `reading` tell the
first answers, and every later write takes all bytes and every later read gives
all bytes. -/
structure Host where
  /-- The free bytes of the spool folder, when `statvfs` works. -/
  free : Option Nat
  /-- Whether a spool file can be made. -/
  makes : Bool
  /-- How many bytes of the chunk at an offset the spool file takes, when it does
  not take them all. -/
  fills : Nat → Option Nat
  seeks : Bool
  resizes : Bool
  writes : List WriteAnswer
  reading : List ReadStep
  /-- The most bytes a read at a position gives, when it works. -/
  readsAt : Option Nat

/-- A host on which everything works. -/
def Host.obliging : Host where
  free := none
  makes := true
  fills _ := none
  seeks := true
  resizes := true
  writes := []
  reading := []
  readsAt := some (2 ^ 63)

/-- The bytes of a file after a write at a position.  A hole before the position
reads as zeros. -/
def patch (file : Bytes) (offset : Nat) (bytes : Bytes) : Bytes :=
  let padded := file ++ List.replicate (offset - file.length) 0
  padded.take offset ++ bytes ++ padded.drop (offset + bytes.length)

/-- The bytes of a file after a change of its size. -/
def resize (file : Bytes) (size : Nat) : Bytes :=
  file.take size ++ List.replicate (size - file.length) 0

/-- Writes bytes at a position until all of them are down, or the file takes
none, or a write fails.  The answer is the count of bytes that are down. -/
def writeAt (offset : Nat) (bytes : Bytes) :
    List WriteAnswer → Nat → Bytes → Except Int Nat × Bytes
  | [], done, file =>
      if done < bytes.length then
        (.ok bytes.length, patch file (offset + done) (bytes.drop done))
      else (.ok done, file)
  | answer :: rest, done, file =>
      if done < bytes.length then
        match answer with
        | .took count =>
            let n := min count (bytes.length - done)
            if n = 0 then (.ok done, file)
            else writeAt offset bytes rest (done + n)
              (patch file (offset + done) ((bytes.drop done).take n))
        | .fault number => (.error number, file)
      else (.ok done, file)

/-- The reader over a file, from its first byte. -/
def readerOf : List ReadStep → Bytes → List ReadAnswer
  | [], file => [.bytes file]
  | .upTo count :: rest, file => .bytes (file.take count) :: readerOf rest (file.drop count)
  | .interrupted :: rest, file => .interrupted :: readerOf rest file
  | .fault e :: rest, file => .fault e :: readerOf rest file

/-! ## A spool file is a file -/

/-- A hole reads as zeros. -/
theorem getD_pad (file : Bytes) (n i : Nat) :
    (file ++ List.replicate n 0).getD i 0 = file.getD i 0 := by
  by_cases hin : i < file.length
  · exact List.getD_append _ _ _ _ hin
  · rw [List.getD_append_right _ _ _ _ (Nat.le_of_not_lt hin), List.getD_eq_getElem?_getD,
      List.getElem?_getD_replicate_default_eq, List.getD_eq_default _ _ (Nat.le_of_not_lt hin)]

theorem length_patch (file : Bytes) (offset : Nat) (bytes : Bytes) :
    (patch file offset bytes).length = max file.length (offset + bytes.length) := by
  simp only [patch, List.length_append, List.length_take, List.length_drop, List.length_replicate]
  omega

/-- A hole of a file reads as this byte. -/
instance (priority := 2000) zeroByte : Zero UInt8 := ⟨0⟩

/-- `patch` is a write of the file. -/
theorem of_patch (file : Bytes) (offset : Nat) (bytes : Bytes) :
    SparseFile.of (patch file offset bytes) = (SparseFile.of file).write offset bytes := by
  ext i
  · exact length_patch file offset bytes
  · simp only [SparseFile.write, SparseFile.of]
    have hpadded := getD_pad file (offset - file.length) i
    have hlength : (file ++ List.replicate (offset - file.length) 0).length =
        max file.length offset := by
      rw [List.length_append, List.length_replicate]
      omega
    rw [patch]
    generalize file ++ List.replicate (offset - file.length) 0 = padded at hpadded hlength
    rw [← hpadded]
    have htake : (padded.take offset).length = offset := by
      rw [List.length_take]
      omega
    by_cases hbefore : i < offset
    · rw [if_neg (by omega), List.append_assoc, List.getD_append _ _ _ _ (by omega)]
      simp only [List.getD_eq_getElem?_getD, List.getElem?_take, if_pos hbefore]
    rw [List.append_assoc, List.getD_append_right _ _ _ _ (by omega), htake]
    by_cases hinside : i < offset + bytes.length
    · rw [if_pos (by omega), List.getD_append _ _ _ _ (by omega)]
    · rw [if_neg (by omega), List.getD_append_right _ _ _ _ (by omega)]
      simp only [List.getD_eq_getElem?_getD, List.getElem?_drop]
      rw [show offset + bytes.length + (i - offset - bytes.length) = i by omega]

/-- `resize` is a change of the size of the file. -/
theorem of_resize (file : Bytes) (size : Nat) :
    SparseFile.of (resize file size) = (SparseFile.of file).truncate size := by
  ext i
  · simp only [SparseFile.size_of, SparseFile.size_truncate, resize, List.length_append,
      List.length_take, List.length_replicate]
    omega
  · simp only [SparseFile.truncate, SparseFile.of, resize, getD_pad]
    simp only [List.getD_eq_getElem?_getD, List.getElem?_take]
    split <;> rfl

/-- The first `done` bytes of a write are down, and the rest of the file is as it
was. -/
def Down (start : Bytes) (offset : Nat) (bytes : Bytes) (done : Nat) (file : Bytes) : Prop :=
  if done = 0 then file = start
  else SparseFile.of file = (SparseFile.of start).write offset (bytes.take done)

theorem Down.start (file : Bytes) (offset : Nat) (bytes : Bytes) :
    Down file offset bytes 0 file := by
  rw [Down, if_pos rfl]

/-- One more piece of a write. -/
theorem Down.patch {start file bytes : Bytes} {offset done n : Nat}
    (h : Down start offset bytes done file) (hn : 0 < n) (hle : done + n ≤ bytes.length) :
    Down start offset bytes (done + n)
      (patch file (offset + done) ((bytes.drop done).take n)) := by
  rw [Down, if_neg (by omega), of_patch]
  by_cases hfirst : done = 0
  · subst hfirst
    rw [Down, if_pos rfl] at h
    rw [h, Nat.add_zero, Nat.zero_add, List.drop_zero]
  · have hlength : (bytes.take done).length = done := List.length_take_of_le (by omega)
    have hwrite := SparseFile.write_write (SparseFile.of start) (bytes.take done)
      ((bytes.drop done).take n) offset
    rw [Down, if_neg hfirst] at h
    rw [hlength] at hwrite
    rw [h, hwrite, List.take_add]

/-- **A write that does not fail puts down the bytes it counts**, in order. -/
theorem writeAt_down {start bytes : Bytes} {offset : Nat} {plan : List WriteAnswer}
    {done total : Nat} {file file' : Bytes} (hdown : Down start offset bytes done file)
    (hdone : done ≤ bytes.length)
    (h : writeAt offset bytes plan done file = (.ok total, file')) :
    Down start offset bytes total file' ∧ total ≤ bytes.length := by
  induction plan generalizing done file with
  | nil =>
      rw [writeAt] at h
      by_cases hmore : done < bytes.length
      · rw [if_pos hmore] at h
        cases h
        have hlast := hdown.patch (n := bytes.length - done) (by omega) (by omega)
        rw [List.take_of_length_le (by rw [List.length_drop]),
          Nat.add_sub_cancel' hdone] at hlast
        exact ⟨hlast, Nat.le_refl _⟩
      · rw [if_neg hmore] at h
        cases h
        exact ⟨hdown, hdone⟩
  | cons answer plan ih =>
      rw [writeAt.eq_def] at h
      dsimp only at h
      by_cases hmore : done < bytes.length
      · rw [if_pos hmore] at h
        cases answer with
        | fault number => cases h
        | took count =>
            dsimp only at h
            by_cases hnone : min count (bytes.length - done) = 0
            · rw [if_pos hnone] at h
              cases h
              exact ⟨hdown, hdone⟩
            · rw [if_neg hnone] at h
              exact ih (hdown.patch (Nat.pos_of_ne_zero hnone) (by omega)) (by omega) h
      · rw [if_neg hmore] at h
        cases h
        exact ⟨hdown, hdone⟩

/-- **A write that works is a write of the file.** -/
theorem of_writeAt {bytes file file' : Bytes} {offset total : Nat} {plan : List WriteAnswer}
    (hbytes : bytes ≠ []) (h : writeAt offset bytes plan 0 file = (.ok total, file'))
    (hall : bytes.length ≤ total) :
    SparseFile.of file' = (SparseFile.of file).write offset bytes := by
  obtain ⟨hdown, hle⟩ := writeAt_down (Down.start file offset bytes) (Nat.zero_le _) h
  have hpos : 0 < bytes.length := List.length_pos_of_ne_nil hbytes
  rw [Down, if_neg (by omega), List.take_of_length_le hall] at hdown
  exact hdown

/-! ## What a reader over a file gives -/

/-- **A reader over a file gives the bytes of the file, from the first one on.** -/
theorem readExactOrShort_readerOf {step : String} {want : Nat} {plan : List ReadStep}
    {done file payload : Bytes} (hdone : done.length ≤ want)
    (h : (readExactOrShort step want done (readerOf plan file)).1 = .ok payload) :
    want ≤ (done ++ file).length ∧ payload = (done ++ file).take want := by
  induction plan generalizing done file with
  | nil =>
      unfold readerOf readExactOrShort at h
      by_cases hfull : want ≤ done.length
      · rw [if_pos hfull] at h
        cases h
        refine ⟨by rw [List.length_append]; omega, ?_⟩
        rw [List.take_append_of_le_length (by omega), List.take_of_length_le hdone]
      · rw [if_neg hfull] at h
        dsimp only at h
        by_cases hnone : file.isEmpty
        · rw [if_pos hnone] at h
          cases h
        rw [if_neg hnone] at h
        by_cases hroom : want - done.length < file.length
        · rw [if_pos hroom] at h
          cases h
          refine ⟨by rw [List.length_append]; omega, ?_⟩
          rw [List.take_append, List.take_of_length_le hdone]
        · rw [if_neg hroom] at h
          unfold readExactOrShort at h
          by_cases henough : want ≤ (done ++ file).length
          · rw [if_pos henough] at h
            cases h
            refine ⟨henough, (List.take_of_length_le ?_).symm⟩
            rw [List.length_append]
            omega
          · rw [if_neg henough] at h
            cases h
  | cons s plan ih =>
      have hfull : want ≤ done.length → ∀ answers,
          (readExactOrShort step want done answers).1 = .ok done := by
        intro hle answers
        cases answers with
        | nil => rw [readExactOrShort, if_pos hle]
        | cons answer rest => rw [readExactOrShort.eq_def]; simp only [if_pos hle]
      by_cases hle : want ≤ done.length
      · rw [hfull hle] at h
        cases h
        refine ⟨by rw [List.length_append]; omega, ?_⟩
        rw [List.take_append_of_le_length (by omega), List.take_of_length_le hdone]
      cases s with
      | interrupted =>
          rw [readerOf, readExactOrShort, if_neg hle] at h
          exact ih hdone h
      | fault e =>
          rw [readerOf, readExactOrShort, if_neg hle] at h
          cases h
      | upTo count =>
          rw [readerOf, readExactOrShort, if_neg hle] at h
          dsimp only at h
          by_cases hnone : (file.take count).isEmpty
          · rw [if_pos hnone] at h
            cases h
          rw [if_neg hnone] at h
          by_cases hroom : want - done.length < (file.take count).length
          · rw [if_pos hroom] at h
            cases h
            rw [List.length_take] at hroom
            refine ⟨by rw [List.length_append]; omega, ?_⟩
            rw [List.take_append, List.take_of_length_le hdone, List.take_take]
            congr 2
            omega
          · rw [if_neg hroom] at h
            have hmore := ih (by rw [List.length_append]; omega) h
            rwa [List.append_assoc, List.take_append_drop] at hmore

/-- The number of a write that fails comes from the host. -/
theorem writeAt_number {offset : Nat} {bytes file file' : Bytes} {answers : List WriteAnswer}
    {done : Nat} {number : Int}
    (h : writeAt offset bytes answers done file = (.error number, file')) :
    WriteAnswer.fault number ∈ answers := by
  induction answers generalizing done file with
  | nil =>
      rw [writeAt] at h
      split at h
      · cases h
      · cases h
  | cons answer rest ih =>
      rw [writeAt.eq_def] at h
      dsimp only at h
      by_cases hmore : done < bytes.length
      · rw [if_pos hmore] at h
        cases answer with
        | took count =>
            dsimp only at h
            split at h
            · cases h
            · exact List.mem_cons_of_mem _ (ih h)
        | fault n =>
            cases h
            exact List.mem_cons_self
      · rw [if_neg hmore] at h
        cases h

end Bsdroid
