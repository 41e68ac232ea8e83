import Bsdroid.Mtpfs.FinalRead
import Bsdroid.Mtpfs.Reading

/-!
# A partial read with an offset of 32 bits

`GetPartialObject64` takes the offset in two words.  `GetPartialObject` has one word for it, and
the host cuts the offset.  On devices that answer the range they are asked for, the two give the
same bytes exactly when no read starts at 4 GiB or later, the last byte that is held back
included (`Mtp.partial_reads_agree_iff`).
-/

namespace Bsdroid

/-- So many bytes of a file, from an offset on. -/
def slice (content : Bytes) (start count : Nat) : Bytes := (content.drop start).take count

theorem getElem?_slice (content : Bytes) (start count i : Nat) :
    (slice content start count)[i]? = if i < count then content[start + i]? else none := by
  rw [slice, List.getElem?_take, List.getElem?_drop]

theorem length_slice {content : Bytes} {start count : Nat} (h : start + count ≤ content.length) :
    (slice content start count).length = count := by
  rw [slice, List.length_take, List.length_drop]
  omega

/-- A device that holds one file, and answers the range a request names. -/
def serve (content : Bytes) (_ : List Request) (r : Request) : Except SessionError Outcome :=
  .ok ⟨Resp.ok, slice content r.range.1 r.range.2, [], 1⟩

namespace Mtp

/-- The bytes read in advance, when a range of the file is. -/
def aheadOf (handle : UInt32) (content : Bytes) (held : Option (Nat × Nat)) : Option ReadCache :=
  held.map fun range => ⟨handle, range.1, slice content range.1 range.2⟩

/-- The mount `m` on a device that holds a file and offers one operation for a partial read. -/
def serving (m : Mtp Device) (op : UInt16) (handle : UInt32) (content : Bytes)
    (held : Option (Nat × Nat)) : Mtp Device :=
  { m with
    session := { m.session with answer := serve content }
    partialRead := op
    cache := aheadOf handle content held }

/-! ## What one read from the device gives -/

section Fetch

variable {m : Mtp Device} {handle : UInt32} {content : Bytes} {offset want : Nat}

theorem partialReadAt_serves (hserves : m.session.answer = serve content)
    (hoffset : offset < 2 ^ 64) (hwant : want < 2 ^ 32) :
    partialReadAt handle offset want m =
      (.ok (slice content (startIn m.partialRead offset) want),
        m.told (m.readRequest handle offset want)) := by
  have hanswer : m.answerTo (m.readRequest handle offset want) =
      .ok ⟨Resp.ok, slice content (startIn m.partialRead offset) want, [], 1⟩ := by
    rw [answerTo, hserves, serve, range_readRequest hoffset, Nat.mod_eq_of_lt hwant]
  rw [partialReadAt, Proc.bind_ok (Proc.get_run _)]
  exact operation_done hanswer rfl

/-- The bytes of a read from the device: the last one has a request of its own, when it is held
back. -/
def fetched (op : UInt16) (packet : Nat) (content : Bytes) (offset want : Nat) : Bytes :=
  if (splitFinalRead offset want content.length packet).2 then
    slice content (startIn op offset) (want - 1) ++ slice content (startIn op (offset + (want - 1))) 1
  else slice content (startIn op offset) want

theorem startIn_le (op : UInt16) (offset : Nat) : startIn op offset ≤ offset := by
  unfold startIn
  split
  · exact Nat.le_refl _
  · exact Nat.mod_le _ _

theorem length_fetched {op : UInt16} {packet : Nat} (hwant : 0 < want)
    (hinside : offset + want ≤ content.length) :
    (fetched op packet content offset want).length = want := by
  have hstart := startIn_le op offset
  have hlast := startIn_le op (offset + (want - 1))
  unfold fetched
  split
  · rw [List.length_append, length_slice (by omega), length_slice (by omega)]
    omega
  · exact length_slice (by omega)

/-- A read from the device, whole or in two requests. -/
theorem readFromDevice_serves (hserves : m.session.answer = serve content) (hwant : 0 < want)
    (hlarge : want < 2 ^ 32) (hinside : offset + want ≤ content.length)
    (hsize : content.length < 2 ^ 64) :
    ∃ m', readFromDevice handle offset want content.length m =
      (.ok (fetched m.partialRead m.packet content offset want), m') := by
  rw [readFromDevice, Proc.bind_ok (Proc.get_run _), fetched]
  rcases hsplit : splitFinalRead offset want content.length m.packet with ⟨first, short⟩
  rcases splitFinalRead_cases hsplit with ⟨rfl, rfl⟩ | ⟨rfl, hfirst⟩
  · refine ⟨m.told (m.readRequest handle offset first), ?_⟩
    dsimp only
    rw [Proc.bind_ok (partialReadAt_serves hserves (by omega) hlarge), if_neg fun h => Bool.false_ne_true h.1]
    rfl
  · have hsame : want - 1 = first := by omega
    have hstart := startIn_le m.partialRead offset
    dsimp only
    rw [if_pos rfl, hsame, Proc.bind_ok (partialReadAt_serves hserves (by omega) (by omega)),
      if_pos ⟨rfl, length_slice (by omega)⟩, checkedAdd_of_lt (by rw [wordSize]; omega),
      Proc.bind_ok (Proc.ofExcept_ok _ _)]
    refine ⟨(m.told (m.readRequest handle offset first)).told
      ((m.told (m.readRequest handle offset first)).readRequest handle (offset + first) 1), ?_⟩
    have hlast := @partialReadAt_serves (m.told (m.readRequest handle offset first)) handle content
      (offset + first) 1 hserves (by omega) (by decide)
    rw [Proc.bind_ok hlast]
    rfl

end Fetch

/-! ## What a read gives -/

section Read

variable {m : Mtp Device} {op : UInt16} {handle : UInt32} {content : Bytes}
  {held : Option (Nat × Nat)} {offset want size : Nat}

/-- How many bytes of a read were read in advance. -/
def gotOf (held : Option (Nat × Nat)) (offset want : Nat) : Nat :=
  match held with
  | some (start, count) => if start ≤ offset then min (start + count - offset) want else 0
  | none => 0

theorem gotOf_some (start count : Nat) : gotOf (some (start, count)) offset want =
    if start ≤ offset then min (start + count - offset) want else 0 := rfl

theorem gotOf_le (held : Option (Nat × Nat)) (offset want : Nat) : gotOf held offset want ≤ want := by
  rcases held with _ | ⟨start, count⟩
  · exact Nat.zero_le _
  · rw [gotOf_some]
    split
    · exact Nat.min_le_right _ _
    · exact Nat.zero_le _

/-- Behind the bytes read in advance there are none. -/
theorem gotOf_behind (hgot : gotOf held offset want < want) (hsome : 0 < gotOf held offset want)
    (want' : Nat) : gotOf held (offset + gotOf held offset want) want' = 0 := by
  rcases held with _ | ⟨start, count⟩
  · rfl
  · rw [gotOf_some] at hgot hsome
    by_cases hstart : start ≤ offset
    · rw [if_pos hstart] at hgot hsome
      rw [gotOf_some, gotOf_some, if_pos hstart, if_pos (by omega)]
      omega
    · rw [if_neg hstart] at hsome
      omega

/-- A range that is read in advance lies inside the file. -/
def Inside (held : Option (Nat × Nat)) (size : Nat) : Prop :=
  ∀ start count, held = some (start, count) → start + count ≤ size

theorem inside_none (size : Nat) : Inside none size := by
  intro start count hnothing
  cases hnothing

theorem cached_serving (hcache : m.cache = aheadOf handle content held)
    (hinside : Inside held content.length) (hwant : 0 < want)
    (hend : offset + want ≤ content.length) (hsize : content.length < 2 ^ 64) :
    cached handle offset want m =
      (.ok (if 0 < gotOf held offset want then some (slice content offset (gotOf held offset want))
        else none), m) := by
  rw [cached, Proc.bind_ok (Proc.get_run _), hcache, aheadOf]
  rcases held with _ | ⟨start, count⟩
  · rfl
  · have hrange := hinside start count rfl
    have hlength : (slice content start count).length = count := length_slice hrange
    have hget : ReadCache.get ⟨handle, start, slice content start count⟩ handle offset want =
        .ok (if 0 < gotOf (some (start, count)) offset want then
          some (slice content offset (gotOf (some (start, count)) offset want)) else none) := by
      rw [gotOf_some]
      unfold ReadCache.get
      by_cases hstart : start ≤ offset
      · have hmine : ¬ (handle ≠ handle ∨ offset < start) := by
          intro hcases
          rcases hcases with hne | hlt
          · exact hne rfl
          · omega
        rw [if_neg hmine, if_pos hstart]
        dsimp only
        rw [hlength]
        by_cases hbehind : offset - start ≥ count
        · rw [if_pos hbehind, if_neg (by omega)]
        · rw [if_neg hbehind, checkedAdd_of_lt (by rw [wordSize]; omega), if_pos (by omega)]
          have hbytes : ((slice content start count).take (min (offset - start + want) count)).drop
              (offset - start) = slice content offset (min (start + count - offset) want) := by
            rw [slice, slice, List.take_take, List.drop_take, List.drop_drop]
            congr 1
            · omega
            · congr 1
              omega
          rw [← hbytes]
      · rw [if_pos (.inr (Nat.lt_of_not_le hstart)), if_neg hstart, if_neg (Nat.lt_irrefl 0)]
    show Proc.ofExcept (ReadCache.get _ handle offset want) m = _
    rw [hget]
    rfl

/-- The bytes the device has to give for a read, and the ones read in advance with them. -/
def askOf (size offset need : Nat) : Nat := min (max need readAhead) (size - offset)

/-- A round that takes what was read in advance. -/
theorem fillFrom_hits {out bytes : Bytes} {rounds : Nat}
    (hcached : cached handle (offset + out.length) (want - out.length) m = (.ok (some bytes), m))
    (hmore : out.length < want) (hword : offset + out.length < wordSize) :
    fillFrom handle offset want size (rounds + 1) out m =
      fillFrom handle offset want size rounds (out ++ bytes) m := by
  rw [fillFrom, if_pos hmore, checkedAdd_of_lt hword, Proc.bind_ok (Proc.ofExcept_ok _ _),
    checkedSub_of_le (Nat.le_of_lt hmore), Proc.bind_ok (Proc.ofExcept_ok _ _)]
  exact Proc.bind_ok hcached

/-- The round that asks the device fills the answer. -/
theorem fillFrom_fetches {out : Bytes} {rounds : Nat} (hserves : m.session.answer = serve content)
    (hcached : cached handle (offset + out.length) (want - out.length) m = (.ok none, m))
    (hmore : out.length < want) (hlarge : want < 2 ^ 32) (hend : offset + want ≤ content.length)
    (hsize : content.length < 2 ^ 64) :
    ∃ m', fillFrom handle offset want content.length (rounds + 1) out m =
      (.ok (out ++ (fetched m.partialRead m.packet content (offset + out.length)
        (askOf content.length (offset + out.length) (want - out.length))).take
          (want - out.length)), m') := by
  have hask : want - out.length ≤
      askOf content.length (offset + out.length) (want - out.length) := by
    unfold askOf
    omega
  have hinside : offset + out.length +
      askOf content.length (offset + out.length) (want - out.length) ≤ content.length := by
    unfold askOf
    omega
  have hbound : askOf content.length (offset + out.length) (want - out.length) < 2 ^ 32 := by
    unfold askOf readAhead
    omega
  obtain ⟨m', hread⟩ := @readFromDevice_serves m handle content (offset + out.length)
    (askOf content.length (offset + out.length) (want - out.length)) hserves (by omega) hbound
    hinside hsize
  have hlength := @length_fetched content (offset + out.length)
    (askOf content.length (offset + out.length) (want - out.length)) m.partialRead m.packet
    (by omega) hinside
  rw [fillFrom, if_pos hmore, checkedAdd_of_lt (by rw [wordSize]; omega),
    Proc.bind_ok (Proc.ofExcept_ok _ _), checkedSub_of_le (Nat.le_of_lt hmore),
    Proc.bind_ok (Proc.ofExcept_ok _ _), Proc.bind_ok hcached]
  dsimp only
  rw [checkedSub_of_le (by omega), Proc.bind_ok (Proc.ofExcept_ok _ _)]
  rw [askOf] at hread hlength hask ⊢
  rw [Proc.bind_ok hread]
  generalize fetched m.partialRead m.packet content (offset + out.length)
    (min (max (want - out.length) readAhead) (content.length - (offset + out.length))) = data at *
  have hnonempty : ¬ data.isEmpty = true := by
    rw [List.isEmpty_iff]
    intro hsame
    subst hsame
    rw [List.length_nil] at hlength
    omega
  rw [if_neg hnonempty, Proc.bind_ok (Proc.modify_run _ _), Nat.min_eq_left (by omega)]
  have hfull : ¬ (out ++ data.take (want - out.length)).length < want := by
    rw [List.length_append, List.length_take]
    omega
  cases rounds with
  | zero => exact ⟨_, rfl⟩
  | succ rounds =>
      rw [fillFrom, if_neg hfull]
      exact ⟨_, rfl⟩

/-- The bytes of a read: those read in advance, and those the device gives. -/
def readBytes (op : UInt16) (packet : Nat) (content : Bytes) (held : Option (Nat × Nat))
    (offset want : Nat) : Bytes :=
  slice content offset (gotOf held offset want) ++
    if gotOf held offset want < want then
      (fetched op packet content (offset + gotOf held offset want)
        (askOf content.length (offset + gotOf held offset want)
          (want - gotOf held offset want))).take (want - gotOf held offset want)
    else []

/-- A read, on a device that gives the ranges it is asked for. -/
theorem readAt_serving (m : Mtp Device) (op : UInt16) (hinside : Inside held content.length)
    (hlarge : want < 2 ^ 32) (hoffset : offset < content.length)
    (hsize : content.length < 2 ^ 64) :
    (readAt handle offset want content.length (m.serving op handle content held)).1 =
      .ok (readBytes op m.packet content held offset (min want (content.length - offset))) := by
  by_cases hwant : want = 0
  · subst hwant
    have hgot := gotOf_le held offset 0
    rw [readAt, if_pos (.inl rfl), Nat.zero_min, readBytes, Nat.le_zero.mp hgot]
    rfl
  rw [readAt, if_neg (by omega), checkedSub_of_le (Nat.le_of_lt hoffset),
    Proc.bind_ok (Proc.ofExcept_ok _ _)]
  generalize hneed : min want (content.length - offset) = need
  have hpositive : 0 < need := by omega
  have hbound : need < 2 ^ 32 := by omega
  have hend : offset + need ≤ content.length := by omega
  have hfirst := @cached_serving (m.serving op handle content held) handle content held offset need
    rfl hinside hpositive hend hsize
  obtain ⟨rounds, rfl⟩ := Nat.exists_eq_add_one_of_ne_zero hpositive.ne'
  unfold readBytes
  by_cases hgot : 0 < gotOf held offset (rounds + 1)
  · -- The first round takes what was read in advance.
    rw [if_pos hgot] at hfirst
    have hround := @fillFrom_hits (m.serving op handle content held) handle offset (rounds + 1)
      content.length [] _ rounds hfirst hpositive (show offset < wordSize by rw [wordSize]; omega)
    rw [List.nil_append] at hround
    have hle := gotOf_le held offset (rounds + 1)
    have hlength : (slice content offset (gotOf held offset (rounds + 1))).length =
        gotOf held offset (rounds + 1) := length_slice (by omega)
    rw [hround]
    by_cases hmore : gotOf held offset (rounds + 1) < rounds + 1
    · obtain ⟨rounds', rfl⟩ := Nat.exists_eq_add_one_of_ne_zero (show rounds ≠ 0 by omega)
      have hnext := @cached_serving (m.serving op handle content held) handle content held
        (offset + gotOf held offset (rounds' + 1 + 1))
        (rounds' + 1 + 1 - gotOf held offset (rounds' + 1 + 1)) rfl hinside (by omega) (by omega)
        hsize
      rw [gotOf_behind hmore hgot, if_neg (Nat.lt_irrefl 0)] at hnext
      obtain ⟨m', hfetch⟩ := @fillFrom_fetches (m.serving op handle content held) handle content
        offset (rounds' + 1 + 1) (slice content offset (gotOf held offset (rounds' + 1 + 1))) rounds'
        rfl (by rw [hlength]; exact hnext) (by rw [hlength]; exact hmore) hbound hend hsize
      rw [if_pos hmore, hfetch, hlength]
      rfl
    · rw [if_neg hmore, List.append_nil]
      cases rounds with
      | zero => rfl
      | succ rounds =>
          rw [fillFrom, if_neg (by rw [hlength]; exact hmore)]
          rfl
  · -- Nothing of the read was read in advance.
    have hzero : gotOf held offset (rounds + 1) = 0 := by omega
    rw [if_neg hgot] at hfirst
    obtain ⟨m', hfetch⟩ := @fillFrom_fetches (m.serving op handle content held) handle content
      offset (rounds + 1) [] rounds rfl hfirst hpositive hbound hend hsize
    rw [hzero, if_pos hpositive, hfetch]
    rfl

end Read

/-! ## The two operations -/

section Widths

variable {m : Mtp Device} {handle : UInt32} {content : Bytes} {held : Option (Nat × Nat)}
  {packet offset want size : Nat}

theorem startIn_wide (offset : Nat) : startIn Op.getPartialObject64 offset = offset := if_pos rfl

theorem startIn_narrow (offset : Nat) : startIn Op.getPartialObject offset = offset % 2 ^ 32 :=
  if_neg (by decide)

/-- Each byte of a read comes from the range of its request. -/
theorem getElem?_fetched (op : UInt16) {i : Nat} (hi : i < want)
    (hinside : offset + want ≤ content.length) :
    (fetched op packet content offset want)[i]? =
      if (splitFinalRead offset want content.length packet).2 ∧ i = want - 1 then
        content[startIn op (offset + i)]?
      else content[startIn op offset + i]? := by
  have hstart := startIn_le op offset
  unfold fetched
  by_cases hsplit : (splitFinalRead offset want content.length packet).2 = true
  · rw [if_pos hsplit]
    have hlength : (slice content (startIn op offset) (want - 1)).length = want - 1 :=
      length_slice (by omega)
    by_cases hlast : i = want - 1
    · rw [if_pos ⟨hsplit, hlast⟩, List.getElem?_append_right (by omega), hlength, getElem?_slice,
        if_pos (by omega), hlast, Nat.sub_self, Nat.add_zero]
    · rw [if_neg fun h => hlast h.2, List.getElem?_append_left (by omega), getElem?_slice,
        if_pos (by omega)]
  · rw [if_neg hsplit, if_neg fun h => hsplit h.1, getElem?_slice, if_pos hi]

/-- A read that starts below 4 GiB, and whose last byte does too when it has a request of its
own and the caller gets it. -/
theorem take_fetched_eq {need : Nat} (hneed : need ≤ want)
    (hinside : offset + want ≤ content.length) (hlow : offset < 2 ^ 32)
    (hlast : (splitFinalRead offset want content.length packet).2 = true → need = want →
      offset + (want - 1) < 2 ^ 32) :
    (fetched Op.getPartialObject packet content offset want).take need =
      (fetched Op.getPartialObject64 packet content offset want).take need := by
  refine List.ext_getElem? fun i => ?_
  rw [List.getElem?_take, List.getElem?_take]
  by_cases hi : i < need
  · rw [if_pos hi, if_pos hi, getElem?_fetched _ (by omega) hinside,
      getElem?_fetched _ (by omega) hinside, startIn_wide, startIn_wide, startIn_narrow,
      startIn_narrow, Nat.mod_eq_of_lt hlow]
    by_cases htail : (splitFinalRead offset want content.length packet).2 = true ∧ i = want - 1
    · have hbelow := hlast htail.1 (by omega)
      rw [if_pos htail, if_pos htail, Nat.mod_eq_of_lt (by omega)]
    · rw [if_neg htail, if_neg htail]
  · rw [if_neg hi, if_neg hi]

/-- A file of zeros with one other byte. -/
def marked (size k : Nat) : Bytes := (List.replicate size 0).set k 1

theorem length_marked (size k : Nat) : (marked size k).length = size := by
  rw [marked, List.length_set, List.length_replicate]

theorem marked_ne {size k j : Nat} (hk : k < size) (hj : j < size) (hne : j ≠ k) :
    (marked size k)[j]? ≠ (marked size k)[k]? := by
  have hone : (marked size k)[k]? = some 1 := by
    rw [marked, List.getElem?_set_self (by rwa [List.length_replicate])]
  have hzero : (marked size k)[j]? = some 0 := by
    rw [marked, List.getElem?_set_ne hne.symm, List.getElem?_replicate, if_pos hj]
  rw [hone, hzero]
  decide

/-- A read on the device with the narrow operation gives the bytes it gives on the device with
the wide one, or an error. -/
def NeverOther (m : Mtp Device) (handle : UInt32) (content : Bytes) (held : Option (Nat × Nat))
    (offset want : Nat) : Prop :=
  (readAt handle offset want content.length
      (m.serving Op.getPartialObject handle content held)).1 =
    (readAt handle offset want content.length
      (m.serving Op.getPartialObject64 handle content held)).1 ∨
  ∃ e, (readAt handle offset want content.length
    (m.serving Op.getPartialObject handle content held)).1 = .error e

/-- How many bytes the caller gets, and how many of them the host read in advance. -/
def needOf (size offset want : Nat) : Nat := min want (size - offset)

/-- Where the host asks the device. -/
def askedAt (held : Option (Nat × Nat)) (size offset want : Nat) : Nat :=
  offset + gotOf held offset (needOf size offset want)

/-- How many bytes are still to come then. -/
def missing (held : Option (Nat × Nat)) (size offset want : Nat) : Nat :=
  needOf size offset want - gotOf held offset (needOf size offset want)

/-- The count the host asks for there. -/
def askedFor (held : Option (Nat × Nat)) (size offset want : Nat) : Nat :=
  askOf size (askedAt held size offset want) (missing held size offset want)

/-- Where a read needs the device, it starts below 4 GiB, and so does the last byte when it is
held back and the caller gets it. -/
def NamesIn32 (packet : Nat) (held : Option (Nat × Nat)) (size offset want : Nat) : Prop :=
  0 < missing held size offset want → askedAt held size offset want < 2 ^ 32 ∧
    ((splitFinalRead (askedAt held size offset want) (askedFor held size offset want) size
        packet).2 = true →
      missing held size offset want = askedFor held size offset want →
        askedAt held size offset want + (askedFor held size offset want - 1) < 2 ^ 32)

theorem readBytes_eq (op : UInt16) :
    readBytes op packet content held offset (needOf content.length offset want) =
      slice content offset (gotOf held offset (needOf content.length offset want)) ++
        if 0 < missing held content.length offset want then
          (fetched op packet content (askedAt held content.length offset want)
            (askedFor held content.length offset want)).take
              (missing held content.length offset want)
        else [] := by
  unfold readBytes missing
  congr 1
  by_cases hmore : gotOf held offset (needOf content.length offset want) <
      needOf content.length offset want
  · rw [if_pos hmore, if_pos (by omega)]
    rfl
  · rw [if_neg hmore, if_neg (by omega)]

/-- What the host asks for lies inside the file, and covers what is missing. -/
theorem asked_bounds (hmissing : 0 < missing held size offset want) :
    missing held size offset want ≤ askedFor held size offset want ∧
      askedAt held size offset want + askedFor held size offset want ≤ size := by
  have hgot := gotOf_le held offset (needOf size offset want)
  unfold askedFor askOf askedAt missing needOf at *
  omega

theorem neverOther_iff (m : Mtp Device) (handle : UInt32) (hinside : Inside held content.length)
    (hlarge : want < 2 ^ 32) (hoffset : offset < content.length)
    (hsize : content.length < 2 ^ 64) : NeverOther m handle content held offset want ↔
      readBytes Op.getPartialObject m.packet content held offset
          (needOf content.length offset want) =
        readBytes Op.getPartialObject64 m.packet content held offset
          (needOf content.length offset want) := by
  unfold NeverOther
  rw [readAt_serving m Op.getPartialObject hinside hlarge hoffset hsize,
    readAt_serving m Op.getPartialObject64 hinside hlarge hoffset hsize]
  constructor
  · intro hcases
    rcases hcases with hsame | ⟨e, herror⟩
    · exact Except.ok.inj hsame
    · cases herror
  · intro hsame
    exact .inl (congrArg Except.ok hsame)

/-- Two reads that agree take each byte from places that hold the same. -/
theorem same_places (hinside : Inside held content.length)
    (hlarge : want < 2 ^ 32) (hoffset : offset < content.length) (hsize : content.length < 2 ^ 64)
    (hsame : NeverOther m handle content held offset want) {i : Nat}
    (hi : i < missing held content.length offset want) :
    ((splitFinalRead (askedAt held content.length offset want)
        (askedFor held content.length offset want) content.length m.packet).2 = true ∧
          i = askedFor held content.length offset want - 1 →
      content[(askedAt held content.length offset want + i) % 2 ^ 32]? =
        content[askedAt held content.length offset want + i]?) ∧
    (¬ ((splitFinalRead (askedAt held content.length offset want)
        (askedFor held content.length offset want) content.length m.packet).2 = true ∧
          i = askedFor held content.length offset want - 1) →
      content[askedAt held content.length offset want % 2 ^ 32 + i]? =
        content[askedAt held content.length offset want + i]?) := by
  have hmissing : 0 < missing held content.length offset want := by omega
  obtain ⟨hcovers, hend⟩ := asked_bounds hmissing
  rw [neverOther_iff m handle hinside hlarge hoffset hsize, readBytes_eq, readBytes_eq,
    if_pos hmissing, if_pos hmissing] at hsame
  have hindex := congrArg (fun bytes => bytes[i]?) (List.append_cancel_left hsame)
  simp only [List.getElem?_take, if_pos hi] at hindex
  rw [getElem?_fetched _ (by omega) hend, getElem?_fetched _ (by omega) hend, startIn_narrow,
    startIn_narrow, startIn_wide, startIn_wide, ite_self] at hindex
  constructor
  · intro hlast
    rwa [if_pos hlast] at hindex
  · intro hnot
    rwa [if_neg hnot] at hindex

/-- Where a byte is missing, the first one comes from the place the cut offset names. -/
theorem same_first (hinside : Inside held content.length)
    (hlarge : want < 2 ^ 32) (hoffset : offset < content.length) (hsize : content.length < 2 ^ 64)
    (hsame : NeverOther m handle content held offset want)
    (hmissing : 0 < missing held content.length offset want) :
    content[askedAt held content.length offset want % 2 ^ 32]? =
      content[askedAt held content.length offset want]? := by
  obtain ⟨hlast, hother⟩ := same_places hinside hlarge hoffset hsize hsame hmissing
  simp only [Nat.add_zero] at hlast hother
  by_cases hsplit : (splitFinalRead (askedAt held content.length offset want)
    (askedFor held content.length offset want) content.length m.packet).2 = true ∧
      0 = askedFor held content.length offset want - 1
  · exact hlast hsplit
  · exact hother hsplit

/-- **The two partial reads agree** about every file of a size exactly when the narrow one can
name what the host asks for. -/
theorem partial_reads_agree_iff (m : Mtp Device) (handle : UInt32) (hinside : Inside held size)
    (hlarge : want < 2 ^ 32) (hoffset : offset < size)
    (hsize : size < 2 ^ 64) :
    (∀ content, content.length = size → NeverOther m handle content held offset want) ↔
      NamesIn32 m.packet held size offset want := by
  constructor
  · intro hall hmissing
    obtain ⟨hcovers, hend⟩ := asked_bounds hmissing
    constructor
    · by_contra hhigh
      have hmod : askedAt held size offset want % 2 ^ 32 < 2 ^ 32 := Nat.mod_lt _ (by decide)
      have hlength := length_marked size (askedAt held size offset want)
      have hsame := same_first (hlength.symm ▸ hinside) hlarge (hlength.symm ▸ hoffset)
        (hlength.symm ▸ hsize) (hall _ hlength) (hlength.symm ▸ hmissing)
      rw [hlength] at hsame
      exact marked_ne (by omega) (by omega) (by omega) hsame
    · intro hsplit hwhole
      by_contra hhigh
      generalize hk : askedAt held size offset want + (askedFor held size offset want - 1) = k at *
      have hmod : k % 2 ^ 32 < 2 ^ 32 := Nat.mod_lt _ (by decide)
      have hlength := length_marked size k
      have hplaces := (@same_places m handle (marked size k) held offset want
        (hlength.symm ▸ hinside) hlarge (hlength.symm ▸ hoffset) (hlength.symm ▸ hsize)
        (hall _ hlength) (askedFor held size offset want - 1) (by rw [hlength]; omega)).1
      rw [hlength, hk] at hplaces
      exact marked_ne (by omega) (by omega) (by omega) (hplaces ⟨hsplit, rfl⟩)
  · intro hnames content heq
    subst heq
    rw [neverOther_iff m handle hinside hlarge hoffset hsize, readBytes_eq, readBytes_eq]
    by_cases hmissing : 0 < missing held content.length offset want
    · obtain ⟨hcovers, hend⟩ := asked_bounds hmissing
      obtain ⟨hlow, hlast⟩ := hnames hmissing
      rw [if_pos hmissing, if_pos hmissing, take_fetched_eq hcovers hend hlow hlast]
    · rw [if_neg hmissing, if_neg hmissing]

/-- A read of a small file. -/
theorem partial_reads_agree_below :
    NeverOther (overUsb2 []) 1 (List.replicate 10 7) none 2 4 :=
  (partial_reads_agree_iff (overUsb2 []) 1 (inside_none _) (by decide)
    (by decide) (by decide)).mpr (fun _ => ⟨by decide, fun _ _ => by decide⟩) _
      List.length_replicate

/-- A file of 4 GiB and a byte, which is the only one that is not zero: the narrow operation
gives the first byte of the file for it. -/
theorem other_past_four_gib :
    ¬ NeverOther (overUsb2 []) 1 (marked (2 ^ 32 + 1) (2 ^ 32)) none (2 ^ 32) 1 := by
  intro hsame
  have hlength := length_marked (2 ^ 32 + 1) (2 ^ 32)
  have hfirst := same_first (inside_none _) (by decide) (by rw [hlength]; decide)
    (by rw [hlength]; decide) hsame (by rw [hlength]; decide)
  have hplace : askedAt none (marked (2 ^ 32 + 1) (2 ^ 32)).length (2 ^ 32) 1 = 2 ^ 32 := rfl
  rw [hplace, Nat.mod_self] at hfirst
  exact marked_ne (by decide) (by decide) (by decide) hfirst

end Widths

end Mtp

end Bsdroid
