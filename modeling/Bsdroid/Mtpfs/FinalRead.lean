import Bsdroid.Cellphone.Device

/-!
# The last packet of a partial read

A Samsung stops when a read reaches the end of a file and the last packet of its answer is
full.  The answer is a container, so its header counts.  The host holds back a byte when the
count of bytes it wants is a whole number of packets, and the header is not in that count
(`Mtp.keeps_clear_iff`).
-/

namespace Bsdroid

/-- The range a partial read names: where it starts, and how many bytes it takes. -/
def Request.range (r : Request) : Nat × Nat :=
  match r.params with
  | [_, low, high, want] => (low.toNat + high.toNat * 2 ^ 32, want.toNat)
  | [_, offset, want] => (offset.toNat, want.toNat)
  | _ => (0, 0)

namespace Mtp

variable {m : Mtp Device} {handle : UInt32} {offset want size : Nat}

/-- The request of a partial read. -/
def readRequest (m : Mtp Device) (handle : UInt32) (offset want : Nat) : Request :=
  ⟨"GetPartialObject", m.partialRead,
    if m.partialRead = Op.getPartialObject64 then
      [handle, UInt32.ofNat (offset % 2 ^ 32), UInt32.ofNat (offset / 2 ^ 32),
        UInt32.ofNat want]
    else [handle, UInt32.ofNat offset, UInt32.ofNat want], none⟩

/-- Where a partial read starts, in the width of its operation. -/
def startIn (op : UInt16) (offset : Nat) : Nat :=
  if op = Op.getPartialObject64 then offset else offset % 2 ^ 32

theorem range_readRequest (hoffset : offset < 2 ^ 64) :
    (m.readRequest handle offset want).range = (startIn m.partialRead offset, want % 2 ^ 32) := by
  have hwant : (UInt32.ofNat want).toNat = want % 2 ^ 32 := UInt32.toNat_ofNat
  unfold readRequest startIn
  by_cases hwide : m.partialRead = Op.getPartialObject64
  · rw [if_pos hwide, if_pos hwide]
    have hlow : (UInt32.ofNat (offset % 2 ^ 32)).toNat = offset % 2 ^ 32 :=
      UInt32.toNat_ofNat_of_lt' (Nat.mod_lt _ (by decide))
    have hhigh : (UInt32.ofNat (offset / 2 ^ 32)).toNat = offset / 2 ^ 32 :=
      UInt32.toNat_ofNat_of_lt' (Nat.div_lt_of_lt_mul hoffset)
    simp only [Request.range, hlow, hhigh, hwant]
    congr 1
    omega
  · rw [if_neg hwide, if_neg hwide]
    simp only [Request.range, hwant]
    rfl

/-- A partial read is one request. -/
theorem partialReadAt_told (m : Mtp Device) (handle : UInt32) (offset want : Nat) :
    (∃ out, m.answerTo (m.readRequest handle offset want) = .ok out ∧ out.isOk = true ∧
      partialReadAt handle offset want m =
        (.ok out.data, m.told (m.readRequest handle offset want))) ∨
    ∃ e, (∀ out, m.answerTo (m.readRequest handle offset want) = .ok out → out.isOk = false) ∧
      partialReadAt handle offset want m =
        (.error e, m.told (m.readRequest handle offset want)) := by
  rw [partialReadAt, Proc.bind_ok (Proc.get_run _)]
  exact operation_told m "GetPartialObject" m.partialRead _

/-- A read is held back by one byte: it reaches the end of the file, and its count is a whole
number of packets. -/
def HeldBack (offset want size packet : Nat) : Prop :=
  size ≤ offset + want ∧ want % packet = 0

instance (offset want size packet : Nat) : Decidable (HeldBack offset want size packet) :=
  inferInstanceAs (Decidable (_ ∧ _))

theorem splitFinalRead_eq {packet : Nat} (hpacket : packet ≠ 0) (hwant : 0 < want)
    (hsize : size < 2 ^ 64) :
    (HeldBack offset want size packet → splitFinalRead offset want size packet = (want - 1, true)) ∧
      (¬ HeldBack offset want size packet →
        splitFinalRead offset want size packet = (want, false)) := by
  have hreaches : min (offset + want) (wordSize - 1) ≥ size ↔ size ≤ offset + want := by
    rw [wordSize]
    omega
  have hsplits : (min (offset + want) (wordSize - 1) ≥ size ∧ packet ≠ 0 ∧ want ≠ 0 ∧
      want % packet = 0) ↔ HeldBack offset want size packet := by
    rw [hreaches, HeldBack]
    exact ⟨fun h => ⟨h.1, h.2.2.2⟩, fun h => ⟨h.1, hpacket, hwant.ne', h.2⟩⟩
  unfold splitFinalRead
  dsimp only
  exact ⟨fun h => if_pos (hsplits.mpr h), fun h => if_neg (mt hsplits.mp h)⟩

/-- The requests of one read from the device. -/
def readRequests (m : Mtp Device) (handle : UInt32) (offset want size : Nat) : List Request :=
  (readFromDevice handle offset want size m).2.session.log.drop m.session.log.length

theorem drop_told (m : Mtp Device) (r : Request) :
    (m.told r).session.log.drop m.session.log.length = [r] := by
  rw [told_log, List.drop_left]

/-- A read that is not held back is one request. -/
theorem readRequests_whole (hsplit : splitFinalRead offset want size m.packet = (want, false)) :
    readRequests m handle offset want size = [m.readRequest handle offset want] := by
  rw [readRequests, readFromDevice, Proc.bind_ok (Proc.get_run _), hsplit]
  dsimp only
  rcases partialReadAt_told m handle offset want with ⟨out, -, -, hrun⟩ | ⟨e, -, hrun⟩
  · rw [Proc.bind_ok hrun, if_neg fun h => Bool.false_ne_true h.1]
    exact drop_told m _
  · rw [Proc.bind_error hrun]
    exact drop_told m _

/-- The device gives every byte of a range. -/
def GivesAll (m : Mtp Device) (handle : UInt32) (offset want : Nat) : Prop :=
  ∃ out, m.answerTo (m.readRequest handle offset want) = .ok out ∧ out.isOk = true ∧
    out.data.length = want

/-- A read that is held back is two requests, when the first gives everything. -/
theorem readRequests_held (hsplit : splitFinalRead offset want size m.packet = (want - 1, true))
    (hwant : 0 < want) :
    (GivesAll m handle offset (want - 1) ∧ offset + want ≤ 2 ^ 64 ∧
      readRequests m handle offset want size = [m.readRequest handle offset (want - 1),
        m.readRequest handle (offset + (want - 1)) 1]) ∨
    (¬ (GivesAll m handle offset (want - 1) ∧ offset + want ≤ 2 ^ 64) ∧
      readRequests m handle offset want size = [m.readRequest handle offset (want - 1)]) := by
  have hword : offset + (want - 1) < wordSize ↔ offset + want ≤ 2 ^ 64 := by
    rw [wordSize]
    omega
  rw [readRequests, readFromDevice, Proc.bind_ok (Proc.get_run _), hsplit]
  dsimp only
  rcases partialReadAt_told m handle offset (want - 1) with ⟨out, hanswer, hok, hrun⟩ |
    ⟨e, hno, hrun⟩
  · rw [Proc.bind_ok hrun]
    by_cases hall : out.data.length = want - 1
    · rw [if_pos ⟨rfl, hall⟩, checkedAdd]
      by_cases hfits : offset + (want - 1) < wordSize
      · left
        refine ⟨⟨out, hanswer, hok, hall⟩, hword.mp hfits, ?_⟩
        rw [if_pos hfits, Proc.bind_ok (Proc.ofExcept_ok _ _)]
        have htwo : ∀ r, ((m.told (m.readRequest handle offset (want - 1))).told r).session.log.drop
            m.session.log.length = [m.readRequest handle offset (want - 1), r] := by
          intro r
          rw [told_log, told_log, List.append_assoc, List.drop_left]
          rfl
        rcases partialReadAt_told (m.told (m.readRequest handle offset (want - 1))) handle
          (offset + (want - 1)) 1 with ⟨out', -, -, hrun'⟩ | ⟨e, -, hrun'⟩
        · rw [Proc.bind_ok hrun']
          exact htwo _
        · rw [Proc.bind_error hrun']
          exact htwo _
      · right
        rw [if_neg hfits, Proc.bind_error (show Proc.ofExcept _ _ = _ from rfl)]
        exact ⟨fun h => hfits (hword.mpr h.2), drop_told m _⟩
    · right
      rw [if_neg fun h => hall h.2]
      refine ⟨?_, drop_told m _⟩
      intro hsome
      obtain ⟨⟨out', hanswer', -, hall'⟩, -⟩ := hsome
      cases hanswer.symm.trans hanswer'
      exact hall hall'
  · right
    rw [Proc.bind_error hrun]
    refine ⟨?_, drop_told m _⟩
    intro hsome
    obtain ⟨⟨out', hanswer', hok', -⟩, -⟩ := hsome
    rw [hno out' hanswer'] at hok'
    cases hok'

/-- No request of a read reaches the end of the file with an answer that fills its last packet,
and the requests take together what the caller wants. -/
structure KeepsClear (m : Mtp Device) (handle : UInt32) (offset want size : Nat) : Prop where
  clear : ∀ r ∈ readRequests m handle offset want size,
    ¬ (size ≤ r.range.1 + r.range.2 ∧ (headerLen + r.range.2) % m.packet = 0)
  adds : ((readRequests m handle offset want size).map fun r => r.range.2).sum = want

/-- What keeps a read clear: one that is held back has a device that gives everything, and
another one does not fill the last packet together with the header. -/
def Fits (m : Mtp Device) (handle : UInt32) (offset want size : Nat) : Prop :=
  if HeldBack offset want size m.packet then
    want ≤ 2 ^ 32 ∧ GivesAll m handle offset (want - 1) ∧ offset + want ≤ 2 ^ 64
  else
    want < 2 ^ 32 ∧ ¬ (size ≤ startIn m.partialRead offset + want ∧ (headerLen + want) % m.packet = 0)

/-- The answers of a read that is held back end with 11 bytes of a packet and with 13. -/
theorem not_full_of_held {packet : Nat} (hpacket : packet = 512 ∨ packet = 1024)
    (hwant : 0 < want) (hfull : want % packet = 0) :
    (headerLen + (want - 1)) % packet ≠ 0 ∧ (headerLen + 1) % packet ≠ 0 := by
  unfold headerLen
  rcases hpacket with rfl | rfl
  · omega
  · omega

/-- **The condition of the Samsung is not met** exactly when the count and the header do not
fill the last packet of a read that reaches the end. -/
theorem keeps_clear_iff (hpacket : m.packet = 512 ∨ m.packet = 1024) (hwant : 0 < want)
    (hoffset : offset < size) (hsize : size < 2 ^ 64) :
    KeepsClear m handle offset want size ↔ Fits m handle offset want size := by
  have hpositive : m.packet ≠ 0 := by omega
  obtain ⟨hsplits, hwhole⟩ := splitFinalRead_eq hpositive hwant hsize
  have hrange : ∀ offset' want', offset' < 2 ^ 64 →
      (m.readRequest handle offset' want').range = (startIn m.partialRead offset', want' % 2 ^ 32) :=
    fun _ _ h => range_readRequest h
  unfold Fits
  by_cases hheld : HeldBack offset want size m.packet
  · rw [if_pos hheld]
    have hfull : want % m.packet = 0 := hheld.2
    rcases @readRequests_held m handle _ _ _ (hsplits hheld) hwant with ⟨hall, hword, hissued⟩ |
      ⟨hno, hissued⟩
    · constructor
      · intro hclear
        have hadds := hclear.adds
        rw [hissued, List.map_cons, List.map_singleton, hrange _ _ (by omega),
          hrange _ _ (by omega)] at hadds
        simp only [List.sum_cons, List.sum_nil] at hadds
        exact ⟨by omega, hall, hword⟩
      · intro hboth
        obtain ⟨hlarge, -, -⟩ := hboth
        constructor
        · rw [hissued]
          intro r hr
          obtain ⟨hfirst, hlast⟩ := not_full_of_held hpacket hwant hfull
          rcases List.mem_cons.mp hr with rfl | hr
          · rw [hrange _ _ (by omega)]
            dsimp only
            rw [Nat.mod_eq_of_lt (show want - 1 < 2 ^ 32 by omega)]
            exact fun h => hfirst h.2
          · rw [List.mem_singleton.mp hr, hrange _ _ (by omega)]
            exact fun h => hlast h.2
        · rw [hissued, List.map_cons, List.map_singleton, hrange _ _ (by omega),
            hrange _ _ (by omega)]
          simp only [List.sum_cons, List.sum_nil]
          omega
    · constructor
      · intro hclear
        have hadds := hclear.adds
        rw [hissued, List.map_singleton, hrange _ _ (by omega)] at hadds
        simp only [List.sum_cons, List.sum_nil] at hadds
        omega
      · intro hboth
        obtain ⟨-, hall, hword⟩ := hboth
        exact absurd ⟨hall, hword⟩ hno
  · rw [if_neg hheld]
    have hissued := @readRequests_whole m handle _ _ _ (hwhole hheld)
    constructor
    · intro hclear
      have hadds := hclear.adds
      rw [hissued, List.map_singleton, hrange _ _ (by omega)] at hadds
      simp only [List.sum_cons, List.sum_nil] at hadds
      have hsmall : want < 2 ^ 32 := by omega
      refine ⟨hsmall, ?_⟩
      have hfar := hclear.clear _ (hissued ▸ List.mem_singleton.mpr rfl)
      rw [hrange _ _ (by omega)] at hfar
      dsimp only at hfar
      rwa [Nat.mod_eq_of_lt hsmall] at hfar
    · intro hboth
      obtain ⟨hsmall, hfar⟩ := hboth
      constructor
      · rw [hissued]
        intro r hr
        rw [List.mem_singleton.mp hr, hrange _ _ (by omega)]
        dsimp only
        rwa [Nat.mod_eq_of_lt hsmall]
      · rw [hissued, List.map_singleton, hrange _ _ (by omega)]
        simp only [List.sum_cons, List.sum_nil]
        omega

/-- A mount over USB 2.0 of a device with one answer. -/
def overUsb2 (data : Bytes) : Mtp Device := fresh (Device.alwaysGives data) usb2Packet

/-- A read of a whole file of 512 bytes. -/
theorem keeps_clear_whole_packet : KeepsClear (overUsb2 (List.replicate 511 0)) 1 0 512 512 := by
  refine (keeps_clear_iff (.inl rfl) (by decide) (by decide) (by decide)).mpr ?_
  rw [Fits, if_pos ⟨by decide, rfl⟩]
  exact ⟨by decide, ⟨_, rfl, rfl, List.length_replicate⟩, by decide⟩

/-- A read of a whole file of 500 bytes is one request, and its answer fills a packet of 512
bytes. -/
theorem header_fills_packet : ¬ KeepsClear (overUsb2 []) 1 0 500 500 := by
  intro hclear
  have hissued : readRequests (overUsb2 []) 1 0 500 500 =
      [(overUsb2 []).readRequest 1 0 500] := by decide
  refine hclear.clear _ (hissued ▸ List.mem_singleton.mpr rfl) ?_
  decide

end Mtp

end Bsdroid
