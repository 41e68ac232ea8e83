import Bsdroid.UsbFreebsd.Descriptor

/-!
# The descriptor parsers stay inside the buffer

`Checked` says that a program of the parsers stops only with a fault that the source names:
never at a read outside the buffer, at a difference below zero or at the end of its rounds.
It is put together step by step, with what the guards before a read say about the offset.
-/

namespace Bsdroid

/-- The program gives a value, or a fault that the source names. -/
def Checked {α : Type} (x : Except Stop α) : Prop := ∀ s, x = .error s → ∃ e, s = .fault e

namespace Checked

variable {α β : Type}

/-- A value is no fault. -/
theorem ok (a : α) : Checked (.ok a : Except Stop α) := by
  intro s hs
  cases hs

/-- A fault that the source names is one that `Checked` allows. -/
theorem fault (e : DescriptorError) : Checked (.error (.fault e) : Except Stop α) := by
  intro s hs
  cases hs
  exact ⟨e, rfl⟩

/-- Two steps in a row.  The second one may rest on the value of the first. -/
theorem bind {x : Except Stop α} {f : α → Except Stop β} (hx : Checked x)
    (hf : ∀ a, x = .ok a → Checked (f a)) : Checked (x >>= f) := by
  cases x with
  | error s =>
      intro s' hs
      cases hs
      exact hx s rfl
  | ok a => exact hf a rfl

/-- A checked program ends, and in one of the two ways the source knows. -/
theorem value_or_fault {x : Except Stop α} (h : Checked x) :
    (∃ a, x = .ok a) ∨ ∃ e, x = .error (.fault e) := by
  cases x with
  | error s =>
      obtain ⟨e, rfl⟩ := h s rfl
      exact .inr ⟨e, rfl⟩
  | ok a => exact .inl ⟨a, rfl⟩

end Checked

/-! ## Reads -/

variable {buf : Bytes} {i pos len finish : Nat}

/-- A byte inside the buffer is there. -/
theorem checked_byteAt (h : i < buf.length) : Checked (byteAt buf i) := by
  unfold byteAt
  rw [List.getElem?_eq_getElem h]
  exact .ok _

/-- A number of two bytes needs both of them inside the buffer. -/
theorem checked_u16At (h : i + 1 < buf.length) : Checked (u16At buf i) := by
  apply (checked_byteAt (by omega)).bind
  intro low _
  apply (checked_byteAt h).bind
  intro high _
  exact .ok _

/-- The nine bytes of an interface descriptor are inside the buffer. -/
theorem Interface.checked_readAt (h : pos + 9 ≤ buf.length) :
    Checked (Interface.readAt buf pos) := by
  unfold Interface.readAt
  refine (checked_byteAt (by omega)).bind fun _ _ => ?_
  refine (checked_byteAt (by omega)).bind fun _ _ => ?_
  refine (checked_byteAt (by omega)).bind fun _ _ => ?_
  refine (checked_byteAt (by omega)).bind fun _ _ => ?_
  refine (checked_byteAt (by omega)).bind fun _ _ => ?_
  refine (checked_byteAt (by omega)).bind fun _ _ => ?_
  exact .ok _

/-- The seven bytes of an endpoint descriptor are inside the buffer. -/
theorem Endpoint.checked_readAt (h : pos + 7 ≤ buf.length) :
    Checked (Endpoint.readAt buf pos) := by
  unfold Endpoint.readAt
  refine (checked_byteAt (by omega)).bind fun _ _ => ?_
  refine (checked_byteAt (by omega)).bind fun _ _ => ?_
  refine (checked_u16At (by omega)).bind fun _ _ => ?_
  exact .ok _

/-- An endpoint goes to the last interface, and without one the parser names the fault. -/
theorem checked_pushEndpoint (e : Endpoint) (interfaces : List Interface) :
    Checked (pushEndpoint e interfaces) := by
  unfold pushEndpoint
  split
  · exact .ok _
  · exact .fault _

/-- The position is below the end, so the difference in the message is one. -/
theorem checked_checkLength (h : pos ≤ finish) : Checked (checkLength finish pos len) := by
  unfold checkLength
  split
  · exact .fault _
  split
  · unfold minus
    rw [if_neg (Nat.not_lt.mpr h)]
    exact .fault _
  · exact .ok _

/-- A length that passed the check is not zero and ends before the end. -/
theorem checkLength_eq_ok {u : Unit} (h : checkLength finish pos len = .ok u) :
    0 < len ∧ pos + len ≤ finish := by
  unfold checkLength at h
  split at h
  · cases h
  rename_i hpos
  split at h
  · unfold minus at h
    split at h
    · cases h
    · cases h
  · rename_i hfits
    exact ⟨Nat.pos_of_ne_zero hpos, Nat.le_of_not_lt hfits⟩

/-- The guard of a loop, as a bound on the position. -/
theorem room_iff {n : Nat} : room n finish pos ↔ pos + n ≤ finish := decide_eq_true_iff

/-- The rounds begin inside the buffer. -/
theorem lt_of_room {n : Nat} (hn : 0 < n) (hfinish : finish ≤ buf.length)
    (h : room n finish pos) : pos < buf.length := by
  rw [room_iff] at h
  omega

/-! ## The rounds -/

/-- Two steps that gave a value both gave one. -/
theorem bind_eq_ok {α β : Type} {x : Except Stop α} {f : α → Except Stop β} {b : β}
    (h : (x >>= f) = .ok b) : ∃ a, x = .ok a ∧ f a = .ok b := by
  cases x with
  | error s => cases h
  | ok a => exact ⟨a, rfl, h⟩

namespace ConfigDescriptor

/-- What a round reads of a descriptor lies inside the descriptor: its length was checked before,
and each kind has a least length of its own. -/
theorem checked_take {kind : UInt8} (interfaces : List Interface) (h : pos + len ≤ buf.length) :
    Checked (ConfigDescriptor.take buf pos len kind interfaces) := by
  unfold ConfigDescriptor.take
  split
  · split
    · exact .fault _
    · apply (Interface.checked_readAt (by omega)).bind
      intro i _
      exact .ok _
  split
  · split
    · exact .fault _
    · apply (Endpoint.checked_readAt (by omega)).bind
      intro e _
      exact checked_pushEndpoint e interfaces
  · exact .ok _

/-- A round reads the length and the kind, and checks the length before it reads anything else. -/
theorem checked_round {interfaces : List Interface} (hfinish : finish ≤ buf.length)
    (hroom : room 2 finish pos) : Checked (ConfigDescriptor.round buf finish pos interfaces) := by
  rw [room_iff] at hroom
  unfold ConfigDescriptor.round
  apply (checked_byteAt (by omega)).bind
  intro len _
  apply (checked_byteAt (by omega)).bind
  intro kind _
  apply (checked_checkLength (by omega)).bind
  intro u hlength
  have hfits := (checkLength_eq_ok hlength).2
  apply (checked_take interfaces (by omega)).bind
  intro interfaces _
  exact .ok _

/-- A length that passed its check is not zero, so the next round begins further on. -/
theorem grows : Rounds.Grows (room 2 finish) (ConfigDescriptor.round buf finish) := by
  intro pos interfaces next interfaces' _ hround
  obtain ⟨len, -, hround⟩ := bind_eq_ok hround
  obtain ⟨kind, -, hround⟩ := bind_eq_ok hround
  obtain ⟨u, hlength, hround⟩ := bind_eq_ok hround
  obtain ⟨out, -, hround⟩ := bind_eq_ok hround
  cases hround
  have hpos := (checkLength_eq_ok hlength).1
  omega

/-- Where the first `budget` rounds of a parse begin. -/
def positions (budget : Nat) (buf : Bytes) : List Nat :=
  let finish := min buf.length (fromLe16 [buf.getD 2 0, buf.getD 3 0]).toNat
  Rounds.positions (room 2 finish) (ConfigDescriptor.round buf finish) budget
    (buf.headD 0).toNat []

/-- The whole parse, when the budget covers the buffer: the rounds then end before the budget
does. -/
theorem checked_parseWithin {budget : Nat} (hbudget : buf.length ≤ budget) :
    Checked (ConfigDescriptor.parseWithin budget buf) := by
  unfold ConfigDescriptor.parseWithin
  split
  · exact .fault _
  apply (checked_byteAt (by omega)).bind
  intro kind _
  split
  · exact .fault _
  apply (checked_u16At (by omega)).bind
  intro totalLength _
  apply (checked_byteAt (by omega)).bind
  intro numInterfaces _
  apply (checked_byteAt (by omega)).bind
  intro configurationValue _
  apply (checked_byteAt (by omega)).bind
  intro pos _
  have hfinish : min buf.length totalLength.toNat ≤ buf.length := Nat.min_le_left _ _
  split
  · exact .fault _
  apply Checked.bind
  · intro s hs
    exact Rounds.fault_of_loop grows (fun _ h => lt_of_room (by decide) hfinish h)
      (fun _ _ _ h => checked_round hfinish h _) _ _ _ _ (by omega) hs
  · intro interfaces _
    exact .ok _

/-- **The budget is no limit.**  A larger one gives the same. -/
theorem parseWithin_of_le {budget : Nat} (hbudget : buf.length ≤ budget) :
    ConfigDescriptor.parseWithin budget buf = ConfigDescriptor.parse buf := by
  unfold ConfigDescriptor.parse ConfigDescriptor.parseWithin
  by_cases hsize : buf.length < 9
  · rw [if_pos hsize, if_pos hsize]
  rw [if_neg hsize, if_neg hsize]
  apply bind_congr
  intro kind
  by_cases hkind : kind ≠ typeConfiguration
  · rw [if_pos hkind, if_pos hkind]
  rw [if_neg hkind, if_neg hkind]
  apply bind_congr
  intro totalLength
  apply bind_congr
  intro numInterfaces
  apply bind_congr
  intro configurationValue
  apply bind_congr
  intro pos
  have hfinish : min buf.length totalLength.toNat ≤ buf.length := Nat.min_le_left _ _
  rw [Rounds.loop_of_le grows (fun _ h => lt_of_room (by decide) hfinish h) buf.length _ _
    (by omega) budget hbudget]

/-- The rounds begin at growing positions inside the buffer. -/
theorem positions_grow (budget : Nat) (buf : Bytes) :
    (∀ p ∈ positions budget buf, p < buf.length) ∧ (positions budget buf).Pairwise (· < ·) := by
  obtain ⟨hall, hsorted⟩ := @Rounds.positions_grow _ _ _ _ buf.length grows
    (fun _ h => lt_of_room (by decide) (Nat.min_le_left _ _) h) budget (buf.headD 0).toNat []
  exact ⟨fun p hp => (hall p hp).2, hsorted⟩

end ConfigDescriptor

namespace DeviceCapabilities

/-- Of a capability the third byte is read, which each round has, and the fifth and the sixth behind
a guard. -/
theorem checked_take {kind : UInt8} (out : DeviceCapabilities) (h : pos + len ≤ buf.length)
    (hthree : pos + 3 ≤ buf.length) : Checked (DeviceCapabilities.take buf pos len kind out) := by
  unfold DeviceCapabilities.take
  split
  · apply (checked_byteAt (by omega)).bind
    intro capability _
    split
    · split
      · apply (checked_u16At (by omega)).bind
        intro speeds _
        exact .ok _
      · exact .ok _
    split
    · exact .ok _
    · exact .ok _
  · exact .ok _

/-- A round needs three bytes, so the kind of the capability is there as well. -/
theorem checked_round {out : DeviceCapabilities} (hfinish : finish ≤ buf.length)
    (hroom : room 3 finish pos) : Checked (DeviceCapabilities.round buf finish pos out) := by
  rw [room_iff] at hroom
  unfold DeviceCapabilities.round
  apply (checked_byteAt (by omega)).bind
  intro len _
  apply (checked_checkLength (by omega)).bind
  intro u hlength
  have hfits := (checkLength_eq_ok hlength).2
  apply (checked_byteAt (by omega)).bind
  intro kind _
  apply (checked_take out (by omega) (by omega)).bind
  intro out _
  exact .ok _

/-- Here, too, no length is zero. -/
theorem grows : Rounds.Grows (room 3 finish) (DeviceCapabilities.round buf finish) := by
  intro pos out next out' _ hround
  obtain ⟨len, -, hround⟩ := bind_eq_ok hround
  obtain ⟨u, hlength, hround⟩ := bind_eq_ok hround
  obtain ⟨kind, -, hround⟩ := bind_eq_ok hround
  obtain ⟨out, -, hround⟩ := bind_eq_ok hround
  cases hround
  have hpos := (checkLength_eq_ok hlength).1
  omega

/-- Where the first `budget` rounds of a parse begin. -/
def positions (budget : Nat) (buf : Bytes) : List Nat :=
  let finish := min buf.length (fromLe16 [buf.getD 2 0, buf.getD 3 0]).toNat
  Rounds.positions (room 3 finish) (DeviceCapabilities.round buf finish) budget
    (buf.headD 0).toNat ⟨false, false, none⟩

/-- The whole parse of the capabilities, when the budget covers the buffer. -/
theorem checked_parseWithin {budget : Nat} (hbudget : buf.length ≤ budget) :
    Checked (DeviceCapabilities.parseWithin budget buf) := by
  unfold DeviceCapabilities.parseWithin
  split
  · exact .fault _
  apply (checked_byteAt (by omega)).bind
  intro kind _
  split
  · exact .fault _
  apply (checked_u16At (by omega)).bind
  intro total _
  apply (checked_byteAt (by omega)).bind
  intro pos _
  have hfinish : min buf.length total.toNat ≤ buf.length := Nat.min_le_left _ _
  split
  · exact .fault _
  intro s hs
  exact Rounds.fault_of_loop grows (fun _ h => lt_of_room (by decide) hfinish h)
    (fun _ _ _ h => checked_round hfinish h _) _ _ _ _ (by omega) hs

/-- **The budget is no limit** here, either. -/
theorem parseWithin_of_le {budget : Nat} (hbudget : buf.length ≤ budget) :
    DeviceCapabilities.parseWithin budget buf = DeviceCapabilities.parse buf := by
  unfold DeviceCapabilities.parse DeviceCapabilities.parseWithin
  by_cases hsize : buf.length < 5
  · rw [if_pos hsize, if_pos hsize]
  rw [if_neg hsize, if_neg hsize]
  apply bind_congr
  intro kind
  by_cases hkind : kind ≠ typeBos
  · rw [if_pos hkind, if_pos hkind]
  rw [if_neg hkind, if_neg hkind]
  apply bind_congr
  intro total
  apply bind_congr
  intro pos
  have hfinish : min buf.length total.toNat ≤ buf.length := Nat.min_le_left _ _
  rw [Rounds.loop_of_le grows (fun _ h => lt_of_room (by decide) hfinish h) buf.length _ _
    (by omega) budget hbudget]

/-- The rounds begin at growing positions inside the buffer. -/
theorem positions_grow (budget : Nat) (buf : Bytes) :
    (∀ p ∈ positions budget buf, p < buf.length) ∧ (positions budget buf).Pairwise (· < ·) := by
  obtain ⟨hall, hsorted⟩ := @Rounds.positions_grow _ _ _ _ buf.length grows
    (fun _ h => lt_of_room (by decide) (Nat.min_le_left _ _) h) budget (buf.headD 0).toNat
    ⟨false, false, none⟩
  exact ⟨fun p hp => (hall p hp).2, hsorted⟩

end DeviceCapabilities

/-- What a parser of descriptors keeps to on a buffer: it gives a value or a fault that the
source names, more rounds than the buffer has bytes change nothing, and the rounds it makes
begin at growing positions inside the buffer, so they are at most as many as its bytes. -/
structure StaysInside {α : Type} (parseWithin : Nat → Bytes → Except Stop α)
    (positions : Nat → Bytes → List Nat) (buf : Bytes) : Prop where
  ends : (∃ v, parseWithin buf.length buf = .ok v) ∨
    ∃ e, parseWithin buf.length buf = .error (.fault e)
  settled : ∀ budget, buf.length ≤ budget →
    parseWithin budget buf = parseWithin buf.length buf
  inside : ∀ budget, ∀ p ∈ positions budget buf, p < buf.length
  growing : ∀ budget, (positions budget buf).Pairwise (· < ·)
  rounds : ∀ budget, (positions budget buf).length ≤ buf.length

/-- **The descriptor parsers never read outside the buffer**, and end within as many rounds
as it has bytes. -/
theorem parsers_stay_inside (buf : Bytes) :
    StaysInside ConfigDescriptor.parseWithin ConfigDescriptor.positions buf ∧
    StaysInside DeviceCapabilities.parseWithin DeviceCapabilities.positions buf := by
  constructor
  · exact {
      ends := (ConfigDescriptor.checked_parseWithin (Nat.le_refl _)).value_or_fault
      settled := fun _ hbudget => ConfigDescriptor.parseWithin_of_le hbudget
      inside := fun budget => (ConfigDescriptor.positions_grow budget buf).1
      growing := fun budget => (ConfigDescriptor.positions_grow budget buf).2
      rounds := fun budget =>
        have hgrow := ConfigDescriptor.positions_grow budget buf
        Rounds.length_le_of_growing hgrow.2 hgrow.1 }
  · exact {
      ends := (DeviceCapabilities.checked_parseWithin (Nat.le_refl _)).value_or_fault
      settled := fun _ hbudget => DeviceCapabilities.parseWithin_of_le hbudget
      inside := fun budget => (DeviceCapabilities.positions_grow budget buf).1
      growing := fun budget => (DeviceCapabilities.positions_grow budget buf).2
      rounds := fun budget =>
        have hgrow := DeviceCapabilities.positions_grow budget buf
        Rounds.length_le_of_growing hgrow.2 hgrow.1 }

end Bsdroid
