import Bsdroid.UsbFreebsd.Described

/-!
# The search for the MTP interface

`MtpInterface.findWithNames` takes the first interface with the still imaging class, or else
the first vendor interface named "MTP", and reads its endpoints.  It does not go on where that
one lacks a bulk endpoint, so it finds a usable interface exactly where the first candidate
is usable or none is (`MtpInterface.finds_usable_iff`).
-/

namespace Bsdroid

/-- The characters that Unicode calls white space. -/
def isWhitespace (c : Char) : Bool :=
  (9 ≤ c.toNat && c.toNat ≤ 13) || c.toNat == 0x20 || c.toNat == 0x85 || c.toNat == 0xa0 ||
    c.toNat == 0x1680 || (0x2000 ≤ c.toNat && c.toNat ≤ 0x200a) || c.toNat == 0x2028 ||
    c.toNat == 0x2029 || c.toNat == 0x202f || c.toNat == 0x205f || c.toNat == 0x3000

/-- A text without the white space at its ends. -/
def trim (s : Str) : Str := ((s.dropWhile isWhitespace).reverse.dropWhile isWhitespace).reverse

/-- The MTP interface of a device, and the endpoints the interface needs. -/
structure MtpInterface where
  interfaceNumber : UInt8
  alternateSetting : UInt8
  cls : UInt8
  subclass : UInt8
  protocol : UInt8
  bulkIn : UInt8
  bulkOut : UInt8
  interruptIn : Option UInt8
  maxPacketSize : UInt16
deriving DecidableEq, Repr

namespace MtpInterface

/-- Reads the endpoints of one interface. -/
def fromInterface (i : Interface) : Except DescriptorError MtpInterface :=
  match i.endpoints.find? (fun e => e.isBulk && e.isIn),
      i.endpoints.find? (fun e => e.isBulk && !e.isIn) with
  | some bulkIn, some bulkOut => .ok {
      interfaceNumber := i.number
      alternateSetting := i.alternateSetting
      cls := i.cls
      subclass := i.subclass
      protocol := i.protocol
      bulkIn := bulkIn.address
      bulkOut := bulkOut.address
      interruptIn := (i.endpoints.find? fun e => e.isInterrupt && e.isIn).map Endpoint.address
      maxPacketSize := bulkIn.maxPacketSize }
  | bulkIn, bulkOut => .error (.incompleteMtpEndpoints bulkIn.isSome bulkOut.isSome)

/-- The search over the vendor interfaces, by name. -/
def findNamed (nameOf : UInt8 → Option Str) : List Interface → Except DescriptorError MtpInterface
  | [] => .error .noMtpInterface
  | i :: is =>
      match nameOf i.stringIndex with
      | some name => if trim name = vendorMtpName then fromInterface i else findNamed nameOf is
      | none => findNamed nameOf is

/-- Finds an MTP interface, and reads the name of an interface when the class alone is not
enough. -/
def findWithNames (cfg : ConfigDescriptor) (nameOf : UInt8 → Option Str) :
    Except DescriptorError MtpInterface :=
  match cfg.interfaces.find? Interface.isMtp with
  | some i => fromInterface i
  | none => findNamed nameOf (cfg.interfaces.filter Interface.isVendorMtpCandidate)

/-! ## What the search is for -/

/-- The interface has both bulk endpoints. -/
def Usable (i : Interface) : Prop :=
  (∃ e ∈ i.endpoints, e.isBulk ∧ e.isIn) ∧ ∃ e ∈ i.endpoints, e.isBulk ∧ ¬e.isIn

/-- The device names the interface "MTP". -/
def named (nameOf : UInt8 → Option Str) (i : Interface) : Bool :=
  ((nameOf i.stringIndex).map trim) == some vendorMtpName

/-- The interface carries MTP, by its class or by its name. -/
def Carries (nameOf : UInt8 → Option Str) (i : Interface) : Prop :=
  i.isMtp ∨ (i.isVendorMtpCandidate ∧ named nameOf i)

/-- The numbers and the endpoint addresses are those of one interface. -/
structure Of (m : MtpInterface) (i : Interface) : Prop where
  number : m.interfaceNumber = i.number
  alternate : m.alternateSetting = i.alternateSetting
  bulkIn : ∃ e ∈ i.endpoints, e.isBulk ∧ e.isIn ∧ e.address = m.bulkIn
  bulkOut : ∃ e ∈ i.endpoints, e.isBulk ∧ ¬e.isIn ∧ e.address = m.bulkOut
  interruptIn : ∀ a, m.interruptIn = some a →
    ∃ e ∈ i.endpoints, e.isInterrupt ∧ e.isIn ∧ e.address = a

/-- **The search finds a usable MTP interface whenever there is one**, and what it finds is
one, with the standard class whenever a usable one has it. -/
structure FindsUsable (cfg : ConfigDescriptor) (nameOf : UInt8 → Option Str) : Prop where
  finds : (∃ m, findWithNames cfg nameOf = .ok m) ↔
    ∃ i ∈ cfg.interfaces, Carries nameOf i ∧ Usable i
  found : ∀ m, findWithNames cfg nameOf = .ok m →
    ∃ i ∈ cfg.interfaces, Carries nameOf i ∧ Usable i ∧ m.Of i ∧
      ((∃ j ∈ cfg.interfaces, j.isMtp ∧ Usable j) → i.isMtp)

/-- The first candidate in the order of the search. -/
def candidate (cfg : ConfigDescriptor) (nameOf : UInt8 → Option Str) : Option Interface :=
  (cfg.interfaces.find? Interface.isMtp).or
    (cfg.interfaces.find? fun i => i.isVendorMtpCandidate && named nameOf i)

/-! ## One interface -/

variable {cfg : ConfigDescriptor} {nameOf : UInt8 → Option Str} {i : Interface}
  {m : MtpInterface}

theorem fromInterface_eq_ok (h : fromInterface i = .ok m) : m.Of i ∧ Usable i := by
  unfold fromInterface at h
  split at h
  · rename_i bulkIn bulkOut hin hout
    cases h
    have hbulkIn := List.find?_some hin
    have hbulkOut := List.find?_some hout
    have hinMem := List.mem_of_find?_eq_some hin
    have houtMem := List.mem_of_find?_eq_some hout
    simp only [Bool.and_eq_true, Bool.not_eq_true'] at hbulkIn hbulkOut
    have hnotIn : ¬bulkOut.isIn := by
      rw [hbulkOut.2]
      decide
    refine ⟨⟨rfl, rfl, ?_, ?_, ?_⟩, ?_, ?_⟩
    · exact ⟨bulkIn, hinMem, hbulkIn.1, hbulkIn.2, rfl⟩
    · exact ⟨bulkOut, houtMem, hbulkOut.1, hnotIn, rfl⟩
    · intro a ha
      obtain ⟨e, he, rfl⟩ := Option.map_eq_some_iff.mp ha
      have hint := List.find?_some he
      simp only [Bool.and_eq_true] at hint
      exact ⟨e, List.mem_of_find?_eq_some he, hint.1, hint.2, rfl⟩
    · exact ⟨bulkIn, hinMem, hbulkIn⟩
    · exact ⟨bulkOut, houtMem, hbulkOut.1, hnotIn⟩
  · cases h

theorem fromInterface_of_usable (h : Usable i) : ∃ m, fromInterface i = .ok m := by
  obtain ⟨⟨a, haMem, ha⟩, b, hbMem, hb⟩ := h
  have hin : (i.endpoints.find? fun e => e.isBulk && e.isIn).isSome := by
    rw [List.find?_isSome]
    exact ⟨a, haMem, by rw [ha.1, ha.2]; rfl⟩
  have hout : (i.endpoints.find? fun e => e.isBulk && !e.isIn).isSome := by
    rw [List.find?_isSome]
    exact ⟨b, hbMem, by rw [hb.1, Bool.eq_false_iff.mpr hb.2]; rfl⟩
  obtain ⟨bulkIn, hin⟩ := Option.isSome_iff_exists.mp hin
  obtain ⟨bulkOut, hout⟩ := Option.isSome_iff_exists.mp hout
  unfold fromInterface
  rw [hin, hout]
  exact ⟨_, rfl⟩

/-! ## The search -/

/-- The loop over the names takes the first interface with the name. -/
theorem findNamed_eq (is : List Interface) :
    findNamed nameOf is =
      ((is.find? (named nameOf)).map fromInterface).getD (.error .noMtpInterface) := by
  induction is with
  | nil => rfl
  | cons i is ih =>
      rw [findNamed, List.find?_cons]
      cases hname : nameOf i.stringIndex with
      | none =>
          have hnamed : named nameOf i = false := by
            rw [named, hname]
            rfl
          rw [hnamed]
          exact ih
      | some name =>
          by_cases htrim : trim name = vendorMtpName
          · have hnamed : named nameOf i = true := by
              rw [named, hname, Option.map_some, htrim]
              decide
            rw [hnamed]
            exact if_pos htrim
          · have hnamed : named nameOf i = false := by
              rw [named, hname, Option.map_some]
              exact beq_eq_false_iff_ne.mpr fun h => htrim (Option.some.inj h)
            rw [hnamed]
            exact (if_neg htrim).trans ih

/-- The search reads the endpoints of the first candidate. -/
theorem findWithNames_eq (cfg : ConfigDescriptor) (nameOf : UInt8 → Option Str) :
    findWithNames cfg nameOf =
      ((candidate cfg nameOf).map fromInterface).getD (.error .noMtpInterface) := by
  unfold findWithNames candidate
  cases hmtp : cfg.interfaces.find? Interface.isMtp with
  | some i => rfl
  | none =>
      rw [Option.none_or]
      show findNamed nameOf _ = _
      rw [findNamed_eq, List.find?_filter]
      simp only [Bool.decide_and, Bool.decide_eq_true]

theorem candidate_eq_some (h : candidate cfg nameOf = some i) :
    i ∈ cfg.interfaces ∧ Carries nameOf i ∧ ((∃ j ∈ cfg.interfaces, j.isMtp) → i.isMtp) := by
  unfold candidate at h
  cases hmtp : cfg.interfaces.find? Interface.isMtp with
  | some j =>
      rw [hmtp] at h
      cases h
      have hclass := List.find?_some hmtp
      exact ⟨List.mem_of_find?_eq_some hmtp, .inl hclass, fun _ => hclass⟩
  | none =>
      rw [hmtp, Option.none_or] at h
      have hvendor := List.find?_some h
      simp only [Bool.and_eq_true] at hvendor
      refine ⟨List.mem_of_find?_eq_some h, .inr hvendor, ?_⟩
      rintro ⟨j, hj, hclass⟩
      exact absurd hclass (List.find?_eq_none.mp hmtp j hj)

/-- **The search, exactly.**  It does what it is for where the first candidate is usable, or no
candidate is. -/
theorem finds_usable_iff (cfg : ConfigDescriptor) (nameOf : UInt8 → Option Str) :
    FindsUsable cfg nameOf ↔
      ((∃ i, candidate cfg nameOf = some i ∧ Usable i) ∨
        ∀ i ∈ cfg.interfaces, Carries nameOf i → ¬Usable i) := by
  have hsearch := findWithNames_eq cfg nameOf
  constructor
  · intro h
    by_cases hany : ∃ i ∈ cfg.interfaces, Carries nameOf i ∧ Usable i
    · left
      obtain ⟨m, hm⟩ := h.finds.mpr hany
      rw [hsearch] at hm
      cases hfirst : candidate cfg nameOf with
      | none =>
          rw [hfirst] at hm
          cases hm
      | some i =>
          rw [hfirst] at hm
          exact ⟨i, rfl, (fromInterface_eq_ok hm).2⟩
    · right
      intro i hi hcarries husable
      exact hany ⟨i, hi, hcarries, husable⟩
  · rintro (⟨i, hfirst, husable⟩ | hnone)
    · obtain ⟨m, hm⟩ := fromInterface_of_usable husable
      obtain ⟨hi, hcarries, hclass⟩ := candidate_eq_some hfirst
      rw [hfirst] at hsearch
      have hfound : findWithNames cfg nameOf = .ok m := hsearch.trans hm
      constructor
      · exact iff_of_true ⟨m, hfound⟩ ⟨i, hi, hcarries, husable⟩
      · intro m' hm'
        rw [hfound] at hm'
        cases hm'
        refine ⟨i, hi, hcarries, husable, (fromInterface_eq_ok hm).1, ?_⟩
        rintro ⟨j, hj, hmtp, -⟩
        exact hclass ⟨j, hj, hmtp⟩
    · have hfails : ∀ m, findWithNames cfg nameOf ≠ .ok m := by
        intro m hm
        rw [hsearch] at hm
        cases hfirst : candidate cfg nameOf with
        | none =>
            rw [hfirst] at hm
            cases hm
        | some i =>
            rw [hfirst] at hm
            obtain ⟨hi, hcarries, -⟩ := candidate_eq_some hfirst
            exact hnone i hi hcarries (fromInterface_eq_ok hm).2
      constructor
      · apply iff_of_false
        · rintro ⟨m, hm⟩
          exact hfails m hm
        · rintro ⟨i, hi, hcarries, husable⟩
          exact hnone i hi hcarries husable
      · intro m hm
        exact absurd hm (hfails m)

/-- A still imaging interface with two settings, and no endpoint in the first. -/
def twoSettings : Bytes :=
  [9, 2, 41, 0, 1, 1, 0, 0x80, 50,
    9, 4, 0, 0, 0, 6, 1, 1, 0,
    9, 4, 0, 1, 2, 6, 1, 1, 0,
    7, 5, 0x81, 2, 0, 2, 0,
    7, 5, 0x01, 2, 0, 2, 0]

/-- The configuration of `twoSettings`. -/
def twoSettingsConfig : ConfigDescriptor :=
  ⟨41, 1, 1, [⟨0, 0, 6, 1, 1, 0, []⟩, ⟨0, 1, 6, 1, 1, 0, [⟨0x81, 2, 512⟩, ⟨0x01, 2, 512⟩]⟩]⟩

/-- The second setting has both bulk endpoints, and the search fails. -/
theorem misses_the_second_setting :
    ConfigDescriptor.parse twoSettings = .ok twoSettingsConfig ∧
    findWithNames twoSettingsConfig (fun _ => none) =
      .error (.incompleteMtpEndpoints false false) ∧
    ¬FindsUsable twoSettingsConfig fun _ => none := by
  refine ⟨by decide +kernel, by decide +kernel, ?_⟩
  intro h
  have hfails : findWithNames twoSettingsConfig (fun _ => none) =
      .error (.incompleteMtpEndpoints false false) := by decide +kernel
  have hsecond : (⟨0, 1, 6, 1, 1, 0, [⟨0x81, 2, 512⟩, ⟨0x01, 2, 512⟩]⟩ : Interface) ∈
      twoSettingsConfig.interfaces := List.mem_cons_of_mem _ List.mem_cons_self
  have husable : Usable ⟨0, 1, 6, 1, 1, 0, [⟨0x81, 2, 512⟩, ⟨0x01, 2, 512⟩]⟩ := by
    refine ⟨⟨⟨0x81, 2, 512⟩, List.mem_cons_self, by decide, by decide⟩, ⟨0x01, 2, 512⟩, ?_⟩
    exact ⟨List.mem_cons_of_mem _ List.mem_cons_self, by decide, by decide⟩
  obtain ⟨m, hm⟩ := h.finds.mpr ⟨_, hsecond, .inl (by decide), husable⟩
  rw [hfails] at hm
  cases hm

end MtpInterface

end Bsdroid
