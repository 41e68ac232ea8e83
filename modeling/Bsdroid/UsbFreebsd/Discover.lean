import Bsdroid.Lib.Text
import Bsdroid.UsbFreebsd.Search
import Mathlib.Data.List.Find

/-!
# Finding the devices that offer MTP

A person names a device by its node, such as `ugen0.11`, or by a pair of identifiers, such as
`04e8:6860`, and reads both names from a listing.  `discover.find` looks at the devices one by
one and opens none that it need not, and `discover.list` opens all of them.  The search is the
listing cut short (`Discover.find_eq`), and each name of the listing leads the search back to
the device it stands for (`Discover.listed_name_opens`).
-/

namespace Bsdroid

open Text

/-- A bus number and an address on that bus. -/
abbrev BusNode := UInt8 × UInt8

/-- A device the backend gives, and what it answers once it is open. -/
structure DeviceHandle where
  bus : UInt8
  address : UInt8
  vendorId : UInt16
  productId : UInt16
  opens : Bool
  configDescriptorRaw : Option Bytes
  strings : UInt8 → Option Str

namespace DeviceHandle

def node (h : DeviceHandle) : BusNode := (h.bus, h.address)

def ids (h : DeviceHandle) : UInt16 × UInt16 := (h.vendorId, h.productId)

/-- The text at an index.  The index 0 means that there is none. -/
def stringDescriptor (h : DeviceHandle) (index : UInt8) : Option Str :=
  if index = 0 then none else (h.strings index).filter fun s => !s.isEmpty

end DeviceHandle

/-- A device that offers an MTP interface. -/
structure Found where
  device : DeviceHandle
  iface : MtpInterface
  config : ConfigDescriptor
  bus : UInt8
  address : UInt8
  vendorId : UInt16
  productId : UInt16

namespace Found

/-- The node name. -/
def node (f : Found) : Str :=
  ['u', 'g', 'e', 'n'] ++ Nat.toDigits 10 f.bus.toNat ++
    '.' :: Nat.toDigits 10 f.address.toNat

/-- The maker and the model, for a person to read. -/
def name (f : Found) : Str :=
  trim ((f.device.stringDescriptor 1).getD [] ++ ' ' :: (f.device.stringDescriptor 2).getD [])

end Found

/-- How a caller names one device. -/
inductive Selector where
  | node (node : BusNode)
  | ids (vendor product : UInt16)
deriving DecidableEq, Repr

/-- Tells if a device matches. -/
def Selector.matches (h : DeviceHandle) : Selector → Bool
  | .node n => h.node = n
  | .ids vendor product => h.ids = (vendor, product)

namespace Discover

/-- The names of the interfaces the search can ask for. -/
def candidateNames (h : DeviceHandle) (config : ConfigDescriptor) : List (UInt8 × Option Str) :=
  (config.interfaces.filter Interface.isVendorMtpCandidate).map fun i =>
    (i.stringIndex, h.stringDescriptor i.stringIndex)

/-- The name that was read for an index. -/
def nameIn (names : List (UInt8 × Option Str)) (index : UInt8) : Option Str :=
  (names.find? fun entry => entry.1 == index).bind Prod.snd

/-- Looks at one device, and reports whether it offers MTP. -/
def inspect (h : DeviceHandle) : Option Found :=
  if h.opens then
    match h.configDescriptorRaw with
    | none => none
    | some raw =>
        match ConfigDescriptor.parse raw with
        | .error _ => none
        | .ok config =>
            match MtpInterface.findWithNames config (nameIn (candidateNames h config)) with
            | .error _ => none
            | .ok iface => some {
                device := h
                iface := iface
                config := config
                bus := h.bus
                address := h.address
                vendorId := h.vendorId
                productId := h.productId }
  else none

/-- Lists every device that offers an MTP interface. -/
def list (devices : List DeviceHandle) : List Found := devices.filterMap inspect

/-- Finds one device that offers an MTP interface. -/
def find (want : Option Selector) : List DeviceHandle → Option Found
  | [] => none
  | h :: rest =>
      if (want.map fun sel => sel.matches h) = some false then find want rest
      else
        match inspect h with
        | some found => some found
        | none => find want rest

/-- Reads a node name. -/
def parseNode (s : Str) : Option BusNode :=
  let s := (stripPrefix ['/', 'd', 'e', 'v', '/'] s).getD s
  match stripPrefix ['u', 'g', 'e', 'n'] s with
  | none => none
  | some s =>
      match splitOnce '.' s with
      | none => none
      | some (bus, address) =>
          match number 10 256 bus, number 10 256 address with
          | some bus, some address => some (UInt8.ofNat bus, UInt8.ofNat address)
          | _, _ => none

/-- A text without the hexadecimal marks before it. -/
def trimHex : Str → Str
  | '0' :: 'x' :: rest => trimHex rest
  | s => s

/-- Reads the name of a device from a command line. -/
def parseSelector (s : Str) : Option Selector :=
  match splitOnce ':' s with
  | some (vendor, product) =>
      match number 16 65536 (trimHex vendor), number 16 65536 (trimHex product) with
      | some vendor, some product => some (.ids (UInt16.ofNat vendor) (UInt16.ofNat product))
      | _, _ => none
  | none => (parseNode s).map .node

/-- An identifier as the listing prints it: four hexadecimal digits. -/
def printId (id : UInt16) : Str :=
  List.replicate (4 - (Nat.toDigits 16 id.toNat).length) '0' ++ Nat.toDigits 16 id.toNat

/-- The pair of identifiers, as the listing prints it. -/
def printIds (f : Found) : Str := printId f.vendorId ++ ':' :: printId f.productId

/-! ## The names that were read in advance -/

theorem nameIn_map {nameOf : UInt8 → Option Str} {is : List Interface} {i : Interface}
    (hi : i ∈ is) :
    nameIn (is.map fun i => (i.stringIndex, nameOf i.stringIndex)) i.stringIndex =
      nameOf i.stringIndex := by
  induction is with
  | nil => cases hi
  | cons j rest ih =>
      by_cases hsame : j.stringIndex = i.stringIndex
      · simp [nameIn, hsame]
      · have hrest : i ∈ rest := by
          rcases List.mem_cons.mp hi with rfl | hrest
          · contradiction
          · exact hrest
        have hother : (j.stringIndex == i.stringIndex) = false := beq_false_of_ne hsame
        have hnext := ih hrest
        rw [nameIn, List.map_cons, List.find?_cons]
        dsimp only
        rw [hother]
        exact hnext

theorem findNamed_congr {nameOf nameOf' : UInt8 → Option Str} {is : List Interface}
    (h : ∀ i ∈ is, nameOf i.stringIndex = nameOf' i.stringIndex) :
    MtpInterface.findNamed nameOf is = MtpInterface.findNamed nameOf' is := by
  induction is with
  | nil => rfl
  | cons i rest ih =>
      rw [MtpInterface.findNamed, MtpInterface.findNamed, h i List.mem_cons_self,
        ih fun j hj => h j (List.mem_cons_of_mem i hj)]

/-- **The names read in advance are all the search asks for.** -/
theorem findWithNames_candidates (h : DeviceHandle) (config : ConfigDescriptor) :
    MtpInterface.findWithNames config (nameIn (candidateNames h config)) =
      MtpInterface.findWithNames config h.stringDescriptor := by
  rw [MtpInterface.findWithNames, MtpInterface.findWithNames]
  cases config.interfaces.find? Interface.isMtp with
  | some i => rfl
  | none =>
      apply findNamed_congr
      intro i hi
      exact nameIn_map hi

/-! ## The search and the listing -/

section Search

variable {devices : List DeviceHandle} {h : DeviceHandle} {f : Found}

/-- What is found is the device that was looked at. -/
theorem inspect_eq_some (hf : inspect h = some f) :
    f.device = h ∧ f.bus = h.bus ∧ f.address = h.address ∧ f.vendorId = h.vendorId ∧
      f.productId = h.productId := by
  unfold inspect at hf
  split at hf
  · split at hf
    · cases hf
    · split at hf
      · cases hf
      · split at hf
        · cases hf
        · cases hf
          exact ⟨rfl, rfl, rfl, rfl, rfl⟩
  · cases hf

/-- The devices a selector leaves. -/
def wanted (want : Option Selector) (f : Found) : Bool :=
  match want with
  | none => true
  | some sel => sel.matches f.device

/-- **The search is the listing cut short.** -/
theorem find_eq (want : Option Selector) (devices : List DeviceHandle) :
    find want devices = (list devices).find? (wanted want) := by
  induction devices with
  | nil => rfl
  | cons h rest ih =>
      have hlist : list (h :: rest) = (inspect h).toList ++ list rest := by
        rw [list, List.filterMap_cons]
        cases inspect h with
        | none => rfl
        | some f => rfl
      rw [find, hlist, ih]
      cases hinspect : inspect h with
      | none =>
          rw [ite_self]
          rfl
      | some f =>
          have hdevice := (inspect_eq_some hinspect).1
          cases want with
          | none => rfl
          | some sel =>
              simp only [Option.map_some, Option.some.injEq, Option.toList_some,
                List.singleton_append, List.find?_cons, wanted, hdevice]
              cases sel.matches h with
              | true => rfl
              | false => rfl

/-- A device of the listing is one of the backend. -/
theorem mem_list (hf : f ∈ list devices) : ∃ h ∈ devices, inspect h = some f :=
  List.mem_filterMap.mp hf

/-- With distinct nodes the device of a node is the only one. -/
theorem find_node (hnodes : (devices.map DeviceHandle.node).Nodup) (hf : f ∈ list devices) :
    find (some (.node (f.bus, f.address))) devices = some f := by
  obtain ⟨h, hmem, hinspect⟩ := mem_list hf
  obtain ⟨hdevice, hbus, haddress, -, -⟩ := inspect_eq_some hinspect
  have hwanted : wanted (some (.node (f.bus, f.address))) f = true := by
    rw [wanted, Selector.matches, hdevice, hbus, haddress]
    exact decide_eq_true rfl
  rw [find_eq]
  cases hfind : (list devices).find? (wanted (some (.node (f.bus, f.address)))) with
  | none =>
      have hnone := List.find?_eq_none.mp hfind f hf
      contradiction
  | some g =>
      obtain ⟨k, hk, hinspect'⟩ := mem_list (List.mem_of_find?_eq_some hfind)
      have hmatches : wanted (some (.node (f.bus, f.address))) g = true :=
        List.find?_some hfind
      rw [wanted, Selector.matches, (inspect_eq_some hinspect').1, decide_eq_true_iff, hbus,
        haddress] at hmatches
      have hsame : k = h := List.inj_on_of_nodup_map hnodes hk hmem hmatches
      rw [hsame, hinspect] at hinspect'
      exact hinspect'.symm

/-- The device of a pair of identifiers is the first one of the listing that has it. -/
theorem find_ids (vendor product : UInt16) (devices : List DeviceHandle) :
    find (some (.ids vendor product)) devices =
      (list devices).find? fun k => decide (k.vendorId = vendor ∧ k.productId = product) := by
  have hsame : ∀ k ∈ list devices, wanted (some (.ids vendor product)) k =
      decide (k.vendorId = vendor ∧ k.productId = product) := by
    intro k hk
    obtain ⟨h, -, hinspect⟩ := mem_list hk
    obtain ⟨hdevice, -, -, hvendor, hproduct⟩ := inspect_eq_some hinspect
    rw [wanted, Selector.matches, hdevice, DeviceHandle.ids, ← hvendor, ← hproduct]
    exact decide_eq_decide.mpr Prod.mk_inj
  rw [find_eq, List.find?_congr hsame]

end Search

/-! ## The names of the listing -/

/-- The digits of a byte. -/
theorem number_byte (b : UInt8) : number 10 256 (Nat.toDigits 10 b.toNat) = some b.toNat :=
  number_padded (by decide) (by decide) b.toNat_lt 0

theorem not_mem_digits {c : Char} (hc : digit 10 c = none) (n : Nat) :
    c ∉ Nat.toDigits 10 n := by
  intro hmem
  exact digit_of_value (value_toDigits (by decide) (by decide) n) c hmem hc

theorem parseNode_behind {s : Str} {bus address : UInt8}
    (hs : (stripPrefix ['/', 'd', 'e', 'v', '/'] s).getD s = ['u', 'g', 'e', 'n'] ++
      Nat.toDigits 10 bus.toNat ++ '.' :: Nat.toDigits 10 address.toNat) :
    parseNode s = some (bus, address) := by
  rw [parseNode, hs, List.append_assoc, stripPrefix_append]
  dsimp only
  rw [splitOnce_join (not_mem_digits rfl _)]
  dsimp only
  rw [number_byte, number_byte]
  dsimp only
  rw [UInt8.ofNat_toNat, UInt8.ofNat_toNat]

/-- A node name reads back, with or without the folder of the devices. -/
theorem parseSelector_node (f : Found) :
    parseSelector f.node = some (.node (f.bus, f.address)) ∧
      parseSelector (['/', 'd', 'e', 'v', '/'] ++ f.node) = some (.node (f.bus, f.address)) := by
  have hcolon : ':' ∉ f.node := by
    intro hmem
    rw [Found.node, List.append_assoc] at hmem
    rcases List.mem_append.mp hmem with hfront | hrest
    · revert hfront
      decide
    · rcases List.mem_append.mp hrest with hbus | hdot
      · exact not_mem_digits rfl _ hbus
      · rcases List.mem_cons.mp hdot with heq | haddress
        · revert heq
          decide
        · exact not_mem_digits rfl _ haddress
  constructor
  · rw [parseSelector, splitOnce_none hcolon]
    dsimp only
    rw [@parseNode_behind f.node f.bus f.address rfl]
    rfl
  · have hslash : ':' ∉ ['/', 'd', 'e', 'v', '/'] ++ f.node := by
      rw [List.mem_append, not_or]
      exact ⟨by decide, hcolon⟩
    rw [parseSelector, splitOnce_none hslash]
    dsimp only
    have hbehind := @parseNode_behind (['/', 'd', 'e', 'v', '/'] ++ f.node) f.bus f.address
      (by rw [stripPrefix_append]; rfl)
    rw [hbehind]
    rfl

/-- An identifier of the listing reads back. -/
theorem number_printId (id : UInt16) : number 16 65536 (trimHex (printId id)) = some id.toNat := by
  have hvalue : value 16 0 (printId id) = some id.toNat := by
    rw [printId, value_zeros (by decide), value_toDigits (by decide) (by decide)]
  have hbare : trimHex (printId id) = printId id := by
    unfold trimHex
    split
    · rename_i rest heq
      rw [heq] at hvalue
      have hdigit := digit_of_value hvalue 'x' (by simp)
      have hnone : digit 16 'x' = none := rfl
      contradiction
    · rfl
  rw [hbare]
  exact number_padded (by decide) (by decide) id.toNat_lt _

theorem parseSelector_ids (f : Found) :
    parseSelector (printIds f) = some (.ids f.vendorId f.productId) := by
  have hcolon : ':' ∉ printId f.vendorId := by
    intro hmem
    have hvalue : value 16 0 (printId f.vendorId) = some f.vendorId.toNat := by
      rw [printId, value_zeros (by decide), value_toDigits (by decide) (by decide)]
    exact digit_of_value hvalue ':' hmem rfl
  rw [parseSelector, printIds, splitOnce_join hcolon]
  dsimp only
  rw [number_printId, number_printId]
  dsimp only
  rw [UInt16.ofNat_toNat, UInt16.ofNat_toNat]

/-- **Each name of the listing leads back to a device it stands for**: the node name, also
behind `/dev/`, to the very device, and the pair of identifiers to the first of the listed
devices that has it. -/
theorem listed_name_opens {devices : List DeviceHandle}
    (hnodes : (devices.map DeviceHandle.node).Nodup) {f : Found} (hf : f ∈ list devices) :
    (∃ sel, parseSelector f.node = some sel ∧
      parseSelector (['/', 'd', 'e', 'v', '/'] ++ f.node) = some sel ∧
      find (some sel) devices = some f) ∧
    ∃ sel g, parseSelector (printIds f) = some sel ∧ find (some sel) devices = some g ∧
      (list devices).find? (fun k => k.vendorId = f.vendorId ∧ k.productId = f.productId) =
        some g := by
  constructor
  · obtain ⟨hplain, hdev⟩ := parseSelector_node f
    exact ⟨_, hplain, hdev, find_node hnodes hf⟩
  · cases hfind : (list devices).find? fun k =>
        decide (k.vendorId = f.vendorId ∧ k.productId = f.productId) with
    | none =>
        have hnone := List.find?_eq_none.mp hfind f hf
        rw [decide_eq_true_iff] at hnone
        exact absurd ⟨rfl, rfl⟩ hnone
    | some g =>
        refine ⟨_, g, parseSelector_ids f, ?_, rfl⟩
        rw [find_ids, hfind]

/-- The descriptor of a cellphone with one interface. -/
def oneInterface (cls subclass protocol : UInt8) : Bytes :=
  [9, 2, 32, 0, 1, 1, 0, 128, 250, 9, 4, 0, 0, 2, cls, subclass, protocol, 5,
    7, 5, 0x81, 2, 0, 2, 0, 7, 5, 0x01, 2, 0, 2, 0]

/-- A keyboard that a driver holds, a cellphone with the class, and one with the name. -/
def desk : List DeviceHandle :=
  [⟨0, 2, 0x046d, 0xc31c, false, none, fun _ => none⟩,
    ⟨0, 11, 0x04e8, 0x6860, true, some (oneInterface 6 1 1), fun _ => none⟩,
    ⟨1, 12, 0x22b8, 0x2e82, true, some (oneInterface 0xff 0xff 0),
      fun _ => some ['M', 'T', 'P']⟩]

theorem listed_name_opens_desk : ∃ f ∈ list desk, f.bus = 1 ∧
    (∃ sel, parseSelector f.node = some sel ∧
      parseSelector (['/', 'd', 'e', 'v', '/'] ++ f.node) = some sel ∧
      find (some sel) desk = some f) ∧
    ∃ sel g, parseSelector (printIds f) = some sel ∧ find (some sel) desk = some g ∧
      (list desk).find? (fun k => k.vendorId = f.vendorId ∧ k.productId = f.productId) =
        some g := by
  have hlisted : (list desk).any (fun f => f.bus == 1) = true := by decide +kernel
  obtain ⟨f, hf, hbus⟩ := List.any_eq_true.mp hlisted
  exact ⟨f, hf, beq_iff_eq.mp hbus, listed_name_opens (by decide +kernel) hf⟩

end Discover

end Bsdroid
