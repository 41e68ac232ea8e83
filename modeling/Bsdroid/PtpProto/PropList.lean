import Bsdroid.PtpProto.Datasets
import Mathlib.Data.List.Induction
import Mathlib.Data.List.Nodup
import Mathlib.Logic.Function.Basic

/-!
# Property lists

`GetObjectPropList` answers with a count and one element for each property of
each object.  `parseObjectPropList` reads the elements, and `foldPropList`
collects them into one record for each object.

The fold keeps an index beside the records it made.  `foldPropList_eq` says
what comes out without the index: one record for each handle, in the order in
which the handles first appear, and each record is what the entries of its own
handle set.
-/

namespace Bsdroid

namespace DataType

def int8 : UInt16 := 0x0001
def uint8 : UInt16 := 0x0002
def int16 : UInt16 := 0x0003
def uint16 : UInt16 := 0x0004
def int32 : UInt16 := 0x0005
def uint32 : UInt16 := 0x0006
def int64 : UInt16 := 0x0007
def uint64 : UInt16 := 0x0008
def int128 : UInt16 := 0x0009
def uint128 : UInt16 := 0x000a
def str : UInt16 := 0xffff

end DataType

/-- The value of one object property. -/
inductive PropValue where
  | number (n : Nat)
  | text (s : Str)
  | wide
deriving DecidableEq, Repr

/-- One property of one object. -/
structure PropEntry where
  handle : UInt32
  code : UInt16
  value : PropValue
deriving DecidableEq, Repr

/-- What a listing needs to know about one object. -/
structure PropRecord where
  handle : UInt32
  name : Str
  size : Nat
  format : UInt16
  parent : UInt32
  storage : UInt32
deriving DecidableEq, Repr

/-- Says whether the object is a folder. -/
def PropRecord.isFolder (r : PropRecord) : Bool := r.format == Format.association

/-- The record of an object of which nothing is known yet. -/
def PropRecord.blank (handle : UInt32) : PropRecord := ⟨handle, [], 0, 0, 0, 0⟩

/-- Reads a value in the width its data type gives. -/
def readPropValue (kind : UInt16) : Reader PropValue :=
  if kind = DataType.int8 ∨ kind = DataType.uint8 then do
    let n ← Reader.readU8 "prop_u8"
    pure (.number n.toNat)
  else if kind = DataType.int16 ∨ kind = DataType.uint16 then do
    let n ← Reader.readU16 "prop_u16"
    pure (.number n.toNat)
  else if kind = DataType.int32 ∨ kind = DataType.uint32 then do
    let n ← Reader.readU32 "prop_u32"
    pure (.number n.toNat)
  else if kind = DataType.int64 ∨ kind = DataType.uint64 then do
    let n ← Reader.readU64 "prop_u64"
    pure (.number n)
  else if kind = DataType.int128 ∨ kind = DataType.uint128 then do
    let _ ← Reader.take 16 "prop_u128"
    pure .wide
  else if kind = DataType.str then do
    let s ← Reader.readString "prop_str"
    pure (.text s)
  else Proc.fail (.unsupported "prop_type" kind.toUInt32)

/-- Reads one element of the list. -/
def readPropEntry : Reader PropEntry := do
  let handle ← Reader.readU32 "prop_handle"
  let code ← Reader.readU16 "prop_code"
  let kind ← Reader.readU16 "prop_type"
  let value ← readPropValue kind
  pure { handle, code, value }

/-- Reads an `ObjectPropList` dataset. -/
def parseObjectPropList (data : Bytes) : Except ParseError (List PropEntry) :=
  ((do
    let count ← Reader.readU32 "prop_list_count"
    Reader.repeated readPropEntry count.toNat : Reader (List PropEntry)) data).1

/-- Puts the value of one entry into the record of its object. -/
def PropRecord.set (rec : PropRecord) (e : PropEntry) : PropRecord :=
  match e.value with
  | .text s => if e.code = Property.objectFileName then { rec with name := s } else rec
  | .number n =>
      if e.code = Property.objectSize then { rec with size := n }
      else if e.code = Property.objectFormat then { rec with format := UInt16.ofNat n }
      else if e.code = Property.parentObject then { rec with parent := UInt32.ofNat n }
      else if e.code = Property.storageId then { rec with storage := UInt32.ofNat n }
      else rec
  | .wide => rec

/-- The records made so far, and the place of each handle in them. -/
abbrev Folded := List PropRecord × (UInt32 → Option Nat)

/-- Takes one entry into the fold. -/
def foldPropEntry (acc : Folded) (e : PropEntry) : Folded :=
  match acc.2 e.handle with
  | some i => (acc.1.modify i (·.set e), acc.2)
  | none =>
      ((acc.1 ++ [PropRecord.blank e.handle]).modify acc.1.length (·.set e),
        Function.update acc.2 e.handle (some acc.1.length))

/-- Collects the properties of each object into one record for each object, in
the order of the device. -/
def foldPropList (entries : List PropEntry) : List PropRecord :=
  (entries.foldl foldPropEntry ([], fun _ => none)).1

/-! ## What the fold gives -/

/-- The handles of a list, each where it first appears. -/
def firsts : List PropEntry → List UInt32
  | [] => []
  | e :: es => e.handle :: (firsts es).filter (· ≠ e.handle)

/-- The record the entries of one handle give. -/
def recordOf (entries : List PropEntry) (handle : UInt32) : PropRecord :=
  (entries.filter (·.handle = handle)).foldl PropRecord.set (PropRecord.blank handle)

theorem PropRecord.set_handle (rec : PropRecord) (e : PropEntry) :
    (rec.set e).handle = rec.handle := by
  unfold PropRecord.set
  split
  · split_ifs <;> rfl
  · split_ifs <;> rfl
  · rfl

theorem recordOf_handle (entries : List PropEntry) (handle : UInt32) :
    (recordOf entries handle).handle = handle := by
  unfold recordOf
  generalize entries.filter (·.handle = handle) = es
  suffices h : ∀ rec : PropRecord,
      (es.foldl PropRecord.set rec).handle = rec.handle from h _
  induction es with
  | nil => exact fun _ => rfl
  | cons e es ih => exact fun rec => (ih _).trans (rec.set_handle e)

theorem mem_firsts {entries : List PropEntry} {handle : UInt32} :
    handle ∈ firsts entries ↔ ∃ e ∈ entries, e.handle = handle := by
  induction entries with
  | nil => simp [firsts]
  | cons e es ih =>
      by_cases h : handle = e.handle
      · simp [firsts, h]
      · simp [firsts, ih, h, Ne.symm h]

theorem nodup_firsts (entries : List PropEntry) : (firsts entries).Nodup := by
  induction entries with
  | nil => exact List.nodup_nil
  | cons e es ih => exact List.nodup_cons.mpr ⟨by simp, ih.filter _⟩

theorem firsts_append (xs : List PropEntry) (e : PropEntry) :
    firsts (xs ++ [e]) =
      if e.handle ∈ firsts xs then firsts xs else firsts xs ++ [e.handle] := by
  induction xs with
  | nil => simp [firsts]
  | cons x xs ih =>
      by_cases hx : e.handle = x.handle
      · simp only [List.cons_append, firsts, ih, hx, List.mem_cons, true_or, if_true]
        congr 1
        split
        · rfl
        · simp [List.filter_append]
      · by_cases hmem : e.handle ∈ firsts xs
        · simp [firsts, ih, hmem, hx]
        · simp [firsts, ih, hmem, hx, List.filter_append]

theorem recordOf_append_self (xs : List PropEntry) (e : PropEntry) :
    recordOf (xs ++ [e]) e.handle = (recordOf xs e.handle).set e := by
  simp [recordOf, List.filter_append, List.foldl_append]

theorem recordOf_append_of_ne {xs : List PropEntry} {e : PropEntry} {handle : UInt32}
    (h : e.handle ≠ handle) : recordOf (xs ++ [e]) handle = recordOf xs handle := by
  simp [recordOf, List.filter_append, h]

theorem recordOf_of_not_mem {xs : List PropEntry} {handle : UInt32}
    (h : handle ∉ firsts xs) : recordOf xs handle = PropRecord.blank handle := by
  have hnil : xs.filter (·.handle = handle) = [] := by
    apply List.filter_eq_nil_iff.mpr
    intro e he
    simpa using fun heq : e.handle = handle => h (mem_firsts.mpr ⟨e, he, heq⟩)
  rw [recordOf, hnil]
  rfl

/-- A change at the place of one handle leaves the records of the others. -/
theorem modify_map_at {hs : List UInt32} {i : Nat} {handle : UInt32}
    (hi : hs[i]? = some handle) (hnodup : hs.Nodup) (f g : UInt32 → PropRecord)
    (u : PropRecord → PropRecord) (hself : g handle = u (f handle))
    (hother : ∀ h ∈ hs, h ≠ handle → g h = f h) :
    (hs.map f).modify i u = hs.map g := by
  apply List.ext_getElem? 
  intro j
  rw [List.getElem?_modify, List.getElem?_map, List.getElem?_map]
  cases hj : hs[j]? with
  | none => simp
  | some h =>
      by_cases hij : i = j
      · subst hij
        obtain rfl : h = handle := Option.some.inj (hj.symm.trans hi)
        simp [hself]
      · have hne : h ≠ handle := by
          rintro rfl
          obtain ⟨hli, hgi⟩ := List.getElem?_eq_some_iff.mp hi
          obtain ⟨hlj, hgj⟩ := List.getElem?_eq_some_iff.mp hj
          exact hij ((List.Nodup.getElem_inj_iff hnodup).mp (hgi.trans hgj.symm))
        simp [hij, hother h (List.mem_of_getElem? hj) hne]

/-- **The fold, without its index.**  There is one record for each handle, in
the order of first appearance, and the entries of its own handle alone set it. -/
theorem foldPropList_eq (entries : List PropEntry) :
    foldPropList entries = (firsts entries).map (recordOf entries) := by
  suffices h : (entries.foldl foldPropEntry ([], fun _ => none)).1 =
        (firsts entries).map (recordOf entries) ∧
      ∀ handle i, (entries.foldl foldPropEntry ([], fun _ => none)).2 handle = some i ↔
        (firsts entries)[i]? = some handle from h.1
  induction entries using List.reverseRecOn with
  | nil => exact ⟨rfl, by simp [firsts]⟩
  | append_singleton xs e ih =>
      obtain ⟨hrecords, hindex⟩ := ih
      rw [List.foldl_append, List.foldl_cons, List.foldl_nil, firsts_append]
      generalize hacc : xs.foldl foldPropEntry ([], fun _ => none) = acc at hrecords hindex
      have hlen : acc.1.length = (firsts xs).length := by rw [hrecords, List.length_map]
      by_cases hmem : e.handle ∈ firsts xs
      · obtain ⟨i, hi⟩ := List.getElem?_of_mem hmem
        have hseen : acc.2 e.handle = some i := (hindex _ _).mpr hi
        rw [if_pos hmem]
        simp only [foldPropEntry, hseen]
        refine ⟨?_, hindex⟩
        rw [hrecords]
        exact modify_map_at hi (nodup_firsts xs) _ _ _ (recordOf_append_self xs e)
          fun h _ hne => recordOf_append_of_ne (Ne.symm hne)
      · have hseen : acc.2 e.handle = none := by
          cases hs : acc.2 e.handle with
          | none => rfl
          | some i => exact absurd (List.mem_of_getElem? ((hindex _ _).mp hs)) hmem
        rw [if_neg hmem]
        simp only [foldPropEntry, hseen]
        constructor
        · have hblank : acc.1 ++ [PropRecord.blank e.handle] =
              (firsts xs ++ [e.handle]).map (recordOf xs) := by
            rw [hrecords, List.map_append, List.map_singleton, recordOf_of_not_mem hmem]
          rw [hblank, hlen]
          refine modify_map_at (show _ = some e.handle from ?_) ?_ _ _ _ ?_ ?_
          · simp
          · rw [List.nodup_append]
            refine ⟨nodup_firsts xs, by simp, ?_⟩
            intro a ha b hb
            obtain rfl : b = e.handle := by simpa using hb
            exact fun heq => hmem (heq ▸ ha)
          · exact recordOf_append_self xs e
          · exact fun h _ hne => recordOf_append_of_ne (Ne.symm hne)
        · intro handle i
          by_cases heq : handle = e.handle
          · subst heq
            simp only [Function.update_self, Option.some.injEq, hlen]
            constructor
            · rintro rfl
              simp
            · intro hget
              by_contra hne
              rcases Nat.lt_or_ge i (firsts xs).length with hlt | hge
              · rw [List.getElem?_append_left hlt] at hget
                exact hmem (List.mem_of_getElem? hget)
              · rw [List.getElem?_append_right hge,
                  List.getElem?_eq_none (by simp; omega)] at hget
                cases hget
          · rw [Function.update_of_ne heq, hindex]
            rcases Nat.lt_or_ge i (firsts xs).length with hlt | hge
            · rw [List.getElem?_append_left hlt]
            · rw [List.getElem?_eq_none hge, List.getElem?_append_right hge]
              constructor
              · intro h; cases h
              · intro h
                have := List.mem_of_getElem? h
                exact absurd (List.mem_singleton.mp this) heq

/-! ## The fold of whole columns -/

theorem firsts_of_nodup {xs : List PropEntry} (h : (xs.map PropEntry.handle).Nodup) :
    firsts xs = xs.map PropEntry.handle := by
  induction xs with
  | nil => rfl
  | cons x xs ih =>
      obtain ⟨hx, hxs⟩ := List.nodup_cons.mp h
      rw [firsts, ih hxs, List.map_cons]
      congr 1
      apply List.filter_eq_self.mpr
      intro k hk
      have hne : k ≠ x.handle := fun heq => hx (heq ▸ hk)
      simpa using hne

/-- Entries for handles that appeared before add no handle. -/
theorem firsts_append_of_subset {xs ys : List PropEntry}
    (h : ∀ e ∈ ys, e.handle ∈ firsts xs) : firsts (xs ++ ys) = firsts xs := by
  induction ys using List.reverseRecOn with
  | nil => rw [List.append_nil]
  | append_singleton ys e ih =>
      have hys := ih fun e' he' => h e' (List.mem_append_left _ he')
      rw [← List.append_assoc, firsts_append, hys,
        if_pos (h e (List.mem_append_right _ (List.mem_singleton.mpr rfl)))]

/-- The elements of a list with one key, when the keys are distinct. -/
theorem filter_key_eq {α : Type} {key : α → UInt32} {xs : List α} {x : α}
    (h : (xs.map key).Nodup) (hx : x ∈ xs) :
    xs.filter (fun y => key y = key x) = [x] := by
  induction xs with
  | nil => cases hx
  | cons y ys ih =>
      obtain ⟨hy, hys⟩ := List.nodup_cons.mp h
      rcases List.mem_cons.mp hx with rfl | hx
      · rw [List.filter_cons_of_pos (by simp)]
        congr 1
        apply List.filter_eq_nil_iff.mpr
        intro z hz hkey
        exact hy (of_decide_eq_true hkey ▸ List.mem_map_of_mem hz)
      · have hne : key y ≠ key x := fun heq => hy (heq ▸ List.mem_map_of_mem hx)
        rw [List.filter_cons_of_neg (by simpa using hne), ih hys hx]

/-- **The fold of columns.**  One property of each object after the other gives
one record for each object, in the order of the objects. -/
theorem foldPropList_columns {α : Type} {key : α → UInt32} {xs : List α}
    (column : α → PropEntry) (columns : List (α → PropEntry)) (hnodup : (xs.map key).Nodup)
    (hkey : ∀ f ∈ column :: columns, ∀ x, (f x).handle = key x) :
    foldPropList ((column :: columns).flatMap fun f => xs.map f) =
      xs.map fun x => ((column :: columns).map (· x)).foldl PropRecord.set
        (PropRecord.blank (key x)) := by
  have hhandles : ∀ f ∈ column :: columns,
      (xs.map f).map PropEntry.handle = xs.map key := by
    intro f hf
    rw [List.map_map]
    exact List.map_congr_left fun x _ => hkey f hf x
  have hfirst : firsts (xs.map column) = xs.map key := by
    rw [firsts_of_nodup, hhandles column List.mem_cons_self]
    rw [hhandles column List.mem_cons_self]
    exact hnodup
  have hfirsts : firsts ((column :: columns).flatMap fun f => xs.map f) = xs.map key := by
    rw [List.flatMap_cons, firsts_append_of_subset, hfirst]
    intro e he
    obtain ⟨f, hf, hmem⟩ := List.mem_flatMap.mp he
    obtain ⟨x, hx, rfl⟩ := List.mem_map.mp hmem
    rw [hfirst, hkey f (List.mem_cons_of_mem _ hf)]
    exact List.mem_map_of_mem hx
  rw [foldPropList_eq, hfirsts, List.map_map]
  apply List.map_congr_left
  intro x hx
  have hrows : ∀ fs : List (α → PropEntry), (∀ f ∈ fs, ∀ x, (f x).handle = key x) →
      (fs.flatMap fun f => xs.map f).filter (fun e => e.handle = key x) = fs.map (· x) := by
    intro fs hfs
    induction fs with
    | nil => rfl
    | cons f fs ih =>
        rw [List.flatMap_cons, List.filter_append,
          ih fun g hg => hfs g (List.mem_cons_of_mem _ hg), List.filter_map]
        have hone : xs.filter ((fun e : PropEntry => decide (e.handle = key x)) ∘ f) = [x] := by
          rw [← filter_key_eq hnodup hx]
          apply List.filter_congr
          intro y _
          simp only [Function.comp_apply, hfs f List.mem_cons_self y]
        rw [hone]
        rfl
  change recordOf _ (key x) = _
  rw [recordOf, hrows _ hkey]

end Bsdroid
