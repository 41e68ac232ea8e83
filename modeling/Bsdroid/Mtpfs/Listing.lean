import Bsdroid.Mtpfs.Asking

/-!
# What a listing of the cellphone gives

The two ways to list a folder are computed from the answers of the device: the
fast way gives each object with its size, and the older way gives a size of at
most `0xffffffff`.
-/

namespace Bsdroid

/-- A policy without faults on the operations that only read. -/
def Policy.Answers (policy : Policy) : Prop :=
  ∀ log s r, r.code ∈ Mtp.readsOnly → policy.fault log s r = none

theorem Policy.Faultless.answers {policy : Policy} (h : policy.Faultless) : policy.Answers :=
  fun log s r _ => h log s r

/-- The entry a listing should hold for an object. -/
def Object.entry (x : Object) : Entry where
  handle := x.key
  parent := x.parent
  name := x.name
  isDir := x.folder
  size := x.size

/-- The entry the older way gives for an object. -/
def Object.shortEntry (x : Object) : Entry :=
  { x.entry with size := min x.size 0xffffffff }

/-- The entry the older way gives for an object, when it reads the folder
`parent`. -/
def Object.shortEntryIn (parent : UInt32) (x : Object) : Entry :=
  ⟨x.key, parent, x.name, x.folder, min x.size 0xffffffff⟩

/-! ## The two datasets a listing reads -/

/-- The value of one property of an object. -/
def Object.value (x : Object) (code : UInt16) : PropValue :=
  if code = Property.objectFileName then .text x.name
  else if code = Property.objectSize then .number x.size
  else .number x.format.toNat

/-- One element of a property list reads back. -/
theorem readPropEntry_propElement {x : Object} (hx : x.Sound) (code : UInt16)
    (rest : Bytes) :
    readPropEntry (Phone.propElement code x ++ rest) =
      (.ok ⟨x.key, code, x.value code⟩, rest) := by
  unfold readPropEntry Phone.propElement Object.value
  rw [List.append_assoc, List.append_assoc, Proc.bind_ok (Reader.readU32_le32 _ _ _),
    Proc.bind_ok (Reader.readU16_le16 _ _ _)]
  split
  · have hname : readPropValue DataType.str (pushString x.name ++ rest) =
        (.ok (.text x.name), rest) := by
      change (Reader.readString "prop_str" >>= fun s => pure (PropValue.text s)) _ = _
      rw [Proc.bind_ok (Reader.readString_pushString _ _ _), Utf16.fit_eq_self hx.named]
      rfl
    rw [List.append_assoc, Proc.bind_ok (Reader.readU16_le16 _ _ _), Proc.bind_ok hname]
    rfl
  · split
    · have hsize : readPropValue DataType.uint64 (le64 x.size ++ rest) =
          (.ok (.number x.size), rest) := by
        change (Reader.readU64 "prop_u64" >>= fun n => pure (PropValue.number n)) _ = _
        rw [Proc.bind_ok (Reader.readU64_le64 _ hx.sized _)]
        rfl
      rw [List.append_assoc, Proc.bind_ok (Reader.readU16_le16 _ _ _), Proc.bind_ok hsize]
      rfl
    · have hformat : readPropValue DataType.uint16 (le16 x.format ++ rest) =
          (.ok (.number x.format.toNat), rest) := by
        change (Reader.readU16 "prop_u16" >>= fun n => pure (PropValue.number n.toNat)) _ = _
        rw [Proc.bind_ok (Reader.readU16_le16 _ _ _)]
        rfl
      rw [List.append_assoc, Proc.bind_ok (Reader.readU16_le16 _ _ _),
        Proc.bind_ok hformat]
      rfl

/-- The answer to a property request reads back as one column of entries. -/
theorem parseObjectPropList_column {xs : List Object} (hsound : ∀ x ∈ xs, x.Sound)
    (hcount : xs.length < 2 ^ 32) (code : UInt16) :
    parseObjectPropList (le32 (UInt32.ofNat xs.length) ++
        xs.flatMap (Phone.propElement code)) =
      .ok (xs.map fun x => ⟨x.key, code, x.value code⟩) := by
  have hall := Reader.repeated_flatMap
    (fun x hx rest => readPropEntry_propElement (hsound x hx) code rest) []
  rw [List.append_nil] at hall
  unfold parseObjectPropList
  rw [Proc.bind_ok (Reader.readU32_le32 _ _ _), UInt32.toNat_ofNat_of_lt' hcount, hall]

/-- The record of an object, from its three properties. -/
theorem record_of_values (x : Object) :
    (Mtp.wanted.map fun code => (⟨x.key, code, x.value code⟩ : PropEntry)).foldl
        PropRecord.set (PropRecord.blank x.key) =
      ⟨x.key, x.name, x.size, x.format, 0, 0⟩ := by
  have hformat : UInt16.ofNat x.format.toNat = x.format := UInt16.ofNat_toNat
  change (⟨x.key, x.name, x.size, UInt16.ofNat x.format.toNat, 0, 0⟩ : PropRecord) = _
  rw [hformat]

theorem format_eq_association (x : Object) :
    (x.format == Format.association) = x.folder := by
  unfold Object.format
  cases hfolder : x.folder with
  | true => rfl
  | false => simpa using x.content.ordinary

/-- The dataset of an object reads back. -/
theorem ObjectInfo.parse_phone {p : Phone} {x : Object} (hx : x.Sound) :
    ∃ info, ObjectInfo.parse (p.dataset x) = .ok info ∧ info.filename = x.name ∧
      info.isFolder = x.folder ∧ info.compressedSize.toNat = min x.size 0xffffffff := by
  obtain ⟨capture, modification, h⟩ := ObjectInfo.parse_dataset p.storage x.format
    (p.policy.dressing x.key).protection (UInt32.ofNat (min x.size 0xffffffff))
    (p.policy.dressing x.key).thumbFormat (p.policy.dressing x.key).thumbSize
    (p.policy.dressing x.key).thumbWidth (p.policy.dressing x.key).thumbHeight
    (p.policy.dressing x.key).width (p.policy.dressing x.key).height
    (p.policy.dressing x.key).depth x.parent (if x.folder then 1 else 0)
    (p.policy.dressing x.key).description (p.policy.dressing x.key).number x.name
    (p.policy.dressing x.key).tail
  refine ⟨_, h, Utf16.fit_eq_self hx.named, format_eq_association x, ?_⟩
  apply UInt32.toNat_ofNat_of_lt'
  rw [UInt32.size]
  omega

/-! ## The objects of a folder -/

namespace Store

variable (s : Store)

theorem find_of_mem_children {p : UInt32} {x : Object} (hx : x ∈ s.children p) :
    s.find x.key = some x :=
  s.objects.find_eq_some.mpr ⟨(s.objects.mem_children.mp hx).1, rfl⟩

theorem parent_of_mem_children {p : UInt32} {x : Object} (hx : x ∈ s.children p) :
    x.parent = p := (s.objects.mem_children.mp hx).2

theorem nodup_children (p : UInt32) : ((s.children p).map Node.key).Nodup :=
  s.objects.nodup.sublist (List.Sublist.map _ List.filter_sublist)

/-- A folder is not among the objects it holds. -/
theorem key_ne_of_mem_children {p : UInt32} {x : Object} (hx : x ∈ s.children p) :
    x.key ≠ p := by
  intro h
  obtain ⟨hmem, hp⟩ := s.objects.mem_children.mp hx
  exact s.objects.parent_ne_key hmem (hp.trans h.symm)

/-- Distinct handles that are not the root's are fewer than `2 ^ 32`. -/
theorem length_lt_of_nodup {hs : List UInt32} (hnodup : hs.Nodup) (hroot : root ∉ hs) :
    hs.length < 2 ^ 32 := by
  have hmap : ((root :: hs).map UInt32.toNat).Nodup :=
    (List.nodup_cons.mpr ⟨hroot, hnodup⟩).map fun _ _ h => UInt32.toNat_inj.mp h
  have hsub : (root :: hs).map UInt32.toNat ⊆ List.range (2 ^ 32) := by
    intro n hn
    obtain ⟨h, -, rfl⟩ := List.mem_map.mp hn
    exact List.mem_range.mpr h.toNat_lt
  have hle := (hmap.subperm hsub).length_le
  rw [List.length_map, List.length_cons, List.length_range] at hle
  omega

end Store

namespace Phone

variable (p : Phone)

theorem nodup_named (arg : UInt32) : ((p.named arg).map Node.key).Nodup := by
  rw [named, List.map_append, List.nodup_append]
  refine ⟨?_, p.store.nodup_children arg, ?_⟩
  · split
    · cases p.store.find arg with
      | none => exact List.nodup_nil
      | some x => exact List.nodup_singleton _
    · exact List.nodup_nil
  · intro a ha b hb
    obtain ⟨y, hy, rfl⟩ := List.mem_map.mp hb
    have hself : a = arg := by
      split at ha
      · cases hfind : p.store.find arg with
        | none => simp [hfind] at ha
        | some x =>
            have hkey := (p.store.objects.find_eq_some.mp hfind).2
            simp only [hfind, Option.toList_some, List.map_cons, List.map_nil,
              List.mem_singleton] at ha
            rw [ha, hkey]
      · cases ha
    rw [hself]
    exact (p.store.key_ne_of_mem_children hy).symm

theorem mem_named {arg : UInt32} {x : Object} (hx : x ∈ p.named arg) :
    x ∈ p.store.objects.nodes := by
  rw [named] at hx
  rcases List.mem_append.mp hx with hx | hx
  · split at hx
    · exact (p.store.objects.find_eq_some.mp (Option.mem_toList.mp hx)).1
    · cases hx
  · exact (p.store.objects.mem_children.mp hx).1

theorem length_named_lt (arg : UInt32) : (p.named arg).length < 2 ^ 32 := by
  rw [← List.length_map (f := Node.key)]
  refine Store.length_lt_of_nodup (p.nodup_named arg) ?_
  intro h
  obtain ⟨x, hx, hkey⟩ := List.mem_map.mp h
  exact p.store.objects.rootless x (p.mem_named hx) hkey

/-- What a property list names without the folder is what the folder holds. -/
theorem filter_named (arg : UInt32) :
    (p.named arg).filter (fun x => x.key ≠ arg) = p.store.children arg := by
  have hchildren : (p.store.children arg).filter (fun x => x.key ≠ arg) =
      p.store.children arg := by
    apply List.filter_eq_self.mpr
    intro x hx
    simpa using p.store.key_ne_of_mem_children hx
  rw [named, List.filter_append, hchildren]
  suffices hself : (if p.policy.includesFolder then (p.store.find arg).toList
      else []).filter (fun x => x.key ≠ arg) = [] by
    rw [hself, List.nil_append]
  apply List.filter_eq_nil_iff.mpr
  intro x hx
  split at hx
  · have hkey := (p.store.objects.find_eq_some.mp (Option.mem_toList.mp hx)).2
    simpa using hkey
  · cases hx

end Phone

/-! ## The fast way -/

namespace Mtp

variable {m m' : Mtp Phone} {arg parent : UInt32}

/-- The column of one property in the answer for a folder. -/
def column (p : Phone) (arg : UInt32) (code : UInt16) : List PropEntry :=
  (p.named arg).map fun x => ⟨x.key, code, x.value code⟩

theorem named_of_same (h : SameDevice m m') (arg : UInt32) :
    m'.session.named arg = m.session.named arg := by
  rw [Phone.named, Phone.named, h.store, h.policy]

/-- The answer to one property request. -/
theorem serve_propList (p : Phone) (arg : UInt32) {code : UInt16} (hcode : code ∈ wanted) :
    (p.serve Op.getObjectPropList [arg, 0, code.toUInt32, 0, 1] []).1 =
      if p.store.Lists arg then
        Phone.accept (le32 (UInt32.ofNat (p.named arg).length) ++
          (p.named arg).flatMap (Phone.propElement code)) []
      else Phone.refuse Resp.invalidObjectHandle := by
  change (p.propList [arg, 0, code.toUInt32, 0, 1]) = _
  have hback : code.toUInt32.toUInt16 = code := UInt16.toUInt16_toUInt32 code
  simp only [Phone.propList, hback, hcode, and_true]

theorem parse_column (p : Phone) (arg : UInt32) (code : UInt16) :
    parseObjectPropList (le32 (UInt32.ofNat (p.named arg).length) ++
        (p.named arg).flatMap (Phone.propElement code)) = .ok (column p arg code) :=
  parseObjectPropList_column (fun x hx => p.store.sound x (p.mem_named hx))
    (p.length_named_lt arg) code

theorem propEntries_ok {codes : List UInt16} {es : List PropEntry}
    (hcodes : ∀ code ∈ codes, code ∈ wanted)
    (h : propEntries arg codes m = (.ok es, m')) :
    es = codes.flatMap (column m.session arg) ∧ (codes ≠ [] → m.session.store.Lists arg) := by
  induction codes generalizing m es with
  | nil =>
      cases h
      exact ⟨rfl, fun hne => absurd rfl hne⟩
  | cons code codes ih =>
      rw [propEntries] at h
      obtain ⟨data, m₁, hop, h⟩ := Proc.bind_eq_ok h
      obtain ⟨entries, m₂, hparse, h⟩ := Proc.bind_eq_ok h
      obtain ⟨more, m₃, hmore, h⟩ := Proc.bind_eq_ok h
      cases h
      obtain ⟨hok, hdata, hm₁⟩ := operation_ok hop
      rw [serve_propList _ _ (hcodes code List.mem_cons_self)] at hok hdata
      have hsame : SameDevice m m₁ := by
        rw [hm₁]
        exact sameDevice_served (by decide)
      split at hok
      · rename_i hlists
        rw [if_pos hlists] at hdata
        subst hdata
        rw [Phone.accept_data, parse_column] at hparse
        obtain ⟨hentries, rfl⟩ := Proc.mapError_ofExcept_eq_ok hparse
        cases hentries
        obtain ⟨hmore', -⟩ := ih (fun c hc => hcodes c (List.mem_cons_of_mem _ hc)) hmore
        have hcolumn : column m₁.session arg = column m.session arg := by
          funext c
          rw [column, column, named_of_same hsame]
        rw [hmore', hcolumn, List.flatMap_cons]
        exact ⟨rfl, fun _ => hlists⟩
      · cases hok

theorem propEntries_of_answers {codes : List UInt16}
    (hcodes : ∀ code ∈ codes, code ∈ wanted) (hfault : m.session.policy.Answers)
    (hlists : m.session.store.Lists arg) :
    ∃ m', propEntries arg codes m = (.ok (codes.flatMap (column m.session arg)), m') := by
  induction codes generalizing m with
  | nil => exact ⟨m, rfl⟩
  | cons code codes ih =>
      have hanswer := serve_propList m.session arg (hcodes code List.mem_cons_self)
      rw [if_pos hlists] at hanswer
      have hop := operation_of_faultless
        (hfault _ _ ⟨"GetObjectPropList", Op.getObjectPropList, [arg, 0, code.toUInt32, 0, 1], none⟩
          (show Op.getObjectPropList ∈ readsOnly by decide))
        (by rw [hanswer]; rfl)
      have hsame : SameDevice m (served m "GetObjectPropList" Op.getObjectPropList
          [arg, 0, code.toUInt32, 0, 1]) := sameDevice_served (by decide)
      obtain ⟨m', hmore⟩ := ih (m := served m "GetObjectPropList" Op.getObjectPropList
          [arg, 0, code.toUInt32, 0, 1]) (fun c hc => hcodes c (List.mem_cons_of_mem _ hc))
        (hsame.policy ▸ hfault) (hsame.store ▸ hlists)
      refine ⟨m', ?_⟩
      have hcolumn : ∀ t : Mtp Phone, SameDevice m t →
          column t.session arg = column m.session arg := by
        intro t ht
        funext c
        rw [column, column, named_of_same ht]
      rw [hcolumn _ hsame] at hmore
      rw [propEntries, Proc.bind_ok hop, hanswer, Phone.accept_data, parse_column]
      rw [Proc.bind_ok (Proc.mapError_ofExcept_ok _ _ _), Proc.bind_ok hmore,
        List.flatMap_cons]
      rfl

/-- The records of a folder, from its three columns. -/
theorem records_of_columns (p : Phone) (arg : UInt32) :
    dropTheFolder (foldPropList (wanted.flatMap (column p arg))) arg =
      (p.store.children arg).map fun x => ⟨x.key, x.name, x.size, x.format, 0, 0⟩ := by
  have hfold := foldPropList_columns
    (fun x : Object => (⟨x.key, Property.objectFileName,
      Object.value x Property.objectFileName⟩ : PropEntry))
    [fun x => ⟨x.key, Property.objectSize, Object.value x Property.objectSize⟩,
      fun x => ⟨x.key, Property.objectFormat, Object.value x Property.objectFormat⟩]
    (p.nodup_named arg) (by simp)
  have hcolumns : wanted.flatMap (column p arg) =
      ([fun x : Object => (⟨x.key, Property.objectFileName,
          Object.value x Property.objectFileName⟩ : PropEntry),
        fun x => ⟨x.key, Property.objectSize, Object.value x Property.objectSize⟩,
        fun x => ⟨x.key, Property.objectFormat, Object.value x Property.objectFormat⟩]).flatMap
          fun f => (p.named arg).map f := rfl
  rw [hcolumns, hfold, dropTheFolder, ← p.filter_named arg, List.filter_map]
  have hrecord : ∀ x : Object, ([fun x : Object => (⟨x.key, Property.objectFileName,
          Object.value x Property.objectFileName⟩ : PropEntry),
        fun x => ⟨x.key, Property.objectSize, Object.value x Property.objectSize⟩,
        fun x => ⟨x.key, Property.objectFormat, Object.value x Property.objectFormat⟩].map
          (· x)).foldl PropRecord.set (PropRecord.blank x.key) =
      ⟨x.key, x.name, x.size, x.format, 0, 0⟩ := record_of_values
  simp only [hrecord]
  rfl

theorem entriesOf_ok {records : List PropRecord} {es : List Entry}
    (h : entriesOf parent records = .ok es) :
    es = records.map fun r => ⟨r.handle, parent, r.name, r.isFolder, r.size⟩ := by
  induction records generalizing es with
  | nil =>
      cases h
      rfl
  | cons r rest ih =>
      rw [entriesOf] at h
      split at h
      · cases h
      · split at h
        · cases h
        · rename_i entries hentries
          cases h
          rw [ih hentries, List.map_cons]

theorem entriesOf_of_named {records : List PropRecord} (h : ∀ r ∈ records, r.name ≠ []) :
    entriesOf parent records =
      .ok (records.map fun r => ⟨r.handle, parent, r.name, r.isFolder, r.size⟩) := by
  induction records with
  | nil => rfl
  | cons r rest ih =>
      have hr : r.name.isEmpty = false := by
        simpa using h r List.mem_cons_self
      rw [entriesOf, ih fun r' hr' => h r' (List.mem_cons_of_mem _ hr')]
      simp only [hr]
      rfl

/-- The argument of the fast way for a folder. -/
theorem fastArg (parent : UInt32) : (if parent = root then 0 else parent) = parent := by
  split
  · rename_i h
    rw [h]
    rfl
  · rfl

/-- The entries of a folder, from its records. -/
theorem entries_of_records (s : Store) (parent : UInt32) :
    ((s.children parent).map fun x : Object =>
        (⟨x.key, x.name, x.size, x.format, 0, 0⟩ : PropRecord)).map
      (fun r => (⟨r.handle, parent, r.name, r.isFolder, r.size⟩ : Entry)) =
      (s.children parent).map Object.entry := by
  rw [List.map_map]
  apply List.map_congr_left
  intro x hx
  simp only [Function.comp_apply, Object.entry, PropRecord.isFolder,
    format_eq_association, s.parent_of_mem_children hx]

/-- **The fast way.**  What it gives is each object of the folder. -/
theorem listByProperties_ok {es : List Entry}
    (h : listByProperties parent m = (.ok es, m')) :
    es = (m.session.store.children parent).map Object.entry ∧
      m.session.store.Lists parent := by
  rw [listByProperties] at h
  simp only [fastArg] at h
  obtain ⟨entries, m₁, hentries, h⟩ := Proc.bind_eq_ok h
  obtain ⟨rfl, hlists⟩ := propEntries_ok (fun _ hc => hc) hentries
  rw [Proc.ofExcept, Prod.mk.injEq] at h
  have hes := entriesOf_ok h.1
  rw [records_of_columns, entries_of_records] at hes
  exact ⟨hes, hlists (by decide)⟩

theorem listByProperties_of_answers (hfault : m.session.policy.Answers)
    (hlists : m.session.store.Lists parent)
    (hnames : ∀ x ∈ m.session.store.children parent, x.name ≠ []) :
    (listByProperties parent m).1 =
      .ok ((m.session.store.children parent).map Object.entry) := by
  obtain ⟨m', hentries⟩ := propEntries_of_answers (fun _ hc => hc) hfault hlists
  rw [listByProperties]
  simp only [fastArg]
  rw [Proc.bind_ok hentries, records_of_columns, Proc.ofExcept, entriesOf_of_named,
    entries_of_records]
  intro r hr
  obtain ⟨x, hx, rfl⟩ := List.mem_map.mp hr
  exact hnames x hx

/-! ## The older way -/

/-- The answer to a request for the handles of a folder. -/
theorem serve_handles (p : Phone) (storage : UInt32) (hparent : parent ≠ 0xffffffff) :
    (p.serve Op.getObjectHandles
        [storage, 0, if parent = root then Association.rootOnly else parent] []).1 =
      if p.store.Lists parent then
        Phone.accept (le32 (UInt32.ofNat (p.store.children parent).length) ++
          ((p.store.children parent).map Node.key).flatMap le32) []
      else Phone.refuse Resp.invalidObjectHandle := by
  change p.handles [storage, 0, if parent = root then Association.rootOnly else parent] = _
  have hfolder : Phone.folderOf (if parent = root then Association.rootOnly else parent) =
      parent := by
    by_cases h : parent = root
    · rw [if_pos h, h]
      rfl
    · rw [if_neg h]
      exact if_neg hparent
  simp only [Phone.handles, hfolder, List.length_map]

theorem serve_objectInfo (p : Phone) {x : Object} (hx : p.store.find x.key = some x) :
    (p.serve Op.getObjectInfo [x.key] []).1 = Phone.accept (p.dataset x) [] := by
  change p.objectInfo [x.key] = _
  simp only [Phone.objectInfo, hx]

theorem infoEntries_ok {xs : List Object} {es : List Entry}
    (hxs : ∀ x ∈ xs, m.session.store.find x.key = some x)
    (h : infoEntries parent (xs.map Node.key) m = (.ok es, m')) :
    es = xs.map (Object.shortEntryIn parent) := by
  induction xs generalizing m m' es with
  | nil =>
      cases h
      rfl
  | cons x xs ih =>
      rw [List.map_cons, infoEntries] at h
      obtain ⟨raw, m₁, hop, h⟩ := Proc.bind_eq_ok h
      obtain ⟨more, m₂, hmore, h⟩ := Proc.bind_eq_ok h
      obtain ⟨-, hraw, hm₁⟩ := operation_ok hop
      rw [serve_objectInfo _ (hxs x List.mem_cons_self)] at hraw
      have hsame : SameDevice m m₁ := by
        rw [hm₁]
        exact sameDevice_served (by decide)
      have hrest := ih (fun y hy => by
        rw [hsame.store]
        exact hxs y (List.mem_cons_of_mem _ hy)) hmore
      have hsound := m.session.store.sound x
        (m.session.store.objects.find_eq_some.mp (hxs x List.mem_cons_self)).1
      obtain ⟨info, hparse, hname, hfolder, hsize⟩ := ObjectInfo.parse_phone (p := m.session) hsound
      rw [hraw, Phone.accept_data, hparse] at h
      cases h
      rw [hrest, List.map_cons, hname, hfolder, hsize]
      rfl

theorem infoEntries_of_answers (parent : UInt32) {xs : List Object} (hfault : m.session.policy.Answers)
    (hxs : ∀ x ∈ xs, m.session.store.find x.key = some x) :
    ∃ m', infoEntries parent (xs.map Node.key) m =
      (.ok (xs.map (Object.shortEntryIn parent)), m') := by
  induction xs generalizing m with
  | nil => exact ⟨m, rfl⟩
  | cons x xs ih =>
      have hanswer := serve_objectInfo _ (hxs x List.mem_cons_self)
      have hop := operation_of_faultless
        (hfault _ _ ⟨"GetObjectInfo", Op.getObjectInfo, [x.key], none⟩
          (show Op.getObjectInfo ∈ readsOnly by decide)) (by rw [hanswer]; rfl)
      have hsame : SameDevice m (served m "GetObjectInfo" Op.getObjectInfo [x.key]) :=
        sameDevice_served (by decide)
      obtain ⟨m', hmore⟩ := ih (m := served m "GetObjectInfo" Op.getObjectInfo [x.key])
        (hsame.policy ▸ hfault) (fun y hy => by
          rw [hsame.store]
          exact hxs y (List.mem_cons_of_mem _ hy))
      have hsound := m.session.store.sound x
        (m.session.store.objects.find_eq_some.mp (hxs x List.mem_cons_self)).1
      obtain ⟨info, hparse, hname, hfolder, hsize⟩ := ObjectInfo.parse_phone (p := m.session) hsound
      refine ⟨m', ?_⟩
      rw [List.map_cons, infoEntries, Proc.bind_ok hop, Proc.bind_ok hmore, hanswer,
        Phone.accept_data, hparse]
      simp only [hname, hfolder, hsize]
      rfl

theorem short_entries (s : Store) (parent : UInt32) :
    (s.children parent).map (Object.shortEntryIn parent) =
      (s.children parent).map Object.shortEntry := by
  apply List.map_congr_left
  intro x hx
  rw [← s.parent_of_mem_children hx]
  rfl

theorem parse_handles (s : Store) (parent : UInt32) :
    wordsOf ((le32 (UInt32.ofNat (s.children parent).length) ++
      ((s.children parent).map Node.key).flatMap le32).drop 4) =
        (s.children parent).map Node.key := by
  rw [List.drop_append, length_le32, Nat.sub_self, List.drop_zero,
    List.drop_of_length_le (by rw [length_le32]), List.nil_append, wordsOf_flatMap]

/-- **The older way.**  What it gives is each object of the folder, with a size
of at most 32 bits. -/
theorem listOneAtATime_ok {es : List Entry} (hparent : parent ≠ 0xffffffff)
    (h : listOneAtATime parent m = (.ok es, m')) :
    es = (m.session.store.children parent).map Object.shortEntry ∧
      m.session.store.Lists parent := by
  rw [listOneAtATime] at h
  obtain ⟨m₀, m₁, hget, h⟩ := Proc.bind_eq_ok h
  rw [Proc.get_run, Prod.mk.injEq, Except.ok.injEq] at hget
  obtain ⟨rfl, rfl⟩ := hget
  obtain ⟨data, m₂, hop, h⟩ := Proc.bind_eq_ok h
  obtain ⟨hok, hdata, hm₂⟩ := operation_ok hop
  rw [serve_handles _ _ hparent] at hok hdata
  have hsame : SameDevice m m₂ := by
    rw [hm₂]
    exact sameDevice_served (by decide)
  split at hok
  · rename_i hlists
    rw [if_pos hlists] at hdata
    rw [hdata, Phone.accept_data, parse_handles] at h
    have hes := infoEntries_ok (fun x hx => by
      rw [hsame.store]
      exact m.session.store.find_of_mem_children hx) h
    rw [short_entries] at hes
    exact ⟨hes, hlists⟩
  · cases hok

theorem listOneAtATime_of_answers (hfault : m.session.policy.Answers)
    (hparent : parent ≠ 0xffffffff) (hlists : m.session.store.Lists parent) :
    (listOneAtATime parent m).1 =
      .ok ((m.session.store.children parent).map Object.shortEntry) := by
  have hanswer := serve_handles m.session m.storage hparent
  rw [if_pos hlists] at hanswer
  have hop := operation_of_faultless (hfault _ _ ⟨"GetObjectHandles", Op.getObjectHandles,
      [m.storage, 0, if parent = root then Association.rootOnly else parent], none⟩
      (show Op.getObjectHandles ∈ readsOnly by decide))
    (by rw [hanswer]; rfl)
  have hsame : SameDevice m (served m "GetObjectHandles" Op.getObjectHandles
      [m.storage, 0, if parent = root then Association.rootOnly else parent]) :=
    sameDevice_served (by decide)
  obtain ⟨m', hinfo⟩ := infoEntries_of_answers parent
    (m := served m "GetObjectHandles" Op.getObjectHandles
      [m.storage, 0, if parent = root then Association.rootOnly else parent]) (hsame.policy ▸ hfault)
    (fun x (hx : x ∈ m.session.store.children parent) => by
      rw [hsame.store]
      exact m.session.store.find_of_mem_children hx)
  rw [listOneAtATime, Proc.bind_ok (Proc.get_run m), Proc.bind_ok hop, hanswer,
    Phone.accept_data, parse_handles, hinfo, short_entries]

/-! ## Both ways -/

theorem Store.Lists.ne_all {s : Store} {parent : UInt32} (h : s.Lists parent) :
    parent ≠ 0xffffffff := by
  rcases h with rfl | h
  · decide
  · obtain ⟨x, hx⟩ := Option.isSome_iff_exists.mp h
    obtain ⟨hmem, rfl⟩ := s.objects.find_eq_some.mp hx
    exact (s.sound x hmem).single

/-- The two entries of an object differ when 32 bits do not hold its size. -/
theorem entry_eq_shortEntry {x : Object} : x.entry = x.shortEntry ↔ x.size < 2 ^ 32 := by
  have hsize : x.entry = x.shortEntry ↔ x.size = min x.size 0xffffffff := by
    constructor
    · exact fun h => congrArg Entry.size h
    · intro h
      rw [Object.shortEntry, ← h]
      rfl
  rw [hsize]
  omega

/-- Turning the fast way off changes nothing else. -/
theorem sameDevice_slow (m : Mtp Phone) : SameDevice m { m with fastList := false } :=
  ⟨rfl, rfl, rfl, rfl, rfl, rfl, rfl, rfl, fun _ h => .inl h⟩

/-- A question leaves the device alone, whatever it answers. -/
theorem sameDevice_asks : Asks (SameDevice : Mtp Phone → Mtp Phone → Prop) where
  refl := SameDevice.refl
  trans := SameDevice.trans
  operation step params _ hcode := operation_steps step params hcode
  slow := sameDevice_slow

/-- What a listing gives, in whichever way the mount got it. -/
theorem list_ok {es : List Entry} (hparent : parent ≠ 0xffffffff)
    (h : list parent m = (.ok es, m')) :
    (es = (m.session.store.children parent).map Object.entry ∨
      es = (m.session.store.children parent).map Object.shortEntry) ∧
      m.session.store.Lists parent := by
  rw [list] at h
  obtain ⟨m₀, m₁, hget, h⟩ := Proc.bind_eq_ok h
  rw [Proc.get_run, Prod.mk.injEq, Except.ok.injEq] at hget
  obtain ⟨rfl, rfl⟩ := hget
  split at h
  · obtain ⟨answer, m₂, hfast, h⟩ := Proc.bind_eq_ok h
    have hsame : SameDevice m m₂ := by
      have hstep := sameDevice_asks.listByProperties parent m
      rw [Proc.attempt, Prod.mk.injEq] at hfast
      rwa [hfast.2] at hstep
    split at h
    · rename_i v
      cases h
      rw [Proc.attempt, Prod.mk.injEq, Except.ok.injEq] at hfast
      obtain ⟨hes, hlists⟩ := listByProperties_ok (Prod.ext hfast.1 hfast.2)
      exact ⟨.inl hes, hlists⟩
    · obtain ⟨⟨⟩, m₃, hslow, h⟩ := Proc.bind_eq_ok h
      cases hslow
      obtain ⟨hes, hlists⟩ := listOneAtATime_ok hparent h
      exact ⟨.inr (by rw [hes, ← hsame.store]), by rw [← hsame.store]; exact hlists⟩
  · obtain ⟨hes, hlists⟩ := listOneAtATime_ok hparent h
    exact ⟨.inr hes, hlists⟩

/-- A device that answers lists every folder it has. -/
theorem list_of_answers (hfault : m.session.policy.Answers)
    (hlists : m.session.store.Lists parent) :
    ∃ es m', list parent m = (.ok es, m') ∧ SameDevice m m' ∧
      (es = (m.session.store.children parent).map Object.entry ∨
        es = (m.session.store.children parent).map Object.shortEntry) := by
  have hne := Store.Lists.ne_all hlists
  have hsame := sameDevice_asks.list parent m
  have hok : ∃ es, (list parent m).1 = .ok es := by
    rw [list, Proc.bind_ok (Proc.get_run m)]
    by_cases hfast : m.fastList = true
    · rw [if_pos hfast, Proc.bind_run]
      have hstep := sameDevice_asks.listByProperties parent m
      rcases hrun : listByProperties parent m with ⟨e | es, m₁⟩
      · rw [hrun] at hstep
        have hattempt : ((listByProperties parent).attempt : Proc Error (Mtp Phone) _) m =
            (.ok (.error e), m₁) := by
          rw [Proc.attempt, hrun]
        rw [hattempt]
        have hslow := @listOneAtATime_of_answers { m₁ with fastList := false } parent
          (hstep.policy ▸ hfault) hne (hstep.store ▸ hlists)
        exact ⟨_, hslow⟩
      · have hattempt : ((listByProperties parent).attempt : Proc Error (Mtp Phone) _) m =
            (.ok (.ok es), m₁) := by
          rw [Proc.attempt, hrun]
        rw [hattempt]
        exact ⟨es, rfl⟩
    · rw [if_neg hfast]
      exact ⟨_, listOneAtATime_of_answers hfault hne hlists⟩
  obtain ⟨es, hes⟩ := hok
  have hrun : list parent m = (.ok es, (list parent m).2) := Prod.ext hes rfl
  exact ⟨es, _, hrun, hsame, (list_ok hne hrun).1⟩

/-- **The two ways to list a folder agree** exactly when 32 bits hold the size of
each object the folder holds. -/
theorem listings_agree_iff (m : Mtp Phone) (parent : UInt32)
    (hhonest : m.session.policy.Faultless) (hlists : m.session.store.Lists parent)
    (hnames : ∀ x ∈ m.session.store.children parent, x.name ≠ []) :
    (listByProperties parent m).1 = (listOneAtATime parent m).1 ↔
      ∀ x ∈ m.session.store.children parent, x.size < 2 ^ 32 := by
  rw [listByProperties_of_answers hhonest.answers hlists hnames,
    listOneAtATime_of_answers hhonest.answers (Store.Lists.ne_all hlists) hlists, Except.ok.injEq,
    List.map_inj_left]
  exact forall₂_congr fun x _ => entry_eq_shortEntry

/-- A mount on a cellphone with one such file. -/
def mountOfZeros (size : Nat) (h : size < 2 ^ 64) : Mtp Phone :=
  standard (Phone.holding (storeOfZeros size h) Policy.obliging)

theorem children_mountOfZeros (size : Nat) (h : size < 2 ^ 64) :
    (mountOfZeros size h).session.store.children root = [zeros 1 ['a'] size] := rfl

theorem named_mountOfZeros (size : Nat) (h : size < 2 ^ 64) :
    ∀ x ∈ (mountOfZeros size h).session.store.children root, x.name ≠ [] :=
  List.forall_mem_singleton.mpr (show ['a'] ≠ [] by decide)

/-- A file of 3 bytes reads the same in both ways. -/
theorem listings_agree_three :
    (listByProperties root (mountOfZeros 3 (by decide))).1 =
        (listOneAtATime root (mountOfZeros 3 (by decide))).1 ↔
      ∀ x ∈ (mountOfZeros 3 (by decide)).session.store.children root, x.size < 2 ^ 32 :=
  listings_agree_iff _ _ (fun _ _ _ => rfl) (.inl rfl) (named_mountOfZeros 3 (by decide))

/-- A file of `2 ^ 32` bytes has its size in the fast listing, and `0xffffffff`
in the other. -/
theorem listings_differ_at_four_gib :
    (listByProperties root (mountOfZeros (2 ^ 32) (by decide))).1 ≠
      (listOneAtATime root (mountOfZeros (2 ^ 32) (by decide))).1 := by
  have hhonest : (mountOfZeros (2 ^ 32) (by decide)).session.policy.Faultless :=
    fun _ _ _ => rfl
  rw [listByProperties_of_answers hhonest.answers (.inl rfl) (named_mountOfZeros _ _),
    listOneAtATime_of_answers hhonest.answers (by decide) (.inl rfl), children_mountOfZeros]
  intro h
  have hsize : (zeros 1 ['a'] (2 ^ 32)).size < 2 ^ 32 :=
    entry_eq_shortEntry.mp (List.cons.inj (Except.ok.inj h)).1
  rw [Object.size, zeros, List.length_replicate] at hsize
  exact Nat.lt_irrefl _ hsize

end Mtp

end Bsdroid
