import Bsdroid.Cellphone.Walk
import Bsdroid.Mtpfs.Frame
import Bsdroid.Mtpfs.Listing
import Bsdroid.Mtpfs.Paths

/-!
# What a walk finds

A tree is `Coherent` with a store when each listing it holds of a folder the store still
has is what the folder holds.  A walk comes to the folders on the way of its path only, and so
it is enough for it that the listings of those are right (`Fs.Shown`).  On a device that answers
such a walk is a walk through the store (`Fs.resolve_eq`), as long as the folders on the way that
were not read yet are fewer than the rounds of one walk.
-/

namespace Bsdroid

/-- An entry tells what an object is, but for its size. -/
structure Entry.Shows (e : Entry) (x : Object) : Prop where
  handle : e.handle = x.key
  parent : e.parent = x.parent
  name : e.name = x.name
  isDir : e.isDir = x.folder

theorem Object.entry_shows (x : Object) : x.entry.Shows x := ⟨rfl, rfl, rfl, rfl⟩

theorem Object.shortEntry_shows (x : Object) : x.shortEntry.Shows x := ⟨rfl, rfl, rfl, rfl⟩

namespace Tree

/-- The tree knows each object of a folder, in the order of the device. -/
structure Holds (t : Tree) (s : Store) (q : UInt32) : Prop where
  keys : t.childrenOf q = some ((s.children q).map Node.key)
  entries : ∀ x ∈ s.children q, ∃ e, t.entries x.key = some e ∧ e.Shows x

/-- Each listing of a folder the device has is what the folder holds. -/
def Coherent (t : Tree) (s : Store) : Prop :=
  ∀ q, t.listed q = true → s.Lists q → t.Holds s q

/-- Each listing of a folder on the way of some names is what the folder holds. -/
def ShownFrom (t : Tree) (s : Store) (q : UInt32) (parts : List Str) : Prop :=
  ∀ r ∈ s.asked q parts, t.listed r = true → t.Holds s r

variable {t : Tree} {s : Store} {q : UInt32}

theorem Coherent.shown (h : t.Coherent s) (hq : s.Lists q) (parts : List Str) :
    t.ShownFrom s q parts :=
  fun r hr hlisted => h r hlisted (Store.lists_of_asked hq hr)

/-- The entries of a folder, one for each object. -/
theorem shows_all {xs : List Object} (h : ∀ x ∈ xs, ∃ e, t.entries x.key = some e ∧ e.Shows x) :
    List.Forall₂ Entry.Shows ((xs.map Node.key).filterMap t.entries) xs := by
  induction xs with
  | nil => exact .nil
  | cons x xs ih =>
      obtain ⟨e, he, hshows⟩ := h x List.mem_cons_self
      rw [List.map_cons, List.filterMap_cons_some he]
      exact .cons hshows (ih fun y hy => h y (List.mem_cons_of_mem _ hy))

theorem Holds.children (h : t.Holds s q) (hlisted : t.listed q = true) :
    ∃ es, t.children q = some es ∧ List.Forall₂ Entry.Shows es (s.children q) := by
  rw [Tree.children, if_pos hlisted, h.keys]
  exact ⟨_, rfl, shows_all h.entries⟩

theorem find_shown {es : List Entry} {xs : List Object} (h : List.Forall₂ Entry.Shows es xs)
    (name : Str) :
    (∃ e x, es.find? (fun e => e.name = name) = some e ∧
      xs.find? (fun x => x.name = name) = some x ∧ e.Shows x) ∨
    (es.find? (fun e => e.name = name) = none ∧ xs.find? (fun x => x.name = name) = none) := by
  induction h with
  | nil => exact .inr ⟨rfl, rfl⟩
  | @cons e x es xs hshows _ ih =>
      by_cases hname : x.name = name
      · have hname' : e.name = name := hshows.name.trans hname
        refine .inl ⟨e, x, ?_, ?_, hshows⟩
        · rw [List.find?_cons_of_pos (by rw [decide_eq_true_eq]; exact hname')]
        · rw [List.find?_cons_of_pos (by rw [decide_eq_true_eq]; exact hname)]
      · have hname' : ¬ e.name = name := fun h => hname (hshows.name.symm.trans h)
        rw [List.find?_cons_of_neg (by rw [decide_eq_true_eq]; exact hname'),
          List.find?_cons_of_neg (by rw [decide_eq_true_eq]; exact hname)]
        exact ih

/-- A name of a folder the tree knows. -/
theorem Holds.named (h : t.Holds s q) (name : Str) :
    (∃ e x, t.childrenNamed q name = some e ∧ s.child q name = some x ∧
      t.entries x.key = some e ∧ e.Shows x) ∨
    (t.childrenNamed q name = none ∧ s.child q name = none) := by
  rw [childrenNamed, h.keys]
  rcases find_shown (shows_all h.entries) name with ⟨e, x, he, hx, hshows⟩ | hnone
  · left
    refine ⟨e, x, he, hx, ?_, hshows⟩
    obtain ⟨k, hk, hentry⟩ := List.mem_filterMap.mp (List.mem_of_find?_eq_some he)
    obtain ⟨y, hy, rfl⟩ := List.mem_map.mp hk
    obtain ⟨e', he', hshows'⟩ := h.entries y hy
    cases hentry.symm.trans he'
    rw [← hshows.handle, hshows'.handle]
    exact he'
  · exact .inr hnone

/-- **A lookup** walks as far as the tree was read, and names the first folder that was
not. -/
theorem ShownFrom.lookupFrom {parts : List Str} (h : t.ShownFrom s q parts) :
    t.lookupFrom q parts =
      match (s.asked q parts).find? fun r => !t.listed r with
      | some r => .needListing r
      | none =>
          match s.walk q parts with
          | some k => .found k
          | none => .notFound := by
  induction parts generalizing q with
  | nil => rfl
  | cons part parts ih =>
      have hhere := h q (by rw [Store.asked]; exact List.mem_cons_self)
      rw [Tree.lookupFrom]
      cases hlisted : t.listed q with
      | false =>
          rw [Store.asked, List.find?_cons_of_pos (by rw [hlisted]; rfl)]
          rfl
      | true =>
          rw [if_pos rfl]
          rcases (hhere hlisted).named part with ⟨e, x, he, hx, -, hshows⟩ | ⟨he, hx⟩
          · have hrest : t.ShownFrom s x.key parts := by
              intro r hr
              apply h r
              rw [Store.asked, hx]
              exact List.mem_cons_of_mem _ hr
            rw [he, Store.asked, Store.walk, List.find?_cons_of_neg (by rw [hlisted]; decide), hx]
            dsimp only
            rw [hshows.handle]
            exact ih hrest
          · rw [he, Store.asked, Store.walk, List.find?_cons_of_neg (by rw [hlisted]; decide), hx]
            rfl

/-! ## A folder is read -/

theorem record_of_not_mem {es : List Entry} {k : UInt32} (hk : k ∉ es.map Entry.handle)
    (m : UInt32 → Option Entry) :
    es.foldl (fun (m : UInt32 → Option Entry) e => Function.update m e.handle (some e)) m k =
      m k := by
  induction es generalizing m with
  | nil => rfl
  | cons a es ih =>
      rw [List.map_cons, List.mem_cons, not_or] at hk
      rw [List.foldl_cons, ih hk.2, Function.update_of_ne hk.1]

theorem record_of_mem {es : List Entry} {e : Entry} (hnodup : (es.map Entry.handle).Nodup)
    (he : e ∈ es) (m : UInt32 → Option Entry) :
    es.foldl (fun (m : UInt32 → Option Entry) e => Function.update m e.handle (some e)) m
      e.handle = some e := by
  induction es generalizing m with
  | nil => cases he
  | cons a es ih =>
      rw [List.map_cons, List.nodup_cons] at hnodup
      rw [List.foldl_cons]
      rcases List.mem_cons.mp he with rfl | he
      · rw [record_of_not_mem hnodup.1, Function.update_self]
      · exact ih hnodup.2 he _

theorem handles_shown {es : List Entry} {xs : List Object} (h : List.Forall₂ Entry.Shows es xs) :
    es.map Entry.handle = xs.map Node.key := by
  induction h with
  | nil => rfl
  | cons hshows _ ih => rw [List.map_cons, List.map_cons, hshows.handle, ih]

theorem exists_shown {es : List Entry} {xs : List Object} (h : List.Forall₂ Entry.Shows es xs)
    {x : Object} (hx : x ∈ xs) : ∃ e ∈ es, e.Shows x := by
  induction h with
  | nil => cases hx
  | @cons e y es ys hshows _ ih =>
      rcases List.mem_cons.mp hx with rfl | hx
      · exact ⟨e, List.mem_cons_self, hshows⟩
      · obtain ⟨e', he', hshows'⟩ := ih hx
        exact ⟨e', List.mem_cons_of_mem _ he', hshows'⟩

/-- A folder as the device lists it goes into the tree. -/
theorem holds_setChildren {es : List Entry} (hes : List.Forall₂ Entry.Shows es (s.children q)) :
    (t.setChildren q es).Holds s q := by
  have hkeys := handles_shown hes
  have hnodup : (es.map Entry.handle).Nodup := hkeys ▸ s.nodup_children q
  refine ⟨?_, fun x hx => ?_⟩
  · rw [Tree.setChildren]
    dsimp only
    rw [Function.update_self, hkeys]
  · obtain ⟨e, he, hshows⟩ := exists_shown hes hx
    refine ⟨e, ?_, hshows⟩
    rw [← hshows.handle]
    exact record_of_mem hnodup he _

/-- It leaves the right listings of the other folders as they are. -/
theorem Holds.setChildren {r : UInt32} (h : t.Holds s r) (hrq : r ≠ q) {es : List Entry}
    (hes : List.Forall₂ Entry.Shows es (s.children q)) : (t.setChildren q es).Holds s r := by
  obtain ⟨hholds, hentries⟩ := h
  refine ⟨?_, fun x hx => ?_⟩
  · rw [Tree.setChildren]
    dsimp only
    rw [Function.update_of_ne hrq, hholds]
  · obtain ⟨e, he, hshows⟩ := hentries x hx
    refine ⟨e, ?_, hshows⟩
    refine (record_of_not_mem ?_ _).trans he
    -- The object is in one folder only.
    rw [handles_shown hes]
    intro hmem
    obtain ⟨y, hy, hkey⟩ := List.mem_map.mp hmem
    have hsame : y = x := s.objects.eq_of_key (s.objects.mem_children.mp hy).1
      (s.objects.mem_children.mp hx).1 hkey
    rw [hsame] at hy
    exact hrq ((s.parent_of_mem_children hx).symm.trans (s.parent_of_mem_children hy))

/-- A listing that was right before the folder went into the tree, or is the one of the folder. -/
theorem holds_after_setChildren {r : UInt32} {es : List Entry}
    (hes : List.Forall₂ Entry.Shows es (s.children q)) (h : t.listed r = true → t.Holds s r)
    (hlisted : (t.setChildren q es).listed r = true) : (t.setChildren q es).Holds s r := by
  by_cases hrq : r = q
  · subst hrq
    exact holds_setChildren hes
  · rw [Tree.setChildren] at hlisted
    dsimp only at hlisted
    rw [Function.update_of_ne hrq] at hlisted
    exact (h hlisted).setChildren hrq hes

/-- A folder as the device lists it goes into a coherent tree. -/
theorem Coherent.setChildren (h : t.Coherent s) {es : List Entry}
    (hes : List.Forall₂ Entry.Shows es (s.children q)) : (t.setChildren q es).Coherent s :=
  fun r hlisted hr => holds_after_setChildren hes (fun hbefore => h r hbefore hr) hlisted

/-- The listings on the way of some names stay right. -/
theorem ShownFrom.setChildren {c : UInt32} {parts : List Str} (h : t.ShownFrom s c parts)
    {es : List Entry} (hes : List.Forall₂ Entry.Shows es (s.children q)) :
    (t.setChildren q es).ShownFrom s c parts :=
  fun r hr hlisted => holds_after_setChildren hes (h r hr) hlisted

/-- What the tree tells of an object stays right. -/
theorem shows_after_setChildren {es : List Entry}
    (hes : List.Forall₂ Entry.Shows es (s.children q)) {x : Object} (hx : s.find x.key = some x)
    (h : ∃ e, t.entries x.key = some e ∧ e.Shows x) :
    ∃ e, (t.setChildren q es).entries x.key = some e ∧ e.Shows x := by
  by_cases hhere : x ∈ s.children q
  · exact (holds_setChildren hes).entries x hhere
  · obtain ⟨e, he, hshows⟩ := h
    refine ⟨e, (record_of_not_mem ?_ _).trans he, hshows⟩
    rw [handles_shown hes]
    intro hmem
    obtain ⟨y, hy, hkey⟩ := List.mem_map.mp hmem
    have hsame : y = x :=
      s.objects.eq_of_key (s.objects.mem_children.mp hy).1 (Store.mem_of_find hx) hkey
    exact hhere (hsame ▸ hy)

theorem listed_forgetListing {q r : UInt32} (h : (t.forgetListing q).listed r = true) :
    r ≠ q ∧ t.listed r = true ∧ (t.forgetListing q).childrenOf r = t.childrenOf r := by
  rw [Tree.forgetListing] at h ⊢
  dsimp only at h ⊢
  by_cases hrq : r = q
  · rw [hrq, Function.update_self] at h
    cases h
  · rw [Function.update_of_ne hrq] at h
    exact ⟨hrq, h, Function.update_of_ne hrq _ _⟩

/-- A right listing of one folder stays right when an object of another goes. -/
theorem Holds.remove (h : t.Holds s q) {k : UInt32} {x : Object} (hx : s.find k = some x)
    (hqx : q ≠ x.parent) (hlists : (s.remove k).Lists q) :
    (t.forgetListing x.parent).Holds (s.remove k) q := by
  have hroot : k ≠ root := Store.find_key hx ▸ s.objects.rootless x (Store.mem_of_find hx)
  have hsame : (s.remove k).children q = s.children q := by
    rw [Store.children_remove hroot hlists, List.filter_eq_self]
    intro y hy
    rw [decide_eq_true_eq]
    intro hkey
    subst hkey
    have hfind := s.objects.find_eq_some.mpr ⟨(s.objects.mem_children.mp hy).1, rfl⟩
    cases hx.symm.trans hfind
    exact hqx (s.parent_of_mem_children hy).symm
  have hkept : (t.forgetListing x.parent).childrenOf q = t.childrenOf q :=
    Function.update_of_ne hqx _ _
  refine ⟨by rw [hkept, hsame, h.keys], ?_⟩
  intro y hy
  exact h.entries y (hsame ▸ hy)

end Tree

theorem shows_map_entry (xs : List Object) : List.Forall₂ Entry.Shows (xs.map Object.entry) xs := by
  induction xs with
  | nil => exact .nil
  | cons x xs ih => exact .cons x.entry_shows ih

theorem shows_map_shortEntry (xs : List Object) :
    List.Forall₂ Entry.Shows (xs.map Object.shortEntry) xs := by
  induction xs with
  | nil => exact .nil
  | cons x xs ih => exact .cons x.shortEntry_shows ih

namespace Fs

variable {fs fs' : Fs Phone}

/-- The objects of the device behind a mount. -/
def store (fs : Fs Phone) : Store := fs.mtp.session.store

/-- A mount whose tree is coherent, on a device that answers every question. -/
structure Sees (fs : Fs Phone) : Prop where
  coherent : fs.tree.Coherent fs.store
  answers : fs.mtp.session.policy.Answers

/-- The listings on the way of a path, as far as they were read, are what the device holds. -/
def Shown (fs : Fs Phone) (path : Str) : Prop := fs.tree.ShownFrom fs.store root (splitPath path)

/-- A mount that shows the way of a path, on a device that answers every question. -/
structure SeesWay (fs : Fs Phone) (path : Str) : Prop where
  shown : Shown fs path
  answers : fs.mtp.session.policy.Answers

theorem shown_of_coherent (h : fs.tree.Coherent fs.store) (path : Str) : Shown fs path :=
  h.shown (.inl rfl) _

/-- The way of a path goes through its folder. -/
theorem Shown.folder {path : Str} (h : Shown fs path) (hname : Filename (splitParent path).2) :
    Shown fs (splitParent path).1 := by
  intro r hr
  apply h r
  rw [splitPath_eq hname, Store.asked_append]
  exact List.mem_append_left _ hr

theorem SeesWay.folder {path : Str} (h : SeesWay fs path)
    (hname : Filename (splitParent path).2) : SeesWay fs (splitParent path).1 :=
  ⟨h.shown.folder hname, h.answers⟩

theorem Sees.way (h : Sees fs) (path : Str) : SeesWay fs path :=
  ⟨shown_of_coherent h.coherent path, h.answers⟩

/-- The tree tells what an object is. -/
def Tells (fs : Fs Phone) (x : Object) : Prop := ∃ e, fs.tree.get x.key = some e ∧ e.Shows x

/-- The mount read some folders, and nothing else happened. -/
structure Looked (fs fs' : Fs Phone) : Prop where
  pending : fs'.pending = fs.pending
  disk : fs'.disk = fs.disk
  count : fs'.spoolCount = fs.spoolCount
  host : fs'.host = fs.host
  device : Mtp.SameDevice fs.mtp fs'.mtp
  coherent : fs.tree.Coherent fs.store → fs'.tree.Coherent fs.store
  shown : ∀ path, Shown fs path → fs'.tree.ShownFrom fs.store root (splitPath path)
  listed : ∀ q, fs.tree.listed q = true → fs'.tree.listed q = true
  tells : ∀ x, fs.store.find x.key = some x → Tells fs x → Tells fs' x

theorem Looked.store (h : Looked fs fs') : fs'.store = fs.store := h.device.store

theorem Looked.refl (fs : Fs Phone) : Looked fs fs :=
  ⟨rfl, rfl, rfl, rfl, .refl _, id, fun _ h => h, fun _ h => h, fun _ _ h => h⟩

theorem Looked.trans {a b c : Fs Phone} (h : Looked a b) (h' : Looked b c) : Looked a c where
  pending := h'.pending.trans h.pending
  disk := h'.disk.trans h.disk
  count := h'.count.trans h.count
  host := h'.host.trans h.host
  device := h.device.trans h'.device
  coherent hc := h.store ▸ h'.coherent (h.store.symm ▸ h.coherent hc)
  shown path hs := h.store ▸ h'.shown path (by rw [Shown, h.store]; exact h.shown path hs)
  listed q hq := h'.listed q (h.listed q hq)
  tells x hx ht := h'.tells x (h.store.symm ▸ hx) (h.tells x hx ht)

theorem Looked.keeps_shown (h : Looked fs fs') {path : Str} (hs : Shown fs path) :
    Shown fs' path := by
  rw [Shown, h.store]
  exact h.shown path hs

theorem Looked.way (h : Looked fs fs') {path : Str} (hs : SeesWay fs path) : SeesWay fs' path :=
  ⟨h.keeps_shown hs.shown, h.device.policy ▸ hs.answers⟩

theorem Looked.sees (h : Looked fs fs') (hs : Sees fs) : Sees fs' :=
  ⟨h.store.symm ▸ h.coherent hs.coherent, h.device.policy ▸ hs.answers⟩

/-- The device gives a listing of whatever it has, unless there is nothing in it: a file it
may refuse to list. -/
def ListsFolders (fs : Fs Phone) : Prop :=
  ∀ m, Mtp.SameDevice fs.mtp m → ∀ q, fs.store.Lists q →
    (∃ es m', Mtp.list q m = (.ok es, m')) ∨ fs.store.children q = []

/-- A device that answers every question lists whatever it has. -/
theorem lists_of_answers (h : fs.mtp.session.policy.Answers) {m : Mtp Phone}
    (hm : Mtp.SameDevice fs.mtp m) {q : UInt32} (hq : fs.store.Lists q) :
    ∃ es m', Mtp.list q m = (.ok es, m') := by
  obtain ⟨es, m', hlist, -⟩ := Mtp.list_of_answers (hm.policy ▸ h)
    (show m.session.store.Lists q by rw [hm.store]; exact hq)
  exact ⟨es, m', hlist⟩

/-- A listing that the device gave goes into the tree. -/
theorem looked_of_list {q : UInt32} (hq : fs.store.Lists q) {es : List Entry} {m : Mtp Phone}
    (hlist : Mtp.list q fs.mtp = (.ok es, m)) :
    Looked fs { fs with mtp := m, tree := fs.tree.setChildren q es } := by
  have hsame : Mtp.SameDevice fs.mtp m := by
    have hstep := Mtp.sameDevice_asks.list q fs.mtp
    rwa [hlist] at hstep
  have hes : List.Forall₂ Entry.Shows es (fs.store.children q) := by
    rcases (Mtp.list_ok (Mtp.Store.Lists.ne_all hq) hlist).1 with rfl | rfl
    · exact shows_map_entry _
    · exact shows_map_shortEntry _
  refine ⟨rfl, rfl, rfl, rfl, hsame, fun h => h.setChildren hes, fun _ h => h.setChildren hes, ?_,
    fun x hx ht => Tree.shows_after_setChildren hes hx ht⟩
  intro r hr
  rw [Tree.setChildren]
  dsimp only
  by_cases hrq : r = q
  · rw [hrq, Function.update_self]
  · rw [Function.update_of_ne hrq, hr]

/-- A listing that the device refused leaves the tree as it was. -/
theorem looked_of_refused {q : UInt32} {e : Error} {m : Mtp Phone}
    (hlist : Mtp.list q fs.mtp = (.error e, m)) : Looked fs { fs with mtp := m } := by
  have hsame : Mtp.SameDevice fs.mtp m := by
    have hstep := Mtp.sameDevice_asks.list q fs.mtp
    rwa [hlist] at hstep
  exact ⟨rfl, rfl, rfl, rfl, hsame, id, fun _ h => h, fun _ h => h, fun _ _ h => h⟩

/-! A walk of a path leaves the device as it is. -/

section

variable {path : Str}

theorem device_resolve {E : Type} {a : Except E (Option UInt32)}
    (hrun : (resolve path : Proc E (Fs Phone) _) fs = (a, fs')) :
    Mtp.SameDevice fs.mtp fs'.mtp := by
  have hkeeps :=
    resolve_keeps (E := E) Mtp.sameDevice_asks.toChains Mtp.sameDevice_asks.list path fs
  rw [hrun] at hkeeps
  exact hkeeps.device

theorem device_resolved {a : Except Int UInt32} (hrun : resolved path fs = (a, fs')) :
    Mtp.SameDevice fs.mtp fs'.mtp := by
  have hkeeps := resolved_keeps Mtp.sameDevice_asks.toChains Mtp.sameDevice_asks.list path fs
  rw [hrun] at hkeeps
  exact hkeeps.device

theorem pending_resolved {a : Except Int UInt32} (hrun : resolved path fs = (a, fs')) :
    fs'.pending = fs.pending := by
  have hkeeps := resolved_keeps Mtp.sameDevice_asks.toChains Mtp.sameDevice_asks.list path fs
  rw [hrun] at hkeeps
  exact hkeeps.pending

theorem store_resolved {a : Except Int UInt32} (hrun : resolved path fs = (a, fs')) :
    fs'.store = fs.store := (device_resolved hrun).store

end

/-- A folder of the device is read into the tree. -/
theorem list_looks {E : Type} (h : fs.mtp.session.policy.Answers) {q : UInt32}
    (hq : fs.store.Lists q) :
    ∃ es m, Mtp.list q fs.mtp = (.ok es, m) ∧
      (tryMtp (Mtp.list q) : Proc E (Fs Phone) _) fs = (.ok (.ok es), { fs with mtp := m }) ∧
        Looked fs { fs with mtp := m, tree := fs.tree.setChildren q es } := by
  obtain ⟨es, m, hlist⟩ := lists_of_answers h (.refl _) hq
  exact ⟨es, m, hlist, by rw [tryMtp_run, hlist], looked_of_list hq hlist⟩

/-- The folders on the way of a path that were not read yet. -/
def unread (fs : Fs Phone) (path : Str) : List UInt32 :=
  (fs.store.asked root (splitPath path)).filter fun r => !fs.tree.listed r

/-- The handle a path names on the device. -/
def names (fs : Fs Phone) (path : Str) : Option UInt32 := fs.store.walk root (splitPath path)

/-- One more folder is read. -/
theorem unread_read {path : Str} {q : UInt32} (hstore : fs'.store = fs.store)
    (hlisted : ∀ r, fs'.tree.listed r = if r = q then true else fs.tree.listed r)
    (hq : q ∈ fs.unread path) : (fs.unread path).length = (fs'.unread path).length + 1 := by
  have hnodup : (fs.unread path).Nodup := List.Nodup.filter _ Store.nodup_asked
  have hrest : fs'.unread path = (fs.unread path).erase q := by
    rw [hnodup.erase_eq_filter, unread, unread, hstore, List.filter_filter]
    refine List.filter_congr fun r _ => ?_
    rw [hlisted]
    by_cases hrq : r = q
    · simp [hrq]
    · simp [hrq]
  have hpos := List.length_pos_of_mem hq
  rw [hrest, List.length_erase_of_mem hq]
  omega

/-- **A walk of the mount**, on a device that lists its folders: it finds what a walk of the
device finds, as long as it has rounds for the folders that were not read.  The folders on the way
are read then, unless the device refused one of them. -/
theorem resolveIn_lists {E : Type} {path : Str} (hshown : Shown fs path) (hlists : fs.ListsFolders)
    (rounds : Nat) :
    ∃ fs', (resolveIn path rounds : Proc E (Fs Phone) (Option UInt32)) fs =
        (.ok (if (fs.unread path).length < rounds then fs.names path else none), fs') ∧
      Looked fs fs' ∧
      ((fs.unread path).length < rounds →
        (∀ r ∈ fs.store.asked root (splitPath path), fs'.tree.listed r = true) ∨
        ∃ r ∈ fs.store.asked root (splitPath path), ∃ m e m', Mtp.SameDevice fs.mtp m ∧
          Mtp.list r m = (.error e, m')) ∧
      ∀ r, fs'.tree.listed r = true →
        fs.tree.listed r = true ∨ r ∈ fs.store.asked root (splitPath path) := by
  induction rounds generalizing fs with
  | zero =>
      refine ⟨fs, ?_, .refl fs, fun hlt => absurd hlt (Nat.not_lt_zero _), fun r hr => .inl hr⟩
      rw [if_neg (Nat.not_lt_zero _)]
      rfl
  | succ rounds ih =>
      rw [resolveIn, Proc.bind_ok (Proc.get_run _), Tree.lookup, hshown.lookupFrom]
      cases hfind : (fs.store.asked root (splitPath path)).find? fun r => !fs.tree.listed r with
      | none =>
          have hall : ∀ r ∈ fs.store.asked root (splitPath path), fs.tree.listed r = true := by
            intro r hr
            have hno := List.find?_eq_none.mp hfind r hr
            rwa [Bool.not_eq_true', Bool.not_eq_false] at hno
          have hnone : fs.unread path = [] := List.filter_eq_nil_iff.mpr fun r hr => by
            rw [hall r hr]
            decide
          refine ⟨fs, ?_, .refl fs, fun _ => .inl hall, fun r hr => .inl hr⟩
          rw [hnone, List.length_nil, if_pos (Nat.succ_pos _), names]
          dsimp only
          cases fs.store.walk root (splitPath path) with
          | none => rfl
          | some k => rfl
      | some q =>
          have hmem := List.mem_of_find?_eq_some hfind
          have hq := Store.lists_of_asked (.inl rfl) hmem
          dsimp only
          rcases hlist : Mtp.list q fs.mtp with ⟨e | es, m⟩
          · -- The device refused a file: there is nothing in it to find.
            have hempty : fs.store.children q = [] := by
              rcases hlists fs.mtp (.refl _) q hq with ⟨es, m', hok⟩ | hempty
              · rw [hlist] at hok
                cases hok
              · exact hempty
            have hnames : fs.names path = none := Store.walk_of_childless hmem hempty
            refine ⟨{ fs with mtp := m }, ?_, looked_of_refused hlist,
              fun _ => .inr ⟨q, hmem, fs.mtp, e, m, .refl _, hlist⟩, fun r hr => .inl hr⟩
            rw [Proc.bind_run, tryMtp_run, hlist, hnames, ite_self]
            rfl
          · have hunlisted : fs.tree.listed q = false := by
              have hsome := List.find?_some hfind
              rwa [Bool.not_eq_true'] at hsome
            have hlooked := looked_of_list hq hlist
            have hstore : Fs.store { fs with mtp := m, tree := fs.tree.setChildren q es } =
                fs.store := hlooked.store
            have hlists' : ListsFolders { fs with mtp := m, tree := fs.tree.setChildren q es } := by
              intro m' hm' r hr
              rw [hstore] at hr ⊢
              exact hlists m' (hlooked.device.trans hm') r hr
            obtain ⟨fs', hrun, hlooked', hall, honly⟩ := ih (hlooked.keeps_shown hshown) hlists'
            have hlisted : ∀ r, (fs.tree.setChildren q es).listed r =
                if r = q then true else fs.tree.listed r := fun r => by
              rw [Tree.setChildren]
              exact Function.update_apply ..
            have hless : (fs.unread path).length =
                (unread { fs with mtp := m, tree := fs.tree.setChildren q es } path).length + 1 :=
              unread_read hstore hlisted (List.mem_filter.mpr ⟨hmem, by rw [hunlisted]; rfl⟩)
            refine ⟨fs', ?_, hlooked.trans hlooked', fun hlt => ?_, fun r hr => ?_⟩
            · rw [Proc.bind_run, tryMtp_run, hlist]
              dsimp only
              rw [Proc.bind_ok (setChildren_run _ _ _), hrun, hless]
              simp only [Nat.add_lt_add_iff_right, names, hstore]
            · rw [hless, Nat.add_lt_add_iff_right] at hlt
              rw [← hstore]
              refine (hall hlt).imp_right ?_
              intro hthere
              obtain ⟨r, hr, m', e, m'', hm', hfailed⟩ := hthere
              exact ⟨r, hr, m', e, m'', hlooked.device.trans hm', hfailed⟩
            · rcases honly r hr with hr | hr
              · rw [hlisted] at hr
                split at hr
                · rename_i hrq
                  exact .inr (hrq ▸ hmem)
                · exact .inl hr
              · exact .inr (hstore ▸ hr)

/-! ## A walk on a way that the tree shows -/

/-- The walk of a path may end early, and finds nothing but what the device has there. -/
theorem resolveIn_shown {E : Type} {path : Str} (h : Shown fs path) (rounds : Nat) :
    ∃ found fs', (resolveIn path rounds : Proc E (Fs Phone) (Option UInt32)) fs = (.ok found, fs') ∧
      Looked fs fs' ∧ ∀ k, found = some k → fs.names path = some k ∧
        ∀ r ∈ fs.store.asked root (splitPath path), fs'.tree.listed r = true := by
  induction rounds generalizing fs with
  | zero =>
      refine ⟨none, fs, rfl, .refl fs, ?_⟩
      intro k hk
      cases hk
  | succ rounds ih =>
      rw [resolveIn, Proc.bind_ok (Proc.get_run _), Tree.lookup, h.lookupFrom]
      cases hfind : (fs.store.asked root (splitPath path)).find? fun r => !fs.tree.listed r with
      | none =>
          dsimp only
          cases hwalk : fs.store.walk root (splitPath path) with
          | none =>
              refine ⟨none, fs, rfl, .refl fs, ?_⟩
              intro k hk
              cases hk
          | some k =>
              refine ⟨some k, fs, rfl, .refl fs, ?_⟩
              intro k' hk'
              cases hk'
              refine ⟨hwalk, fun r hr => ?_⟩
              have hno := List.find?_eq_none.mp hfind r hr
              rwa [Bool.not_eq_true', Bool.not_eq_false] at hno
      | some q =>
          have hq := Store.lists_of_asked (.inl rfl) (List.mem_of_find?_eq_some hfind)
          dsimp only
          rcases hlist : Mtp.list q fs.mtp with ⟨e | es, m⟩
          · refine ⟨none, { fs with mtp := m }, ?_, looked_of_refused hlist, ?_⟩
            · rw [Proc.bind_ok (tryMtp_run _ _), hlist]
              rfl
            · intro k hk
              cases hk
          · have hlooked := looked_of_list hq hlist
            obtain ⟨found, fs', hrun, hlooked', hfound⟩ := ih (hlooked.keeps_shown h)
            refine ⟨found, fs', ?_, hlooked.trans hlooked', ?_⟩
            · rw [Proc.bind_ok (tryMtp_run _ _), hlist]
              dsimp only
              rw [Proc.bind_ok (setChildren_run _ _ _)]
              exact hrun
            · intro k hk
              obtain ⟨hnames, hall⟩ := hfound k hk
              have hstore := hlooked.store
              rw [names, hstore] at hnames
              rw [hstore] at hall
              exact ⟨hnames, hall⟩

theorem looked_of_resolve {E : Type} {path : Str} (h : Shown fs path) {found : Option UInt32}
    (hrun : (resolve path : Proc E (Fs Phone) _) fs = (.ok found, fs')) :
    Looked fs fs' ∧ ∀ k, found = some k → fs.names path = some k ∧
      ∀ r ∈ fs.store.asked root (splitPath path), fs'.tree.listed r = true := by
  obtain ⟨found', fs₁, hwalk, hlooked, hfound⟩ := @resolveIn_shown _ E _ h maxWalk
  cases hrun.symm.trans hwalk
  exact ⟨hlooked, hfound⟩

/-- What a walk finds is what the device has at the path. -/
theorem looked_of_resolved {path : Str} (h : Shown fs path) {k : UInt32}
    (hrun : resolved path fs = (.ok k, fs')) :
    Looked fs fs' ∧ fs.names path = some k ∧
      ∀ r ∈ fs.store.asked root (splitPath path), fs'.tree.listed r = true := by
  rw [resolved] at hrun
  obtain ⟨found, fs₁, hwalk, hrun⟩ := Proc.bind_eq_ok hrun
  obtain ⟨hlooked, hfound⟩ := looked_of_resolve h hwalk
  cases found with
  | none => cases hrun
  | some k' =>
      cases hrun
      exact ⟨hlooked, hfound k rfl⟩

/-- The tree tells of each object at the end of a way that was read. -/
theorem tells_of_read {path : Str} (h : Shown fs path)
    (hread : ∀ r ∈ fs.store.asked root (splitPath path), fs.tree.listed r = true) {k : UInt32}
    (hk : fs.names path = some k) :
    k = root ∨ ∃ x, fs.store.find k = some x ∧ Tells fs x := by
  have hall : ∀ parts q, (q = root ∨ ∃ x, fs.store.find q = some x ∧ Tells fs x) →
      fs.tree.ShownFrom fs.store q parts →
      (∀ r ∈ fs.store.asked q parts, fs.tree.listed r = true) →
      fs.store.walk q parts = some k → k = root ∨ ∃ x, fs.store.find k = some x ∧ Tells fs x := by
    intro parts
    induction parts with
    | nil =>
        intro q hq _ _ hwalk
        cases hwalk
        exact hq
    | cons part parts ih =>
        intro q _ hshown hread hwalk
        have hhere : q ∈ fs.store.asked q (part :: parts) := by
          rw [Store.asked]
          exact List.mem_cons_self
        cases hchild : fs.store.child q part with
        | none =>
            rw [Store.walk, hchild] at hwalk
            cases hwalk
        | some x =>
            rw [Store.walk, hchild] at hwalk
            have hrest : ∀ r ∈ fs.store.asked x.key parts, r ∈ fs.store.asked q (part :: parts) := by
              intro r hr
              rw [Store.asked, hchild]
              exact List.mem_cons_of_mem _ hr
            have hx := (hshown q hhere (hread q hhere)).entries x (Store.mem_of_child hchild).1
            exact ih x.key (.inr ⟨x, Store.find_of_child hchild, hx⟩)
              (fun r hr => hshown r (hrest r hr)) (fun r hr => hread r (hrest r hr)) hwalk
  exact hall (splitPath path) root (.inl rfl) h hread hk

/-! ## A walk that the device answers -/

theorem resolveIn_eq {E : Type} {path : Str} (h : SeesWay fs path) (rounds : Nat) :
    ∃ fs', (resolveIn path rounds : Proc E (Fs Phone) (Option UInt32)) fs =
        (.ok (if (fs.unread path).length < rounds then fs.names path else none), fs') ∧
      Looked fs fs' ∧
      ((fs.unread path).length < rounds →
        ∀ r ∈ fs.store.asked root (splitPath path), fs'.tree.listed r = true) ∧
      ∀ r, fs'.tree.listed r = true →
        fs.tree.listed r = true ∨ r ∈ fs.store.asked root (splitPath path) := by
  obtain ⟨fs', hrun, hlooked, hread, honly⟩ :=
    resolveIn_lists h.shown (fun m hm q hq => .inl (lists_of_answers h.answers hm hq)) rounds
  refine ⟨fs', hrun, hlooked, fun hlt => ?_, honly⟩
  rcases hread hlt with hall | ⟨r, hr, m, e, m', hm, hfailed⟩
  · exact hall
  · obtain ⟨es, m'', hok⟩ := lists_of_answers h.answers hm (Store.lists_of_asked (.inl rfl) hr)
    rw [hfailed] at hok
    cases hok

/-- **A walk of the mount is a walk of the device**, when the folders on the way that were
not read are fewer than its rounds. -/
theorem resolve_eq {E : Type} {path : Str} (h : SeesWay fs path) :
    ∃ fs', (resolve path : Proc E (Fs Phone) (Option UInt32)) fs =
        (.ok (if (fs.unread path).length < maxWalk then fs.names path else none), fs') ∧
      Looked fs fs' ∧
      ((fs.unread path).length < maxWalk →
        ∀ r ∈ fs.store.asked root (splitPath path), fs'.tree.listed r = true) ∧
      ∀ r, fs'.tree.listed r = true →
        fs.tree.listed r = true ∨ r ∈ fs.store.asked root (splitPath path) :=
  resolveIn_eq h maxWalk

/-- What a walk of the mount finds at a path: what the device has there, unless as many
folders on the way are unread as a walk reads. -/
def hit (fs : Fs Phone) (path : Str) : Option UInt32 :=
  if (fs.unread path).length < maxWalk then fs.names path else none

theorem names_of_hit {path : Str} {k : UInt32} (hk : fs.hit path = some k) :
    (fs.unread path).length < maxWalk ∧ fs.names path = some k := by
  rw [hit] at hk
  split at hk
  · exact ⟨‹_›, hk⟩
  · cases hk

/-- After some reading fewer folders are unread. -/
theorem Looked.unread (h : Looked fs fs') (path : Str) :
    (fs'.unread path).Sublist (fs.unread path) := by
  rw [Fs.unread, Fs.unread, h.store]
  refine List.monotone_filter_right _ fun r hr => ?_
  rw [Bool.not_eq_true'] at hr ⊢
  by_contra hlisted
  rw [h.listed r (by rwa [Bool.not_eq_false] at hlisted)] at hr
  cases hr

theorem Looked.names (h : Looked fs fs') (path : Str) : fs'.names path = fs.names path := by
  rw [Fs.names, Fs.names, h.store]

/-- What a walk finds it finds again later. -/
theorem Looked.hit (h : Looked fs fs') {path : Str} {k : UInt32} (hk : fs.hit path = some k) :
    fs'.hit path = some k := by
  obtain ⟨hunread, hnames⟩ := names_of_hit hk
  rw [Fs.hit, if_pos (Nat.lt_of_le_of_lt (h.unread path).length_le hunread), h.names, hnames]

/-- A walk that finds nothing. -/
theorem resolved_of_miss {path : Str} (h : SeesWay fs path) (hmiss : fs.hit path = none) :
    ∃ fs', resolved path fs = (.error (-Libc.ENOENT), fs') ∧ Looked fs fs' := by
  obtain ⟨fs', hrun, hlooked, -⟩ := @resolve_eq _ Int _ h
  refine ⟨fs', ?_, hlooked⟩
  rw [hit] at hmiss
  rw [hmiss] at hrun
  rw [resolved, Proc.bind_ok hrun]
  rfl

/-- A walk that finds something, and leaves no folder on its way unread. -/
theorem resolved_of_hit {path : Str} (h : SeesWay fs path) {k : UInt32}
    (hk : fs.hit path = some k) :
    ∃ fs', resolved path fs = (.ok k, fs') ∧ Looked fs fs' ∧ fs'.unread path = [] := by
  obtain ⟨fs', hrun, hlooked, hall, -⟩ := @resolve_eq _ Int _ h
  refine ⟨fs', ?_, hlooked, ?_⟩
  · have hsame := hk
    rw [hit] at hsame
    rw [hsame] at hrun
    rw [resolved, Proc.bind_ok hrun]
    rfl
  · refine List.filter_eq_nil_iff.mpr fun r hr => ?_
    rw [hlooked.store] at hr
    rw [hall (names_of_hit hk).1 r hr]
    decide

/-- A walk reads no folder but those on its way. -/
theorem resolved_reads {path : Str} (h : SeesWay fs path) {a : Except Int UInt32}
    (hrun : resolved path fs = (a, fs')) {r : UInt32} (hr : fs'.tree.listed r = true) :
    fs.tree.listed r = true ∨ r ∈ fs.store.asked root (splitPath path) := by
  obtain ⟨fs₁, hwalk, -, -, honly⟩ := @resolve_eq _ Int _ h
  rw [resolved, Proc.bind_ok hwalk] at hrun
  refine honly r ?_
  cases hhit : (if (fs.unread path).length < maxWalk then fs.names path else none) with
  | none =>
      rw [hhit] at hrun
      cases hrun
      exact hr
  | some k =>
      rw [hhit] at hrun
      cases hrun
      exact hr

/-- The path of a file leads to an object of a folder, and the tree knows the object. -/
structure Finds (fs : Fs Phone) (path : Str) (d : UInt32) (x : Object) (e : Entry) : Prop where
  folder : fs.hit (splitParent path).1 = some d
  object : fs.store.child d (splitParent path).2 = some x
  listed : ∀ r ∈ fs.store.asked root (splitPath path), fs.tree.listed r = true
  entry : fs.tree.get x.key = some e
  shows : e.Shows x

variable {path : Str} {d k : UInt32} {x : Object} {e : Entry}

/-- The folders on the way of a path. -/
theorem asked_path (hname : Filename (splitParent path).2)
    (hd : fs.names (splitParent path).1 = some d) :
    fs.store.asked root (splitPath path) =
      fs.store.asked root (splitPath (splitParent path).1) ++ [d] := by
  rw [splitPath_eq hname]
  exact Store.asked_snoc hd _

theorem names_path (hname : Filename (splitParent path).2) :
    fs.names path =
      (fs.names (splitParent path).1).bind fun d =>
        (fs.store.child d (splitParent path).2).map Node.key := by
  rw [names, splitPath_eq hname]
  exact Store.walk_snoc _ _

/-- A mount that found the object at a path knows it. -/
theorem finds_of_read (h : Shown fs path) (hname : Filename (splitParent path).2)
    (hread : fs.unread path = []) (hk : fs.names path = some k) :
    ∃ d x e, Finds fs path d x e ∧ x.key = k := by
  rw [names_path hname] at hk
  obtain ⟨d, hd, hk⟩ := Option.bind_eq_some_iff.mp hk
  obtain ⟨x, hx, rfl⟩ := Option.map_eq_some_iff.mp hk
  have hlisted : ∀ r ∈ fs.store.asked root (splitPath path), fs.tree.listed r = true := by
    intro r hr
    have hno := List.filter_eq_nil_iff.mp hread r hr
    rwa [Bool.not_eq_true', Bool.not_eq_false] at hno
  have hfolder : fs.hit (splitParent path).1 = some d := by
    have hnone : fs.unread (splitParent path).1 = [] := by
      refine List.filter_eq_nil_iff.mpr fun r hr => ?_
      rw [hlisted r (by rw [asked_path hname hd]; exact List.mem_append_left _ hr)]
      decide
    rw [hit, hnone, if_pos (by decide), hd]
  have hd' : fs.tree.listed d = true := by
    refine hlisted d ?_
    rw [asked_path hname hd]
    exact List.mem_append_right _ List.mem_cons_self
  obtain ⟨e, he, hshows⟩ :=
    (h d (by rw [asked_path hname hd]; exact List.mem_append_right _ List.mem_cons_self)
      hd').entries x (Store.mem_of_child hx).1
  exact ⟨d, x, e, ⟨hfolder, hx, hlisted, he, hshows⟩, rfl⟩

/-- **A path of a file that the mount finds.** -/
theorem finds_of_hit (h : SeesWay fs path) (hname : Filename (splitParent path).2)
    (hk : fs.hit path = some k) :
    ∃ fs' d x e, resolved path fs = (.ok k, fs') ∧ Looked fs fs' ∧ Finds fs' path d x e ∧
      x.key = k := by
  obtain ⟨fs', hrun, hlooked, hread⟩ := resolved_of_hit h hk
  have hnames := (hlooked.names path).trans (names_of_hit hk).2
  obtain ⟨d, x, e, hfinds, hkey⟩ := finds_of_read (hlooked.way h).shown hname hread hnames
  exact ⟨fs', d, x, e, hrun, hlooked, hfinds, hkey⟩

theorem Finds.find (h : Finds fs path d x e) : fs.store.find x.key = some x :=
  Store.find_of_child h.object

theorem Finds.ne_root (h : Finds fs path d x e) : x.key ≠ root :=
  fs.store.objects.rootless x (Store.mem_of_find h.find)

theorem Finds.parent (h : Finds fs path d x e) : e.parent = d :=
  h.shows.parent.trans (fs.store.parent_of_mem_children (Store.mem_of_child h.object).1)

end Fs

end Bsdroid
