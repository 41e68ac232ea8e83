import Bsdroid.Cellphone.Names
import Bsdroid.Mtpfs.Caching
import Bsdroid.Mtpfs.Existence
import Bsdroid.Mtpfs.Sparing

/-!
# When a path is absent

A walk says that nothing is at a path in two cases: the tree holds the listing of a folder on the way
without the name, or the walk gave up.  It gives up after 64 listings, and at the first listing
that the device refuses.  The callbacks answer both with `ENOENT`, and a rename takes a name for free,
so a fault of the device reads as the absence of a file.

The way of a path is `Charted` when the listings on it are what the device holds and the names of each
folder on it are distinct, and `Passable` when the device gives the listings that are missing and they are
fewer than 64.  `Fs.never_invents_where_charted` says that a call is right about absence on such
ways, and that on charted ways it is right on no others.
-/

namespace Bsdroid

namespace Store

/-- An object of the device, or the root, is at the end of these names. -/
inductive At (s : Store) : UInt32 → List Str → UInt32 → Prop
  | here {q : UInt32} : At s q [] q
  | down {q k : UInt32} {x : Object} {part : Str} {parts : List Str} (hx : x ∈ s.children q)
      (hname : x.name = part) (hrest : At s x.key parts k) : At s q (part :: parts) k

/-- Each folder on the way of some names holds distinct names. -/
def DistinctOn (s : Store) (q : UInt32) (parts : List Str) : Prop :=
  ∀ r ∈ s.asked q parts, ((s.children r).map Node.name).Nodup

/-- With distinct names on the way a path leads to one object. -/
theorem walk_of_at {s : Store} {q k : UInt32} {parts : List Str} (hat : s.At q parts k)
    (hdistinct : s.DistinctOn q parts) : s.walk q parts = some k := by
  induction hat with
  | here => rfl
  | @down q k x part parts hx hname _ ih =>
      have hnodup := hdistinct q (by rw [asked]; exact List.mem_cons_self)
      have hchild : s.child q part = some x := by
        cases hfirst : s.child q part with
        | none => exact absurd hname (child_eq_none.mp hfirst x hx)
        | some y =>
            obtain ⟨hy, hname'⟩ := mem_of_child hfirst
            rw [List.inj_on_of_nodup_map hnodup hx hy (hname.trans hname'.symm)]
      rw [walk, hchild]
      apply ih
      intro r hr
      apply hdistinct r
      rw [asked, hchild]
      exact List.mem_cons_of_mem _ hr

/-- A walk comes to an object of the device. -/
theorem at_of_walk {s : Store} {q k : UInt32} {parts : List Str} (hparts : parts ≠ [])
    (hwalk : s.walk q parts = some k) : k ≠ root ∧ s.At q parts k := by
  induction parts generalizing q with
  | nil => exact absurd rfl hparts
  | cons part parts ih =>
      rw [walk] at hwalk
      cases hchild : s.child q part with
      | none =>
          rw [hchild] at hwalk
          cases hwalk
      | some x =>
          rw [hchild] at hwalk
          obtain ⟨hx, hname⟩ := mem_of_child hchild
          cases parts with
          | nil =>
              cases hwalk
              exact ⟨s.objects.rootless x (mem_of_find (find_of_child hchild)), .down hx hname .here⟩
          | cons next parts =>
              obtain ⟨hroot, hat⟩ := ih (List.cons_ne_nil _ _) hwalk
              exact ⟨hroot, .down hx hname hat⟩

end Store

namespace Fs

variable {fs fs' : Fs Phone} {path source target : Str} {n : Nat}

/-- The device holds no object at a path. -/
def Absent (fs : Fs Phone) (path : Str) : Prop :=
  ∀ k, k ≠ root → ¬ fs.store.At root (splitPath path) k

/-! ## The listings of a walk -/

/-- A walk read this many folders, and the device gave each listing. -/
inductive Reads (path : Str) : Nat → Fs Phone → Fs Phone → Prop
  | here {fs : Fs Phone} : Reads path 0 fs fs
  | folder {n : Nat} {fs fs' : Fs Phone} {q : UInt32} {es : List Entry} {m : Mtp Phone}
      (hneeds : fs.tree.lookup path = .needListing q) (hlist : Mtp.list q fs.mtp = (.ok es, m))
      (hrest : Reads path n { fs with mtp := m, tree := fs.tree.setChildren q es } fs') :
      Reads path (n + 1) fs fs'

/-- The device refuses a listing that the walk asks for. -/
def Faults (fs : Fs Phone) (path : Str) : Prop :=
  ∃ n fs' q e m, n < maxWalk ∧ Reads path n fs fs' ∧ fs'.tree.lookup path = .needListing q ∧
    Mtp.list q fs'.mtp = (.error e, m)

/-- The walk comes to a listing without the name, or reads as many folders as it may. -/
def Hides (fs : Fs Phone) (path : Str) : Prop :=
  (∃ n fs', n < maxWalk ∧ Reads path n fs fs' ∧ fs'.tree.lookup path = .notFound) ∨
    ∃ fs', Reads path maxWalk fs fs'

/-- How a walk with some rounds ends. -/
inductive Comes (path : Str) (rounds : Nat) (fs : Fs Phone) : Option UInt32 → Prop
  | found {n : Nat} {fs' : Fs Phone} {h : UInt32} (hn : n < rounds) (hreads : Reads path n fs fs')
      (hfound : fs'.tree.lookup path = .found h) : Comes path rounds fs (some h)
  | missing {n : Nat} {fs' : Fs Phone} (hn : n < rounds) (hreads : Reads path n fs fs')
      (hnone : fs'.tree.lookup path = .notFound) : Comes path rounds fs none
  | refused {n : Nat} {fs' : Fs Phone} {q : UInt32} {e : Error} {m : Mtp Phone} (hn : n < rounds)
      (hreads : Reads path n fs fs') (hneeds : fs'.tree.lookup path = .needListing q)
      (hlist : Mtp.list q fs'.mtp = (.error e, m)) : Comes path rounds fs none
  | tired {fs' : Fs Phone} (hreads : Reads path rounds fs fs') : Comes path rounds fs none

theorem resolveIn_comes {E : Type} (path : Str) (rounds : Nat) (fs : Fs Phone) :
    ∃ found fs', (resolveIn path rounds : Proc E (Fs Phone) _) fs = (.ok found, fs') ∧
      Comes path rounds fs found := by
  induction rounds generalizing fs with
  | zero => exact ⟨none, fs, rfl, .tired .here⟩
  | succ rounds ih =>
      rw [resolveIn, Proc.bind_ok (Proc.get_run _)]
      cases hlookup : fs.tree.lookup path with
      | found h => exact ⟨some h, fs, rfl, .found (Nat.succ_pos _) .here hlookup⟩
      | notFound => exact ⟨none, fs, rfl, .missing (Nat.succ_pos _) .here hlookup⟩
      | needListing q =>
          dsimp only
          rw [Proc.bind_ok (tryMtp_run _ _)]
          rcases hlist : Mtp.list q fs.mtp with ⟨e | es, m⟩
          · exact ⟨none, _, rfl, .refused (Nat.succ_pos _) .here hlookup hlist⟩
          · obtain ⟨found, fs', hrun, hcomes⟩ :=
              ih { fs with mtp := m, tree := fs.tree.setChildren q es }
            refine ⟨found, fs', ?_, ?_⟩
            · dsimp only
              rw [Proc.bind_ok (setChildren_run _ _ _)]
              exact hrun
            · cases hcomes with
              | found hn hreads hfound =>
                  exact .found (Nat.succ_lt_succ hn) (.folder hlookup hlist hreads) hfound
              | missing hn hreads hnone =>
                  exact .missing (Nat.succ_lt_succ hn) (.folder hlookup hlist hreads) hnone
              | refused hn hreads hneeds hrefused =>
                  exact .refused (Nat.succ_lt_succ hn) (.folder hlookup hlist hreads) hneeds hrefused
              | tired hreads => exact .tired (.folder hlookup hlist hreads)

/-- Two walks that read folders read the same ones. -/
theorem Reads.unique {k : Nat} {fs₁ fs₂ : Fs Phone} (h₁ : Reads path n fs fs₁)
    (h₂ : Reads path (n + k) fs fs₂) : Reads path k fs₁ fs₂ := by
  induction h₁ with
  | here =>
      rw [Nat.zero_add] at h₂
      exact h₂
  | @folder n fs fs₁ q es m hneeds hlist _ ih =>
      rw [Nat.add_right_comm] at h₂
      cases h₂ with
      | folder hneeds' hlist' hrest =>
          cases hneeds.symm.trans hneeds'
          cases hlist.symm.trans hlist'
          exact ih hrest

/-- A walk that can read no further folder read them all. -/
theorem Reads.ends {k : Nat} {fs₁ fs₂ : Fs Phone} (h₁ : Reads path n fs fs₁)
    (hends : ∀ q, fs₁.tree.lookup path = .needListing q → ∀ es m, Mtp.list q fs₁.mtp ≠ (.ok es, m))
    (h₂ : Reads path k fs fs₂) : k ≤ n := by
  by_contra hmore
  obtain ⟨more, rfl⟩ : ∃ more, k = n + (more + 1) := ⟨k - n - 1, by omega⟩
  have hrest := h₁.unique h₂
  cases hrest with
  | folder hneeds hlist _ => exact hends _ hneeds _ _ hlist

/-- The walk reads no folder after these. -/
def Rests (path : Str) (fs : Fs Phone) : Prop :=
  ∀ q, fs.tree.lookup path = .needListing q → ∀ es m, Mtp.list q fs.mtp ≠ (.ok es, m)

theorem rests_of_lookup (hlookup : ∀ q, fs.tree.lookup path ≠ .needListing q) : Rests path fs :=
  fun q hneeds => absurd hneeds (hlookup q)

theorem rests_of_refused {q : UInt32} {e : Error} {m : Mtp Phone}
    (hneeds : fs.tree.lookup path = .needListing q) (hlist : Mtp.list q fs.mtp = (.error e, m)) :
    Rests path fs := by
  intro q' hneeds' es m' hok
  cases hneeds.symm.trans hneeds'
  cases hlist.symm.trans hok

/-- Two walks that rest end in one state. -/
theorem Reads.same {k : Nat} {fs₁ fs₂ : Fs Phone} (h₁ : Reads path n fs fs₁)
    (h₂ : Reads path k fs fs₂) (hrests₁ : Rests path fs₁) (hrests₂ : Rests path fs₂) :
    fs₁ = fs₂ := by
  obtain rfl := Nat.le_antisymm (h₂.ends hrests₂ h₁) (h₁.ends hrests₁ h₂)
  cases h₁.unique (k := 0) h₂
  rfl

/-- What a walk finds was neither refused nor hidden. -/
theorem seen_of_found {fs₁ : Fs Phone} {h : UInt32} (hn : n < maxWalk) (hreads : Reads path n fs fs₁)
    (hfound : fs₁.tree.lookup path = .found h) : ¬ Faults fs path ∧ ¬ Hides fs path := by
  have hrests : Rests path fs₁ := by
    apply rests_of_lookup
    intro q hneeds
    cases hfound.symm.trans hneeds
  refine ⟨?_, ?_⟩
  · intro hfaults
    obtain ⟨k, fs₂, q, e, m, -, hreads₂, hneeds, hlist⟩ := hfaults
    cases hreads.same hreads₂ hrests (rests_of_refused hneeds hlist)
    cases hfound.symm.trans hneeds
  · intro hhides
    rcases hhides with ⟨k, fs₂, -, hreads₂, hnone⟩ | ⟨fs₂, hreads₂⟩
    · have hrests₂ : Rests path fs₂ := by
        apply rests_of_lookup
        intro q hneeds
        cases hnone.symm.trans hneeds
      cases hreads.same hreads₂ hrests hrests₂
      cases hfound.symm.trans hnone
    · exact Nat.not_lt_of_le (hreads.ends hrests hreads₂) hn

/-- **A walk finds nothing** exactly when the device refuses a listing on its way, or the tree hides
the name. -/
theorem resolve_ends {E : Type} (path : Str) (fs : Fs Phone) :
    (∃ h fs', (resolve path : Proc E (Fs Phone) _) fs = (.ok (some h), fs') ∧
        ¬ Faults fs path ∧ ¬ Hides fs path) ∨
      ∃ fs', (resolve path : Proc E (Fs Phone) _) fs = (.ok none, fs') ∧
        (Faults fs path ∨ Hides fs path) := by
  obtain ⟨found, fs', hrun, hcomes⟩ := resolveIn_comes (E := E) path maxWalk fs
  cases hcomes with
  | found hn hreads hfound => exact .inl ⟨_, fs', hrun, seen_of_found hn hreads hfound⟩
  | missing hn hreads hnone => exact .inr ⟨fs', hrun, .inr (.inl ⟨_, _, hn, hreads, hnone⟩)⟩
  | refused hn hreads hneeds hlist =>
      exact .inr ⟨fs', hrun, .inl ⟨_, _, _, _, _, hn, hreads, hneeds, hlist⟩⟩
  | tired hreads => exact .inr ⟨fs', hrun, .inr (.inr ⟨_, hreads⟩)⟩

theorem resolved_ends (path : Str) (fs : Fs Phone) :
    (∃ h fs', resolved path fs = (.ok h, fs') ∧ ¬ Faults fs path ∧ ¬ Hides fs path) ∨
      ∃ fs', resolved path fs = (.error (-Libc.ENOENT), fs') ∧
        (Faults fs path ∨ Hides fs path) := by
  rcases resolve_ends (E := Int) path fs with ⟨h, fs', hrun, hseen⟩ | ⟨fs', hrun, hlost⟩
  · exact .inl ⟨h, fs', Proc.bind_ok hrun, hseen⟩
  · exact .inr ⟨fs', Proc.bind_ok hrun, hlost⟩

/-! ## A tree that shows what the device holds -/

/-- A walk that comes to its end read the whole way, and finds what the device has there. -/
theorem names_of_found (hshown : Shown fs path) {k : UInt32}
    (hfound : fs.tree.lookup path = .found k) : fs.names path = some k ∧ fs.unread path = [] := by
  rw [Tree.lookup, hshown.lookupFrom] at hfound
  cases hfind : (fs.store.asked root (splitPath path)).find? fun r => !fs.tree.listed r with
  | some r =>
      rw [hfind] at hfound
      cases hfound
  | none =>
      rw [hfind] at hfound
      have hread : fs.unread path = [] :=
        List.filter_eq_nil_iff.mpr fun r hr => List.find?_eq_none.mp hfind r hr
      refine ⟨?_, hread⟩
      rw [names]
      cases hwalk : fs.store.walk root (splitPath path) with
      | none =>
          rw [hwalk] at hfound
          cases hfound
      | some h =>
          rw [hwalk] at hfound
          cases hfound
          rfl

theorem names_of_notFound (hshown : Shown fs path) (hnone : fs.tree.lookup path = .notFound) :
    fs.names path = none := by
  rw [Tree.lookup, hshown.lookupFrom] at hnone
  rw [names]
  cases hfind : (fs.store.asked root (splitPath path)).find? fun r => !fs.tree.listed r with
  | some r =>
      rw [hfind] at hnone
      cases hnone
  | none =>
      rw [hfind] at hnone
      cases hwalk : fs.store.walk root (splitPath path) with
      | none => rfl
      | some h =>
          rw [hwalk] at hnone
          cases hnone

/-- Each folder that a walk reads was unread. -/
theorem unread_of_needs (hshown : Shown fs path) {q : UInt32}
    (hneeds : fs.tree.lookup path = .needListing q) : q ∈ fs.unread path := by
  rw [Tree.lookup, hshown.lookupFrom] at hneeds
  cases hfind : (fs.store.asked root (splitPath path)).find? fun r => !fs.tree.listed r with
  | none =>
      rw [hfind] at hneeds
      cases hwalk : fs.store.walk root (splitPath path) with
      | none =>
          rw [hwalk] at hneeds
          cases hneeds
      | some k =>
          rw [hwalk] at hneeds
          cases hneeds
  | some r =>
      rw [hfind] at hneeds
      cases hneeds
      have hunlisted := List.find?_some hfind
      exact List.mem_filter.mpr ⟨List.mem_of_find?_eq_some hfind, hunlisted⟩

/-- What a walk reads keeps the way shown, and leaves as many folders fewer unread. -/
theorem Reads.shown (hreads : Reads path n fs fs') (hshown : Shown fs path) :
    Looked fs fs' ∧ (fs.unread path).length = (fs'.unread path).length + n := by
  induction hreads with
  | here => exact ⟨.refl _, rfl⟩
  | @folder n fs fs' q es m hneeds hlist _ ih =>
      have hmem := unread_of_needs hshown hneeds
      have hq := Store.lists_of_asked (.inl rfl) (List.mem_filter.mp hmem).1
      have hlooked := looked_of_list hq hlist
      obtain ⟨hlast, hcount⟩ := ih (hlooked.keeps_shown hshown)
      have hlisted : ∀ r, (fs.tree.setChildren q es).listed r =
          if r = q then true else fs.tree.listed r := by
        intro r
        rw [Tree.setChildren]
        exact Function.update_apply ..
      have hless : (fs.unread path).length = (unread _ path).length + 1 :=
        unread_read hlooked.store hlisted hmem
      refine ⟨hlooked.trans hlast, ?_⟩
      rw [hless, hcount, Nat.add_assoc]

/-- **A walk of a shown way** that the device refuses no listing finds what the device has at the
path, unless as many folders are unread as a walk reads. -/
theorem resolve_listed {E : Type} (hshown : Shown fs path) (hlisted : ¬ Faults fs path) :
    ∃ fs', (resolve path : Proc E (Fs Phone) _) fs = (.ok (fs.hit path), fs') := by
  obtain ⟨found, fs', hrun, hcomes⟩ := resolveIn_comes (E := E) path maxWalk fs
  suffices hsame : found = fs.hit path from ⟨fs', hsame ▸ hrun⟩
  rw [hit]
  cases hcomes with
  | found hn hreads hfound =>
      obtain ⟨hlooked, hcount⟩ := hreads.shown hshown
      obtain ⟨hnames, hread⟩ := names_of_found (hlooked.keeps_shown hshown) hfound
      rw [hread, List.length_nil, Nat.zero_add] at hcount
      rw [hcount, if_pos hn, ← hlooked.names, hnames]
  | missing hn hreads hnone =>
      obtain ⟨hlooked, -⟩ := hreads.shown hshown
      rw [← hlooked.names, names_of_notFound (hlooked.keeps_shown hshown) hnone, ite_self]
  | refused hn hreads hneeds hlist => exact absurd ⟨_, _, _, _, _, hn, hreads, hneeds, hlist⟩ hlisted
  | tired hreads =>
      obtain ⟨-, hcount⟩ := hreads.shown hshown
      rw [if_neg]
      omega

theorem hides_iff_miss (hshown : Shown fs path) (hlisted : ¬ Faults fs path) :
    Hides fs path ↔ fs.hit path = none := by
  obtain ⟨fs', hrun⟩ := resolve_listed (E := Int) hshown hlisted
  rcases resolve_ends (E := Int) path fs with ⟨h, fs₁, hrun', -, hseen⟩ | ⟨fs₁, hrun', hends⟩
  · have hhit : fs.hit path = some h :=
      Except.ok.inj (congrArg Prod.fst (hrun.symm.trans hrun'))
    refine ⟨fun hhides => absurd hhides hseen, fun hmiss => ?_⟩
    cases hhit.symm.trans hmiss
  · have hmiss : fs.hit path = none :=
      Except.ok.inj (congrArg Prod.fst (hrun.symm.trans hrun'))
    exact ⟨fun _ => hmiss, fun _ => hends.resolve_left hlisted⟩

/-- The listings on the way of a path are what the device holds, as far as they were read, and no
two objects of a folder on the way have one name. -/
structure Charted (fs : Fs Phone) (path : Str) : Prop where
  shown : Shown fs path
  distinct : fs.store.DistinctOn root (splitPath path)

/-- The device gives each listing that a walk asks for, and where it has an object at the path, fewer
folders on the way are unread than a walk reads. -/
structure Passable (fs : Fs Phone) (path : Str) : Prop where
  listed : ¬ Faults fs path
  near : (fs.names path).isSome → (fs.unread path).length < maxWalk

/-- A device that answers refuses no listing. -/
theorem not_faults_of_answers (h : SeesWay fs path) : ¬ Faults fs path := by
  intro hfaults
  obtain ⟨n, fs', q, e, m, -, hreads, hneeds, hlist⟩ := hfaults
  obtain ⟨hlooked, -⟩ := hreads.shown h.shown
  have hway := hlooked.way h
  have hunread := unread_of_needs hway.shown hneeds
  have hq := Store.lists_of_asked (.inl rfl) (List.mem_filter.mp hunread).1
  obtain ⟨es, m', hok⟩ := lists_of_answers hway.answers (.refl _) hq
  cases hlist.symm.trans hok

/-- On a charted way a walk hides an object exactly when too many folders are unread. -/
theorem near_iff (hcharted : Charted fs path) (hlisted : ¬ Faults fs path) :
    (Hides fs path → Absent fs path) ↔
      ((fs.names path).isSome → (fs.unread path).length < maxWalk) := by
  rw [hides_iff_miss hcharted.shown hlisted, hit]
  constructor
  · intro habsent hthere
    obtain ⟨k, hk⟩ := Option.isSome_iff_exists.mp hthere
    by_contra hfar
    rw [if_neg hfar] at habsent
    -- A path of no parts has no folder on its way.
    have hparts : splitPath path ≠ [] := by
      intro hnil
      rw [unread, hnil] at hfar
      have hpos : 0 < maxWalk := by decide
      exact hfar hpos
    obtain ⟨hroot, hat⟩ := Store.at_of_walk hparts hk
    exact habsent rfl k hroot hat
  · intro hnear hmiss k hroot hat
    have hwalk : fs.names path = some k := Store.walk_of_at hat hcharted.distinct
    rw [if_pos (hnear (by rw [hwalk]; rfl)), hwalk] at hmiss
    cases hmiss

/-! ## The calls that walk once -/

/-- A call that walks to one path never invents absence: it says that nothing is there only when nothing
is, and a fault of a listing reads as another error. -/
structure Truthful (fs : Fs Phone) (path : Str) (answer : Except Int Int) : Prop where
  absent : answer = .error (-Libc.ENOENT) → Absent fs path
  faults : Faults fs path → ∃ rc, answer = .error rc ∧ rc ≠ -Libc.ENOENT

/-- The device gives each listing of the walk, and the walk hides nothing that is there. -/
structure Unhidden (fs : Fs Phone) (path : Str) : Prop where
  listed : ¬ Faults fs path
  seen : Hides fs path → Absent fs path

/-- On a charted way that is just the passable one. -/
theorem unhidden_iff_passable (hcharted : Charted fs path) :
    Unhidden fs path ↔ Passable fs path := by
  constructor
  · intro h
    exact ⟨h.listed, (near_iff hcharted h.listed).mp h.seen⟩
  · intro h
    exact ⟨h.listed, (near_iff hcharted h.listed).mpr h.near⟩

/-- A call that answers `ENOENT` exactly when its walk finds nothing. -/
theorem truthful_iff_unhidden {answer : Except Int Int}
    (hlost : ∀ fs', resolved path fs = (.error (-Libc.ENOENT), fs') →
      answer = .error (-Libc.ENOENT))
    (hfound : ∀ h fs', resolved path fs = (.ok h, fs') → answer ≠ .error (-Libc.ENOENT)) :
    Truthful fs path answer ↔ Unhidden fs path := by
  rcases resolved_ends path fs with ⟨h, fs', hrun, hlisted, hshown⟩ | ⟨fs', hrun, hends⟩
  · have hanswer := hfound h fs' hrun
    constructor
    · intro _
      exact ⟨hlisted, fun hhides => absurd hhides hshown⟩
    · intro _
      exact ⟨fun hnoent => absurd hnoent hanswer, fun hfaults => absurd hfaults hlisted⟩
  · have hanswer := hlost fs' hrun
    constructor
    · intro htrue
      refine ⟨fun hfaults => ?_, fun _ => htrue.absent hanswer⟩
      obtain ⟨rc, hrc, hne⟩ := htrue.faults hfaults
      cases hanswer.symm.trans hrc
      exact hne rfl
    · intro hunhidden
      refine ⟨fun _ => ?_, fun hfaults => absurd hfaults hunhidden.listed⟩
      exact hunhidden.seen (hends.resolve_left hunhidden.listed)

/-! ### What follows the walk -/

theorem copyFrom_present (handle : UInt32) (size spool rounds pos : Nat) :
    Present (copyFrom handle size spool rounds pos) := by
  induction rounds generalizing pos with
  | zero => exact .pure _
  | succ rounds ih =>
      rw [copyFrom]
      split
      · refine .bind (.tryMtp _) fun answer => ?_
        split
        · exact .fail (by decide)
        · split
          · exact .pure _
          · refine .bind .get fun fs => ?_
            split
            · exact .bind (fun _ _ => trivial) fun _ => .fail (by decide)
            · exact .bind (fun _ _ => trivial) fun _ => ih _
      · exact .pure _

theorem adoptForWrite_present (path : Str) (handle : UInt32) (entry : Entry) (keep : Bool) :
    Present (adoptForWrite path handle entry keep) := by
  have hroom : Present (checkRoom entry.size keep) := by
    refine .bind .get fun fs => ?_
    split
    · split
      · split
        · exact .fail (by decide)
        · exact .pure _
      · exact .pure _
    · exact .pure _
  have hspool : Present makeSpool := by
    refine .bind (fun _ _ => trivial) fun n => .bind .get fun fs => ?_
    split
    · exact .bind (fun _ _ => trivial) fun _ => .pure _
    · exact .fail (by decide)
  refine .bind hroom fun _ => .bind hspool fun spool => ?_
  have hlast : ∀ size, Present (insertPending path (adopted handle entry spool size)) := by
    intro size fs _
    rw [insertPending_run]
    exact trivial
  split
  · exact .bind (copyFrom_present _ _ _ _ _) hlast
  · exact .bind (.pure _) hlast

/-- The answer of a callback, as a number. -/
theorem number_ne {α : Type} {x : Proc Int (Fs Phone) α} {a : α → Int} {rc : Int}
    (hx : (x fs).1 ≠ .error rc) :
    ((do let b ← x; pure (a b) : Proc Int (Fs Phone) Int) fs).1 ≠ .error rc := by
  rw [Proc.bind_run]
  rcases hrun : x fs with ⟨rc' | b, fs₁⟩
  · rw [hrun] at hx
    intro hsame
    cases hsame
    exact hx rfl
  · intro hsame
    cases hsame

theorem truthful_getattr (hknows : KnowsKinds fs) (hp : fs.pending path = none) :
    Truthful fs path ((Call.getattr path).number fs).1 ↔ Unhidden fs path := by
  have hrest : ∀ h fs', resolved path fs = (.ok h, fs') → ∃ st fs₁, opGetattr path fs = (.ok st, fs₁) := by
    intro h fs' hrun
    rw [opGetattr, Proc.bind_ok (Proc.get_run _), hp]
    dsimp only
    rw [Proc.bind_ok hrun, Proc.bind_ok (Proc.get_run _)]
    by_cases hroot : h = root
    · rw [if_pos hroot]
      exact ⟨_, fs', rfl⟩
    · obtain ⟨e, he⟩ := (entry_of_resolved hknows hrun).resolve_left hroot
      rw [if_neg hroot, he]
      dsimp only
      by_cases hdir : e.isDir = true
      · rw [if_pos hdir]
        exact ⟨_, fs', rfl⟩
      · rw [if_neg hdir]
        exact ⟨_, fs', rfl⟩
  apply truthful_iff_unhidden
  · intro fs' hrun
    have hlost : opGetattr path fs = (.error (-Libc.ENOENT), fs') := by
      rw [opGetattr, Proc.bind_ok (Proc.get_run _), hp]
      exact Proc.bind_error hrun
    exact congrArg Prod.fst (Proc.bind_error hlost)
  · intro h fs' hrun
    obtain ⟨st, fs₁, hok⟩ := hrest h fs' hrun
    have hanswer : (Call.getattr path).number fs = (.ok 0, fs₁) := Proc.bind_ok hok
    rw [hanswer]
    intro hsame
    cases hsame

theorem truthful_opens (flags : Nat) :
    Truthful fs path ((Call.opens path flags).number fs).1 ↔ Unhidden fs path := by
  apply truthful_iff_unhidden
  · intro fs' hrun
    have hlost : opOpen path flags fs = (.error (-Libc.ENOENT), fs') := Proc.bind_error hrun
    exact congrArg Prod.fst (Proc.bind_error hlost)
  · intro h fs' hrun
    refine number_ne ?_
    rw [opOpen, Proc.bind_ok hrun]
    refine Present.ne (.bind .get fun fs => ?_) fs'
    split
    · split
      · exact .fail (by decide)
      · dsimp only
        split
        · exact .bind (adoptForWrite_present _ _ _ _) fun _ => .pure _
        · exact .pure _
    · exact .fail (by decide)

theorem truthful_readdir : Truthful fs path ((Call.readdir path).number fs).1 ↔ Unhidden fs path := by
  apply truthful_iff_unhidden
  · intro fs' hrun
    have hlost : opReaddir path fs = (.error (-Libc.ENOENT), fs') := Proc.bind_error hrun
    exact congrArg Prod.fst (Proc.bind_error hlost)
  · intro h fs' hrun
    refine number_ne ?_
    rw [opReaddir, Proc.bind_ok hrun]
    have hnames : Present (namesOf h : Proc Int (Fs Phone) (List Str)) := by
      refine .bind .get fun fs => ?_
      split
      · exact .pure _
      · exact .fail (by decide)
    refine Present.ne (.bind .get fun fs => ?_) fs'
    split
    · exact hnames
    · refine .bind (.tryMtp _) fun answer => ?_
      split
      · exact .bind (fun _ _ => trivial) fun _ => hnames
      · exact .bind (.fail (by decide)) fun _ => hnames

theorem removeObject_found (hknows : KnowsKinds fs) {h : UInt32} (wantDir : Bool)
    (hrun : resolved path fs = (.ok h, fs')) :
    (removeObject path wantDir fs).1 ≠ .error (-Libc.ENOENT) := by
  rw [removeObject, Proc.bind_ok hrun]
  by_cases hroot : h = root
  · rw [if_pos hroot]
    intro hsame
    cases hsame
  · obtain ⟨e, he⟩ := (entry_of_resolved hknows hrun).resolve_left hroot
    rw [if_neg hroot, Proc.bind_ok (Proc.get_run _), he]
    refine Present.ne ?_ fs'
    dsimp only
    split
    · cases wantDir with
      | false => exact .fail (by decide)
      | true => exact .fail (by decide)
    · refine .bind (.tryMtp _) fun answer => ?_
      split
      · exact .bind (.forgetListing _) fun _ => .pure _
      · exact .fail (by decide)

theorem truthful_removeObject (hknows : KnowsKinds fs) (wantDir : Bool) :
    Truthful fs path (removeObject path wantDir fs).1 ↔ Unhidden fs path := by
  apply truthful_iff_unhidden
  · intro fs' hrun
    exact congrArg Prod.fst (Proc.bind_error hrun)
  · intro h fs' hrun
    exact removeObject_found hknows wantDir hrun

/-- The device refuses the listing of the folder at a path. -/
def UnlistedAt (fs : Fs Phone) (path : Str) : Prop :=
  ∃ h fs' e m, resolved path fs = (.ok h, fs') ∧ fs'.tree.isListed h = false ∧
    Mtp.list h fs'.mtp = (.error e, m)

theorem readdir_unlisted (hunlisted : UnlistedAt fs path) :
    ((Call.readdir path).number fs).1 = .error (-Libc.EIO) := by
  obtain ⟨h, fs', e, m, hrun, hread, hlist⟩ := hunlisted
  have hfails : opReaddir path fs = (.error (-Libc.EIO), { fs' with mtp := m }) := by
    rw [opReaddir, Proc.bind_ok hrun, Proc.bind_ok (Proc.get_run _), hread,
      if_neg Bool.false_ne_true, Proc.bind_ok (tryMtp_run _ _), hlist]
    rfl
  exact congrArg Prod.fst (Proc.bind_error hfails)

/-! ## A rename -/

/-- The first three walks of a rename: to the object, to its folder, and to the new folder. -/
inductive RenameWalk (fs : Fs Phone) (source target : Str) : Str → Fs Phone → Prop
  | source : RenameWalk fs source target source fs
  | oldDir {handle : UInt32} {fs₁ : Fs Phone} (hsource : resolved source fs = (.ok handle, fs₁))
      (hroot : handle ≠ root) (hname : (splitParent target).2 ≠ []) :
      RenameWalk fs source target (splitParent source).1 fs₁
  | newDir {handle o : UInt32} {fs₁ fs₂ : Fs Phone} (hsource : resolved source fs = (.ok handle, fs₁))
      (hroot : handle ≠ root) (hname : (splitParent target).2 ≠ [])
      (hold : resolved (splitParent source).1 fs₁ = (.ok o, fs₂)) :
      RenameWalk fs source target (splitParent target).1 fs₂

/-- The state in which a rename looks at its new name. -/
structure Approaches (fs : Fs Phone) (source target : Str) (handle d : UInt32) (fs' : Fs Phone) :
    Prop where
  object : handle ≠ root
  named : (splitParent target).2 ≠ []
  walks : ∃ o fs₁ fs₂, resolved source fs = (.ok handle, fs₁) ∧
    resolved (splitParent source).1 fs₁ = (.ok o, fs₂) ∧
    resolved (splitParent target).1 fs₂ = (.ok d, fs')

/-- A rename never invents absence: it does not find its source only when nothing is there, it takes the
new name for free only when nothing has it, and a fault of a listing reads as another error. -/
structure RenameTruthful (fs : Fs Phone) (source target : Str) : Prop where
  absent : (opRename source target fs).1 = .error (-Libc.ENOENT) →
    (∀ h fs₁, resolved source fs ≠ (.ok h, fs₁)) → Absent fs source
  faults : ∀ path fs', RenameWalk fs source target path fs' → Faults fs' path →
    ∃ rc, (opRename source target fs).1 = .error rc ∧ rc ≠ -Libc.ENOENT
  onto : ∀ handle d fs', Approaches fs source target handle d fs' → Faults fs' target →
    ∃ rc fs₁, clearTarget target (splitParent target).2 handle d fs' = (.error rc, fs₁) ∧
      rc ≠ -Libc.ENOENT
  free : ∀ handle d fs', Approaches fs source target handle d fs' →
    ∀ fs₁, clearTarget target (splitParent target).2 handle d fs' = (.ok (some none), fs₁) →
      Absent fs' target

/-- The device gives each listing of the walks of a rename, and they hide neither its source nor
what has its new name. -/
structure RenameUnhidden (fs : Fs Phone) (source target : Str) : Prop where
  listed : ∀ path fs', RenameWalk fs source target path fs' → ¬ Faults fs' path
  seen : Hides fs source → Absent fs source
  onto : ∀ handle d fs', Approaches fs source target handle d fs' → Unhidden fs' target

/-- A walk of a rename that finds nothing ends it. -/
theorem RenameWalk.lost {fs₁ : Fs Phone} (hwalk : RenameWalk fs source target path fs')
    (hrun : resolved path fs' = (.error (-Libc.ENOENT), fs₁)) :
    (opRename source target fs).1 = .error (-Libc.ENOENT) := by
  cases hwalk with
  | source => rw [opRename, Proc.bind_error hrun]
  | oldDir hsource hroot hname =>
      have hnamed : ¬ (splitParent target).2.isEmpty := fun hnil => hname (List.isEmpty_iff.mp hnil)
      rw [opRename, Proc.bind_ok hsource, if_neg hroot]
      dsimp only
      rw [if_neg hnamed, Proc.bind_error hrun]
  | newDir hsource hroot hname hold =>
      have hnamed : ¬ (splitParent target).2.isEmpty := fun hnil => hname (List.isEmpty_iff.mp hnil)
      rw [opRename, Proc.bind_ok hsource, if_neg hroot]
      dsimp only
      rw [if_neg hnamed, Proc.bind_ok hold, Proc.bind_error hrun]

/-- A rename takes the new name for free exactly when its walk finds nothing. -/
theorem clearTarget_free_iff (target newName : Str) (handle d : UInt32) (fs : Fs Phone) :
    (∃ fs₁, clearTarget target newName handle d fs = (.ok (some none), fs₁)) ↔
      ∃ fs₁, (resolve target : Proc Int (Fs Phone) _) fs = (.ok none, fs₁) := by
  constructor
  · intro hfree
    obtain ⟨fs₁, hrun⟩ := hfree
    rw [clearTarget] at hrun
    obtain ⟨found, fs₂, htarget, hrun⟩ := Proc.bind_eq_ok hrun
    cases found with
    | none => exact ⟨fs₂, htarget⟩
    | some t =>
        dsimp only at hrun
        by_cases hself : t = handle
        · rw [if_pos hself] at hrun
          cases hrun
        · rw [if_neg hself] at hrun
          by_cases hroot : t = root
          · rw [if_pos hroot] at hrun
            cases hrun
          · rw [if_neg hroot, Proc.bind_ok asideName_run, Proc.bind_ok (tryMtp_run _ _)] at hrun
            rcases hrename : Mtp.renameObject t (asideOf newName fs₂.spoolCount) fs₂.mtp
              with ⟨e | ⟨⟩, m⟩
            · rw [hrename] at hrun
              cases hrun
            · rw [hrename] at hrun
              cases hrun
  · intro hlost
    obtain ⟨fs₁, hrun⟩ := hlost
    exact ⟨fs₁, by rw [clearTarget, Proc.bind_ok hrun]; rfl⟩

theorem renameTruthful_iff : RenameTruthful fs source target ↔ RenameUnhidden fs source target := by
  constructor
  · intro htrue
    refine ⟨?_, ?_, ?_⟩
    · intro path fs' hwalk hfaults
      rcases resolved_ends path fs' with ⟨h, fs₁, -, hlisted, -⟩ | ⟨fs₁, hrun, -⟩
      · exact hlisted hfaults
      · obtain ⟨rc, hrc, hne⟩ := htrue.faults path fs' hwalk hfaults
        cases (hwalk.lost hrun).symm.trans hrc
        exact hne rfl
    · intro hhides
      rcases resolved_ends source fs with ⟨h, fs₁, -, -, hshown⟩ | ⟨fs₁, hrun, -⟩
      · exact absurd hhides hshown
      · apply htrue.absent (RenameWalk.source.lost hrun)
        intro h fs₂ hfound
        cases hrun.symm.trans hfound
    · intro handle d fs' happroaches
      rcases resolve_ends (E := Int) target fs' with ⟨h, fs₁, -, hlisted, hshown⟩ | ⟨fs₁, hrun, -⟩
      · exact ⟨hlisted, fun hhides => absurd hhides hshown⟩
      · obtain ⟨fs₂, hfree⟩ :=
          (clearTarget_free_iff target (splitParent target).2 handle d fs').mpr ⟨fs₁, hrun⟩
        refine ⟨fun hfaults => ?_, fun _ => htrue.free handle d fs' happroaches fs₂ hfree⟩
        obtain ⟨rc, fs₃, herror, -⟩ := htrue.onto handle d fs' happroaches hfaults
        cases hfree.symm.trans herror
  · intro hunhidden
    refine ⟨?_, ?_, ?_, ?_⟩
    · intro _ hunfound
      rcases resolved_ends source fs with ⟨h, fs₁, hrun, -⟩ | ⟨fs₁, -, hends⟩
      · exact absurd hrun (hunfound h fs₁)
      · exact hunhidden.seen (hends.resolve_left (hunhidden.listed source fs .source))
    · intro path fs' hwalk hfaults
      exact absurd hfaults (hunhidden.listed path fs' hwalk)
    · intro handle d fs' happroaches hfaults
      exact absurd hfaults (hunhidden.onto handle d fs' happroaches).listed
    · intro handle d fs' happroaches fs₁ hfree
      have hsees := hunhidden.onto handle d fs' happroaches
      obtain ⟨fs₂, hlost⟩ := (clearTarget_free_iff _ _ _ _ _).mp ⟨fs₁, hfree⟩
      rcases resolve_ends (E := Int) target fs' with ⟨h, fs₃, hrun, -⟩ | ⟨fs₃, -, hends⟩
      · cases hlost.symm.trans hrun
      · exact hsees.seen (hends.resolve_left hsees.listed)

/-- The tree shows the ways that a rename walks, and the names on the ways to its object and to its
new path are distinct. -/
structure ChartedRename (fs : Fs Phone) (source target : Str) : Prop where
  shows : ShowsRename fs source target
  atSource : fs.store.DistinctOn root (splitPath source)
  atTarget : fs.store.DistinctOn root (splitPath target)

/-- The device gives each listing that the walks of a rename ask for, and where it has an object at
the path, fewer folders on the way are unread than a walk reads. -/
structure PassableRename (fs : Fs Phone) (source target : Str) : Prop where
  listed : ∀ path fs', RenameWalk fs source target path fs' → ¬ Faults fs' path
  onto : ∀ handle d fs', Approaches fs source target handle d fs' → ¬ Faults fs' target
  near : (fs.names source).isSome → (fs.unread source).length < maxWalk

/-- Below a folder whose way was read at most one more folder is unread. -/
theorem unread_le_one
    (hread : ∀ r ∈ fs.store.asked root (splitPath (splitParent path).1), fs.tree.listed r = true) :
    (fs.unread path).length ≤ 1 := by
  rw [unread, splitPath_split, Store.asked_append, List.filter_append,
    List.filter_eq_nil_iff.mpr fun r hr => by rw [hread r hr]; decide, List.nil_append]
  refine (List.length_filter_le _ _).trans ?_
  cases fs.store.walk root (splitPath (splitParent path).1) with
  | none => exact Nat.zero_le _
  | some d => exact (Store.length_asked_le _).trans (length_splitPath_name path)

/-- A rename that comes to its new name read the way of the new folder. -/
theorem Approaches.passes {handle d : UInt32} (hcharted : ChartedRename fs source target)
    (happroaches : Approaches fs source target handle d fs') :
    Charted fs' target ∧ (fs'.unread target).length < maxWalk := by
  obtain ⟨o, fs₁, fs₂, hsource, hold, hnew⟩ := happroaches.walks
  obtain ⟨h₁, -⟩ := looked_of_resolved hcharted.shows.atSource hsource
  obtain ⟨h₂, -⟩ := looked_of_resolved (h₁.keeps_shown hcharted.shows.oldDir) hold
  have h₁₂ := h₁.trans h₂
  obtain ⟨h₃, -, hread⟩ := looked_of_resolved (h₁₂.keeps_shown hcharted.shows.newDir) hnew
  have h₁₃ := h₁₂.trans h₃
  refine ⟨⟨h₁₃.keeps_shown hcharted.shows.atTarget, h₁₃.store ▸ hcharted.atTarget⟩, ?_⟩
  rw [← h₃.store] at hread
  exact Nat.lt_of_le_of_lt (unread_le_one hread) (by decide)

theorem renameUnhidden_iff_passable (hcharted : ChartedRename fs source target) :
    RenameUnhidden fs source target ↔ PassableRename fs source target := by
  have hsource : Charted fs source := ⟨hcharted.shows.atSource, hcharted.atSource⟩
  constructor
  · intro h
    refine ⟨h.listed, fun handle d fs' happroaches => (h.onto handle d fs' happroaches).listed, ?_⟩
    exact (near_iff hsource (h.listed source fs .source)).mp h.seen
  · intro h
    refine ⟨h.listed, (near_iff hsource (h.listed source fs .source)).mpr h.near, ?_⟩
    intro handle d fs' happroaches
    obtain ⟨htarget, hnear⟩ := happroaches.passes hcharted
    exact (unhidden_iff_passable htarget).mpr
      ⟨h.onto handle d fs' happroaches, fun _ => hnear⟩

/-! ## Every call -/

/-- A call never invents absence. -/
def NeverInvents (fs : Fs Phone) : Call → Prop
  | .getattr path => fs.pending path = none → Truthful fs path ((Call.getattr path).number fs).1
  | .opens path flags => Truthful fs path ((Call.opens path flags).number fs).1
  | .readdir path => Truthful fs path ((Call.readdir path).number fs).1 ∧
      (UnlistedAt fs path → ∃ rc, ((Call.readdir path).number fs).1 = .error rc ∧
        rc ≠ -Libc.ENOENT)
  | .unlink path => Truthful fs path ((Call.unlink path).number fs).1
  | .rmdir path => Truthful fs path ((Call.rmdir path).number fs).1
  | .rename source target => RenameTruthful fs source target
  | _ => True

/-- A property of the ways that a call walks. -/
def OnWays (one : Fs Phone → Str → Prop) (both : Fs Phone → Str → Str → Prop) (fs : Fs Phone) :
    Call → Prop
  | .getattr path => fs.pending path = none → one fs path
  | .opens path _ => one fs path
  | .readdir path => one fs path
  | .unlink path => one fs path
  | .rmdir path => one fs path
  | .rename source target => both fs source target
  | _ => True

/-- In a reached state a call never invents absence exactly where its walks hide nothing. -/
theorem neverInvents_iff (hknows : KnowsKinds fs) (call : Call) :
    NeverInvents fs call ↔ OnWays Unhidden RenameUnhidden fs call := by
  cases call with
  | getattr path => exact forall_congr' fun hp => truthful_getattr hknows hp
  | opens path flags => exact truthful_opens flags
  | readdir path =>
      refine (and_iff_left ?_).trans truthful_readdir
      intro hunlisted
      exact ⟨-Libc.EIO, readdir_unlisted hunlisted, by decide⟩
  | unlink path => exact truthful_removeObject hknows false
  | rmdir path => exact truthful_removeObject hknows true
  | rename source target => exact renameTruthful_iff
  | _ => exact Iff.rfl

theorem unhidden_iff_passable_ways {call : Call} (hcharted : OnWays Charted ChartedRename fs call) :
    OnWays Unhidden RenameUnhidden fs call ↔ OnWays Passable PassableRename fs call := by
  cases call with
  | getattr path => exact forall_congr' fun hp => unhidden_iff_passable (hcharted hp)
  | opens path flags => exact unhidden_iff_passable hcharted
  | readdir path => exact unhidden_iff_passable hcharted
  | unlink path => exact unhidden_iff_passable hcharted
  | rmdir path => exact unhidden_iff_passable hcharted
  | rename source target => exact renameUnhidden_iff_passable hcharted
  | _ => exact Iff.rfl

/-- **Absence is never invented** on ways that are charted and passable, in any state that a mount
reaches; and on charted ways it is invented wherever they are not passable. -/
theorem never_invents_where_charted (mtp : Mtp Phone) (host₀ : Host)
    (calls : List (Host × Call)) (host : Host) (call : Call) :
    (OnWays Charted ChartedRename (reached mtp host₀ calls host) call ∧
        OnWays Passable PassableRename (reached mtp host₀ calls host) call →
      NeverInvents (reached mtp host₀ calls host) call) ∧
    (OnWays Charted ChartedRename (reached mtp host₀ calls host) call →
      NeverInvents (reached mtp host₀ calls host) call →
        OnWays Passable PassableRename (reached mtp host₀ calls host) call) := by
  have hknows : KnowsKinds (reached mtp host₀ calls host) :=
    ((informed_start mtp host₀).run calls).knows
  constructor
  · intro h
    obtain ⟨hcharted, hpassable⟩ := h
    exact (neverInvents_iff hknows call).mpr ((unhidden_iff_passable_ways hcharted).mpr hpassable)
  · intro hcharted hnever
    exact (unhidden_iff_passable_ways hcharted).mp ((neverInvents_iff hknows call).mp hnever)

/-- The file of a device that answers is there, and a call says so. -/
theorem never_invents_oneFile :
    NeverInvents (reached (Mtp.mountOfZeros 3 Mtp.three_fits) Host.obliging [] Host.obliging)
      (.unlink ['/', 'a']) := by
  have hasked : oneFile.store.asked root (splitPath ['/', 'a']) = [root] := by decide +kernel
  have hdistinct : oneFile.store.DistinctOn root (splitPath ['/', 'a']) := by
    intro r hr
    rw [hasked] at hr
    cases List.mem_singleton.mp hr
    decide +kernel
  have hway : SeesWay oneFile ['/', 'a'] := sees_oneFile.way ['/', 'a']
  have hpassable : Passable oneFile ['/', 'a'] :=
    ⟨not_faults_of_answers hway, fun _ => by decide +kernel⟩
  exact (never_invents_where_charted (Mtp.mountOfZeros 3 Mtp.three_fits) Host.obliging []
    Host.obliging (.unlink ['/', 'a'])).1 ⟨⟨hway.shown, hdistinct⟩, hpassable⟩

/-! ## A device that lists nothing -/

/-- The answer of a device to every listing. -/
def unlistable : Fault := .code Resp.storeFull storeFull_ne_ok

/-- A device that refuses its listings. -/
def listless : Policy :=
  { Policy.obliging with
    fault := fun _ _ r => if r.code = Op.getObjectHandles ∨ r.code = Op.getObjectPropList then
      some unlistable else none }

/-- A mount of such a device, which holds one file. -/
def unlistedMount : Mtp Phone :=
  Mtp.standard (Phone.holding (Mtp.storeOfZeros 3 Mtp.three_fits) listless)

/-- `op_getattr` says that the file is not there. -/
theorem unlisted_reads_as_absent :
    ¬ NeverInvents (reached unlistedMount Host.obliging [] Host.obliging) (.getattr ['/', 'a']) := by
  intro hnever
  have hanswer : ((Call.getattr ['/', 'a']).number
      (reached unlistedMount Host.obliging [] Host.obliging)).1 = .error (-Libc.ENOENT) := by
    decide +kernel
  refine (hnever rfl).absent hanswer 1 (by decide) ?_
  have hthere : Mtp.zeros 1 ['a'] 3 ∈
      (reached unlistedMount Host.obliging [] Host.obliging).store.children root := by decide +kernel
  exact .down hthere rfl .here

end Fs

end Bsdroid
