import Bsdroid.Cellphone.Changes
import Bsdroid.Mtpfs.Operation
import Mathlib.Data.List.Infix

/-!
# What a read of an object gives

A read is stitched together from the bytes read in advance and from partial
reads of the device, each of which may give fewer bytes than it was asked for.
Whatever the device gives, the bytes of a read that succeeds are the bytes of the
object from the offset on, in order and with none left out (`readAt_ok`): the
only thing a short answer can do is end the read early.  A device that gives at
least one byte of every range fills the whole answer (`readAt_fills`).

`CacheOk` is what the bytes read in advance have to do with the store, and it
survives every operation.
-/

namespace Bsdroid

/-- Two consecutive prefixes of a list make one. -/
theorem prefix_append_of_drop {α : Type} {xs ys zs : List α} (hx : xs <+: zs)
    (hy : ys <+: zs.drop xs.length) : xs ++ ys <+: zs := by
  obtain ⟨rest, rfl⟩ := hx
  rw [List.drop_left] at hy
  exact (List.prefix_append_right_inj xs).mpr hy

/-- A policy that gives at least one byte of every range. -/
structure Policy.Generous (policy : Policy) : Prop where
  served : ∀ log s r, r.code = Op.getPartialObject64 → policy.fault log s r = none
  given : ∀ log s, 1 ≤ policy.given log s

namespace Mtp

/-- The bytes read in advance are bytes of their object, as long as the cellphone
holds it. -/
def CacheOk (m : Mtp Phone) : Prop :=
  ∀ c, m.cache = some c → c.handle ∈ m.session.store.used ∧
    ∀ x, m.session.store.find c.handle = some x →
      x.content.whole = true ∧ c.data <+: x.content.bytes.drop c.start

/-- The operation for a partial read can name an offset. -/
def Names (m : Mtp Phone) (offset : Nat) : Prop :=
  (m.partialRead = Op.getPartialObject64 ∧ offset < 2 ^ 64) ∨
    (m.partialRead = Op.getPartialObject ∧ offset < 2 ^ 32)

theorem Names.mono {m m' : Mtp Phone} {offset offset' : Nat} (h : m.Names offset)
    (hsame : SameDevice m m') (hle : offset' ≤ offset) : m'.Names offset' := by
  rw [Names, hsame.partialRead]
  exact h.imp (fun h => ⟨h.1, by omega⟩) (fun h => ⟨h.1, by omega⟩)

theorem CacheOk.of_same {m m' : Mtp Phone} (h : m.CacheOk) (hsame : SameDevice m m')
    (hcache : m'.cache = m.cache) : m'.CacheOk := by
  unfold CacheOk
  rw [hsame.store, hcache]
  exact h

/-! ## The bytes read in advance -/

/-- What the cache gives is what its object holds there. -/
theorem cacheGet_ok {c : ReadCache} {h : UInt32} {offset want : Nat} {bytes : Bytes}
    (hget : c.get h offset want = .ok (some bytes)) :
    c.handle = h ∧ c.start ≤ offset ∧ bytes <+: c.data.drop (offset - c.start) ∧
      bytes.length ≤ want ∧ (0 < want → bytes ≠ []) := by
  unfold ReadCache.get at hget
  split at hget
  · cases hget
  rename_i hmine
  simp only at hget
  split at hget
  · cases hget
  rename_i hinside
  cases hsum : checkedAdd (offset - c.start) want with
  | error e =>
      rw [hsum] at hget
      cases hget
  | ok stop =>
      rw [hsum] at hget
      have hstop : stop = offset - c.start + want := by
        unfold checkedAdd at hsum
        split at hsum
        · cases hsum
          rfl
        · cases hsum
      simp only [Except.ok.injEq, Option.some.injEq] at hget
      rw [List.drop_take] at hget
      have hlength : bytes.length =
          min (min stop c.data.length - (offset - c.start))
            (c.data.length - (offset - c.start)) := by
        rw [← hget, List.length_take, List.length_drop]
      refine ⟨by simpa using fun hne => hmine (.inl hne), by
        by_contra hlt
        exact hmine (.inr (by omega)), by rw [← hget]; exact List.take_prefix _ _, by omega, ?_⟩
      intro hpos hnil
      rw [hnil, List.length_nil] at hlength
      omega

/-- The cache of a mount, at a position of an object. -/
theorem cached_ok {m m' : Mtp Phone} {h : UInt32} {x : Object} {offset want : Nat}
    {answer : Option Bytes} (hok : m.CacheOk) (hx : m.session.store.find h = some x)
    (hrun : cached h offset want m = (.ok answer, m')) :
    m' = m ∧ ∀ bytes, answer = some bytes →
      bytes <+: x.content.bytes.drop offset ∧ bytes.length ≤ want ∧ (0 < want → bytes ≠ []) := by
  rw [cached] at hrun
  obtain ⟨m₀, m₁, hget, hrun⟩ := Proc.bind_eq_ok hrun
  rw [Proc.get_run, Prod.mk.injEq, Except.ok.injEq] at hget
  obtain ⟨rfl, rfl⟩ := hget
  cases hcache : m.cache with
  | none =>
      rw [hcache] at hrun
      cases hrun
      exact ⟨rfl, fun _ h => by cases h⟩
  | some c =>
      rw [hcache] at hrun
      obtain ⟨hget, rfl⟩ := Proc.ofExcept_eq_ok hrun
      refine ⟨rfl, ?_⟩
      rintro bytes rfl
      obtain ⟨rfl, hstart, hbytes, hle, hpos⟩ := cacheGet_ok hget
      have hdata : c.data <+: x.content.bytes.drop c.start := ((hok c hcache).2 x hx).2
      refine ⟨hbytes.trans ?_, hle, hpos⟩
      have hdrop := List.IsPrefix.drop hdata (offset - c.start)
      rw [List.drop_drop, Nat.add_sub_cancel' hstart] at hdrop
      exact hdrop

/-! ## The device -/

section Device

variable {m m' : Mtp Phone} {h : UInt32} {x : Object} {offset want : Nat} {data : Bytes}

/-- An operation changes nothing of the mount but its session. -/
theorem operation_cache {step : String} {code : UInt16} {params : List UInt32}
    (hrun : operation step code params m = (.ok data, m')) : m'.cache = m.cache := by
  rw [(operation_ok hrun).2.2]
  rfl

/-- The parameters of a partial read. -/
def partialParams (m : Mtp Phone) (h : UInt32) (offset want : Nat) : List UInt32 :=
  if m.partialRead = Op.getPartialObject64 then
    [h, UInt32.ofNat (offset % 2 ^ 32), UInt32.ofNat (offset / 2 ^ 32), UInt32.ofNat want]
  else [h, UInt32.ofNat offset, UInt32.ofNat want]

theorem partialReadAt_run (m : Mtp Phone) (h : UInt32) (offset want : Nat) :
    partialReadAt h offset want m =
      operation "GetPartialObject" m.partialRead (partialParams m h offset want) m := rfl

theorem Names.readsOnly (hnames : m.Names offset) : m.partialRead ∈ Mtp.readsOnly := by
  rcases hnames with ⟨hop, -⟩ | ⟨hop, -⟩
  · rw [hop]
    decide
  · rw [hop]
    decide

/-- The device reads the range the host meant. -/
theorem serve_partialRead (p : Phone) (hnames : m.Names offset) (hwant : want < 2 ^ 32) :
    (p.serve m.partialRead (partialParams m h offset want) []).1 =
      p.partialObject h offset want := by
  have hw : (UInt32.ofNat want).toNat = want := UInt32.toNat_ofNat_of_lt' hwant
  rcases hnames with ⟨hop, hoffset⟩ | ⟨hop, hoffset⟩
  · have hlow : (UInt32.ofNat (offset % 2 ^ 32)).toNat = offset % 2 ^ 32 :=
      UInt32.toNat_ofNat_of_lt' (by rw [UInt32.size]; omega)
    have hhigh : (UInt32.ofNat (offset / 2 ^ 32)).toNat = offset / 2 ^ 32 :=
      UInt32.toNat_ofNat_of_lt' (by rw [UInt32.size]; omega)
    rw [partialParams, if_pos hop, hop]
    change p.partialObject h ((UInt32.ofNat (offset % 2 ^ 32)).toNat +
      (UInt32.ofNat (offset / 2 ^ 32)).toNat * 2 ^ 32) (UInt32.ofNat want).toNat = _
    rw [hlow, hhigh, hw]
    congr 1
    omega
  · have ho : (UInt32.ofNat offset).toNat = offset := UInt32.toNat_ofNat_of_lt' hoffset
    rw [partialParams, if_neg (by rw [hop]; decide), hop]
    change p.partialObject h (UInt32.ofNat offset).toNat (UInt32.ofNat want).toNat = _
    rw [ho, hw]

/-- What a device with an object answers to a partial read. -/
theorem partialObject_data (p : Phone) (hx : p.store.find h = some x) :
    p.partialObject h offset want =
      Phone.accept (((x.content.bytes.drop offset).take want).take
        (p.policy.given p.log p.store)) [] := by
  rw [Phone.partialObject, hx]

/-- A partial read that succeeds leaves its request behind, and nothing else. -/
theorem partialReadAt_state (hrun : partialReadAt h offset want m = (.ok data, m')) :
    m' = served m "GetPartialObject" m.partialRead (partialParams m h offset want) :=
  (operation_ok ((partialReadAt_run m h offset want).symm.trans hrun)).2.2

theorem partialReadAt_ok (hx : m.session.store.find h = some x) (hnames : m.Names offset)
    (hwant : want < 2 ^ 32) (hrun : partialReadAt h offset want m = (.ok data, m')) :
    data <+: x.content.bytes.drop offset ∧ data.length ≤ want ∧ SameDevice m m' ∧
      m'.cache = m.cache := by
  rw [partialReadAt_run] at hrun
  have hcache := operation_cache hrun
  obtain ⟨-, hdata, hm'⟩ := operation_ok hrun
  rw [serve_partialRead _ hnames hwant, partialObject_data _ hx, Phone.accept_data] at hdata
  refine ⟨?_, ?_, ?_, hcache⟩
  · rw [hdata]
    exact (List.take_prefix _ _).trans (List.take_prefix _ _)
  · rw [hdata, List.length_take, List.length_take]
    omega
  · rw [hm']
    exact sameDevice_served hnames.readsOnly

/-- The split of a read keeps its count. -/
theorem splitFinalRead_cases {offset want fileSize packet first : Nat} {short : Bool}
    (h : splitFinalRead offset want fileSize packet = (first, short)) :
    (short = false ∧ first = want) ∨ (short = true ∧ first + 1 = want) := by
  unfold splitFinalRead at h
  simp only at h
  split at h
  · rename_i hcond
    cases h
    exact .inr ⟨rfl, by have := hcond.2.2.1; omega⟩
  · cases h
    exact .inl ⟨rfl, rfl⟩

/-- A split read holds one byte back. -/
theorem splitFinalRead_short {offset want fileSize packet first : Nat} {short : Bool}
    (h : splitFinalRead offset want fileSize packet = (first, short)) (hshort : short = true) :
    first + 1 = want := by
  rcases splitFinalRead_cases h with ⟨hno, -⟩ | ⟨-, hone⟩
  · rw [hshort] at hno
    cases hno
  · exact hone

theorem readFromDevice_run {fileSize first : Nat} {short : Bool}
    (hsplit : splitFinalRead offset want fileSize m.packet = (first, short)) :
    readFromDevice h offset want fileSize m = (do
      let data ← partialReadAt h offset first
      if short ∧ data.length = first then do
        let last ← Proc.ofExcept (checkedAdd offset first)
        let tail ← partialReadAt h last 1
        pure (data ++ tail)
      else pure data : Proc Error (Mtp Phone) Bytes) m := by
  rw [readFromDevice, Proc.bind_ok (Proc.get_run m)]
  simp only [hsplit]

theorem readFromDevice_ok {fileSize : Nat} (hx : m.session.store.find h = some x)
    (hpos : 0 < want) (hnames : m.Names (offset + want - 1)) (hwant : want < 2 ^ 32)
    (hrun : readFromDevice h offset want fileSize m = (.ok data, m')) :
    data <+: x.content.bytes.drop offset ∧ data.length ≤ want ∧ SameDevice m m' ∧
      m'.cache = m.cache := by
  rcases hsplit : splitFinalRead offset want fileSize m.packet with ⟨first, short⟩
  rw [readFromDevice_run hsplit] at hrun
  have hcases := splitFinalRead_cases hsplit
  have hfirst : first ≤ want := by omega
  obtain ⟨data₁, m₂, hread, hrun⟩ := Proc.bind_eq_ok hrun
  obtain ⟨hfront, hle, hsame, hcache⟩ := partialReadAt_ok hx
    (hnames.mono (SameDevice.refl m) (by omega)) (by omega) hread
  split at hrun
  · rename_i hshort
    have hone := splitFinalRead_short hsplit hshort.1
    obtain ⟨last, m₃, hlast, hrun⟩ := Proc.bind_eq_ok hrun
    obtain ⟨hsum, rfl⟩ := Proc.ofExcept_eq_ok hlast
    obtain ⟨tail, m₄, htail, hrun⟩ := Proc.bind_eq_ok hrun
    cases hrun
    have hposition : last = offset + first := by
      unfold checkedAdd at hsum
      split at hsum
      · cases hsum
        rfl
      · cases hsum
    obtain ⟨htfront, htle, htsame, htcache⟩ := partialReadAt_ok (x := x)
      (by rw [hsame.store]; exact hx) (hnames.mono hsame (by omega)) (by omega) htail
    refine ⟨prefix_append_of_drop hfront ?_, ?_, hsame.trans htsame, htcache.trans hcache⟩
    · rw [List.drop_drop, hshort.2, ← hposition]
      exact htfront
    · rw [List.length_append]
      omega
  · cases hrun
    exact ⟨hfront, by omega, hsame, hcache⟩

/-- A device that serves a partial read succeeds. -/
theorem partialReadAt_of_served (hx : m.session.store.find h = some x)
    (hnames : m.Names offset) (hwant : want < 2 ^ 32)
    (hfault : m.session.policy.fault m.session.log m.session.store
      ⟨"GetPartialObject", m.partialRead, partialParams m h offset want, none⟩ = none) :
    partialReadAt h offset want m =
      (.ok (((x.content.bytes.drop offset).take want).take
          (m.session.policy.given m.session.log m.session.store)),
        served m "GetPartialObject" m.partialRead (partialParams m h offset want)) := by
  have hanswer : (m.session.serve m.partialRead (partialParams m h offset want) []).1 =
      Phone.accept (((x.content.bytes.drop offset).take want).take
        (m.session.policy.given m.session.log m.session.store)) [] := by
    rw [serve_partialRead _ hnames hwant, partialObject_data _ hx]
  rw [partialReadAt_run, operation_of_faultless hfault (by rw [hanswer]; rfl), hanswer]
  rfl

/-- A generous device gives at least one byte of a range inside the object. -/
theorem partialReadAt_generous (hgenerous : m.session.policy.Generous)
    (hx : m.session.store.find h = some x) (hop : m.partialRead = Op.getPartialObject64)
    (hpos : 0 < want) (hwant : want < 2 ^ 32) (hinside : offset < x.size) :
    ∃ data, partialReadAt h offset want m =
        (.ok data, served m "GetPartialObject" m.partialRead (partialParams m h offset want)) ∧
      data ≠ [] := by
  have hsized := (m.session.store.sound x (Store.mem_of_find hx)).sized
  have hnames : m.Names offset := .inl ⟨hop, by omega⟩
  refine ⟨_, partialReadAt_of_served hx hnames hwant (hgenerous.served _ _ _ hop), ?_⟩
  intro hnil
  have hlength := congrArg List.length hnil
  have hgiven := hgenerous.given m.session.log m.session.store
  rw [List.length_take, List.length_take, List.length_drop, List.length_nil] at hlength
  rw [Object.size] at hinside
  omega

/-- A generous device answers a read inside the object with at least one byte. -/
theorem readFromDevice_generous (hgenerous : m.session.policy.Generous)
    (hx : m.session.store.find h = some x) (hop : m.partialRead = Op.getPartialObject64)
    (hpos : 0 < want) (hwant : want < 2 ^ 32) (hinside : offset + want ≤ x.size) :
    ∃ data m', readFromDevice h offset want x.size m = (.ok data, m') ∧ data ≠ [] := by
  have hsized := (m.session.store.sound x (Store.mem_of_find hx)).sized
  rcases hsplit : splitFinalRead offset want x.size m.packet with ⟨first, short⟩
  have hcases := splitFinalRead_cases hsplit
  -- The read of one byte that the split left over.
  have hlast : ∀ (m₁ : Mtp Phone), SameDevice m m₁ → first + 1 = want →
      ∃ tail m₂, partialReadAt h (offset + first) 1 m₁ = (.ok tail, m₂) ∧ tail ≠ [] := by
    intro m₁ hsame hone
    obtain ⟨tail, htail, hne⟩ := partialReadAt_generous (m := m₁) (h := h) (x := x)
      (by rw [hsame.policy]; exact hgenerous)
      (by rw [hsame.store]; exact hx) (by rw [hsame.partialRead]; exact hop)
      Nat.one_pos (by omega) (show offset + first < x.size by omega)
    exact ⟨tail, _, htail, hne⟩
  rw [readFromDevice_run hsplit]
  have hsum : checkedAdd offset first = .ok (offset + first) := by
    rw [checkedAdd, if_pos (by rw [wordSize]; omega)]
  have hnames : m.Names offset := .inl ⟨hop, by omega⟩
  have hread := partialReadAt_of_served hx hnames (show first < 2 ^ 32 by omega)
    (hgenerous.served _ _ _ hop)
  have hsame : SameDevice m (served m "GetPartialObject" m.partialRead
      (partialParams m h offset first)) := sameDevice_served hnames.readsOnly
  rw [Proc.bind_ok hread]
  split
  · rename_i hshort
    have hone : first + 1 = want := by
      rcases hcases with ⟨hno, -⟩ | ⟨-, hone⟩
      · rw [hshort.1] at hno
        cases hno
      · exact hone
    obtain ⟨tail, m₂, htail, hne⟩ := hlast _ hsame hone
    rw [hsum, Proc.bind_ok (Proc.ofExcept_ok _ _), Proc.bind_ok htail]
    exact ⟨_, m₂, rfl, fun hnil => hne (List.append_eq_nil_iff.mp hnil).2⟩
  · rename_i hfull
    refine ⟨_, _, rfl, ?_⟩
    intro hnil
    have hlength := congrArg List.length hnil
    have hgiven := hgenerous.given m.session.log m.session.store
    rw [List.length_take, List.length_take, List.length_drop, List.length_nil] at hlength
    rw [Object.size] at hinside
    -- An empty answer to a first read of no bytes would have been the whole of it.
    have hnone : first = 0 := by omega
    rcases hcases with ⟨-, hall⟩ | ⟨hyes, -⟩
    · omega
    · exact hfull ⟨hyes, by rw [hnil, hnone]; rfl⟩

/-! ## The whole read -/

/-- What a device gave for a position goes into the cache. -/
theorem CacheOk.store {pos : Nat} (hx : m.session.store.find h = some x)
    (hdata : data <+: x.content.bytes.drop pos) (hne : data ≠ []) :
    CacheOk { m with cache := some ⟨h, pos, data⟩ } := by
  intro c hc
  cases hc
  refine ⟨Store.mem_used_of_find hx, ?_⟩
  intro y hy
  have hsame : y = x := Option.some.inj (hy.symm.trans hx)
  subst hsame
  refine ⟨?_, hdata⟩
  by_contra hwhole
  have hnil := y.content.waiting (by simpa using hwhole)
  rw [hnil, List.drop_nil] at hdata
  exact hne (List.prefix_nil.mp hdata)

theorem sameDevice_cache (m : Mtp Phone) (c : Option ReadCache) :
    SameDevice m { m with cache := c } :=
  ⟨rfl, rfl, rfl, rfl, rfl, rfl, rfl, rfl, fun _ h => .inl h⟩

end Device

section Fill

variable {h : UInt32} {x : Object} {offset want fileSize : Nat}

/-- The request of one round for the device stays inside the file and below 32
bits. -/
theorem ask_bounds {pos need : Nat} (hneed : 0 < need) (hlt : need < 2 ^ 32)
    (hpos : pos < fileSize) :
    0 < min (max need readAhead) (fileSize - pos) ∧
      min (max need readAhead) (fileSize - pos) < 2 ^ 32 ∧
      pos + min (max need readAhead) (fileSize - pos) - 1 ≤ fileSize - 1 := by
  unfold readAhead
  omega

/-- **What a read fills in.**  The answer grows by bytes of the object, in order,
whatever the device gives. -/
theorem fillFrom_ok {rounds : Nat} {out out' : Bytes} {m m' : Mtp Phone}
    (hx : m.session.store.find h = some x) (hok : m.CacheOk) (hnames : m.Names (fileSize - 1))
    (hwant : want < 2 ^ 32) (hend : offset + want ≤ fileSize)
    (hfront : out <+: x.content.bytes.drop offset) (hlength : out.length ≤ want)
    (hrun : fillFrom h offset want fileSize rounds out m = (.ok out', m')) :
    out' <+: x.content.bytes.drop offset ∧ out'.length ≤ want ∧ out.length ≤ out'.length ∧
      SameDevice m m' ∧ m'.CacheOk := by
  induction rounds generalizing m out with
  | zero =>
      cases hrun
      exact ⟨hfront, hlength, Nat.le_refl _, SameDevice.refl _, hok⟩
  | succ rounds ih =>
      rw [fillFrom] at hrun
      split at hrun
      · rename_i hmore
        obtain ⟨pos, m₁, hadd, hrun⟩ := Proc.bind_eq_ok hrun
        obtain ⟨hpos, rfl⟩ := Proc.ofExcept_eq_ok hadd
        obtain ⟨need, m₂, hsub, hrun⟩ := Proc.bind_eq_ok hrun
        obtain ⟨hneed, rfl⟩ := Proc.ofExcept_eq_ok hsub
        obtain rfl : pos = offset + out.length := by
          unfold checkedAdd at hpos
          split at hpos
          · cases hpos
            rfl
          · cases hpos
        obtain rfl : need = want - out.length := by
          unfold checkedSub at hneed
          rw [if_pos hlength] at hneed
          cases hneed
          rfl
        obtain ⟨answer, m₃, hcached, hrun⟩ := Proc.bind_eq_ok hrun
        obtain ⟨rfl, hhit⟩ := cached_ok hok hx hcached
        have hdrop : ∀ bytes : Bytes, bytes <+: x.content.bytes.drop (offset + out.length) →
            out ++ bytes <+: x.content.bytes.drop offset := by
          intro bytes hbytes
          apply prefix_append_of_drop hfront
          rw [List.drop_drop]
          exact hbytes
        cases answer with
        | some bytes =>
            obtain ⟨hbytes, hle, -⟩ := hhit bytes rfl
            obtain ⟨h₁, h₂, h₃, h₄, h₅⟩ := ih hx hok hnames (hdrop bytes hbytes)
              (by rw [List.length_append]; omega) hrun
            exact ⟨h₁, h₂, by rw [List.length_append] at h₃; omega, h₄, h₅⟩
        | none =>
            obtain ⟨left, m₄, hleft, hrun⟩ := Proc.bind_eq_ok hrun
            obtain ⟨hdiff, rfl⟩ := Proc.ofExcept_eq_ok hleft
            obtain rfl : left = fileSize - (offset + out.length) := by
              unfold checkedSub at hdiff
              rw [if_pos (by omega)] at hdiff
              cases hdiff
              rfl
            obtain ⟨data, m₅, hread, hrun⟩ := Proc.bind_eq_ok hrun
            obtain ⟨hask, hbound, hlast⟩ := ask_bounds
              (show 0 < want - out.length by omega) (by omega)
              (show offset + out.length < fileSize by omega)
            obtain ⟨hdata, -, hsame, hcache⟩ := readFromDevice_ok hx hask
              (hnames.mono (SameDevice.refl _) hlast) hbound hread
            split at hrun
            · cases hrun
              exact ⟨hfront, hlength, Nat.le_refl _, hsame, hok.of_same hsame hcache⟩
            · rename_i hne
              obtain ⟨⟨⟩, m₆, hstored, hrun⟩ := Proc.bind_eq_ok hrun
              cases hstored
              have hx₅ : m₅.session.store.find h = some x := by
                rw [hsame.store]
                exact hx
              have hsame₆ := hsame.trans
                (sameDevice_cache m₅ (some ⟨h, offset + out.length, data⟩))
              obtain ⟨h₁, h₂, h₃, h₄, h₅⟩ := ih
                (m := { m₅ with cache := some ⟨h, offset + out.length, data⟩ }) hx₅
                (CacheOk.store hx₅ hdata (by simpa using hne))
                (hnames.mono hsame₆ (Nat.le_refl _))
                (hdrop _ ((List.take_prefix _ _).trans hdata))
                (by rw [List.length_append, List.length_take]; omega) hrun
              exact ⟨h₁, h₂, by rw [List.length_append] at h₃; omega, hsame₆.trans h₄, h₅⟩
      · cases hrun
        exact ⟨hfront, hlength, Nat.le_refl _, SameDevice.refl _, hok⟩

/-- **A read that succeeds** gives the bytes of the object from the offset on, in
order, and no more than the caller asked for. -/
theorem readAt_ok {out : Bytes} {m m' : Mtp Phone}
    (hx : m.session.store.find h = some x) (hok : m.CacheOk) (hnames : m.Names (fileSize - 1))
    (hwant : want < 2 ^ 32) (hrun : readAt h offset want fileSize m = (.ok out, m')) :
    out <+: x.content.bytes.drop offset ∧ out.length ≤ min want (fileSize - offset) ∧
      SameDevice m m' ∧ m'.CacheOk := by
  rw [readAt] at hrun
  split at hrun
  · cases hrun
    exact ⟨List.nil_prefix, Nat.zero_le _, SameDevice.refl _, hok⟩
  · rename_i hinside
    obtain ⟨left, m₁, hleft, hrun⟩ := Proc.bind_eq_ok hrun
    obtain ⟨hdiff, rfl⟩ := Proc.ofExcept_eq_ok hleft
    obtain rfl : left = fileSize - offset := by
      unfold checkedSub at hdiff
      rw [if_pos (by omega)] at hdiff
      cases hdiff
      rfl
    obtain ⟨h₁, h₂, -, h₄, h₅⟩ := fillFrom_ok hx hok hnames
      (by omega) (by omega) List.nil_prefix (Nat.zero_le _) hrun
    exact ⟨h₁, h₂, h₄, h₅⟩

/-- Looking into the cache never ends a read. -/
theorem cached_total (h : UInt32) (m : Mtp Phone) {pos need : Nat} (hsum : pos + need < wordSize) :
    ∃ answer, cached h pos need m = (.ok answer, m) ∧
      ∀ bytes, answer = some bytes → bytes.length ≤ need ∧ (0 < need → bytes ≠ []) := by
  rw [cached, Proc.bind_ok (Proc.get_run m)]
  cases hcache : m.cache with
  | none => exact ⟨none, rfl, fun _ h => by cases h⟩
  | some c =>
      have hget : ∃ answer, c.get h pos need = .ok answer := by
        unfold ReadCache.get
        split
        · exact ⟨none, rfl⟩
        · simp only
          split
          · exact ⟨none, rfl⟩
          · rw [checkedAdd, if_pos (by omega)]
            exact ⟨_, rfl⟩
      obtain ⟨answer, hanswer⟩ := hget
      refine ⟨answer, by simp only [hanswer]; rfl, ?_⟩
      rintro bytes rfl
      obtain ⟨-, -, -, hle, hne⟩ := cacheGet_ok hanswer
      exact ⟨hle, hne⟩

theorem checkedAdd_of_lt {a b : Nat} (h : a + b < wordSize) : checkedAdd a b = .ok (a + b) :=
  if_pos h

theorem checkedSub_of_le {a b : Nat} (h : b ≤ a) : checkedSub a b = .ok (a - b) := if_pos h

/-- **A generous device fills the answer.**  Each round adds a byte, so `want`
rounds are enough, and no sum and no difference leaves its type. -/
theorem fillFrom_fills {rounds : Nat} {out : Bytes} {m : Mtp Phone}
    (hgenerous : m.session.policy.Generous) (hx : m.session.store.find h = some x)
    (hop : m.partialRead = Op.getPartialObject64) (hwant : want < 2 ^ 32)
    (hend : offset + want ≤ x.size) (hlength : out.length ≤ want)
    (hrounds : want - out.length ≤ rounds) :
    ∃ out' m', fillFrom h offset want x.size rounds out m = (.ok out', m') ∧
      out'.length = want := by
  have hsized : x.size < wordSize := (m.session.store.sound x (Store.mem_of_find hx)).sized
  induction rounds generalizing m out with
  | zero => exact ⟨out, m, rfl, by omega⟩
  | succ rounds ih =>
      rw [fillFrom]
      split
      · rename_i hmore
        rw [checkedAdd_of_lt (by omega), Proc.bind_ok (Proc.ofExcept_ok _ _),
          checkedSub_of_le hlength, Proc.bind_ok (Proc.ofExcept_ok _ _)]
        obtain ⟨answer, hcached, hhit⟩ := cached_total h m
          (show offset + out.length + (want - out.length) < wordSize by omega)
        rw [Proc.bind_ok hcached]
        cases answer with
        | some bytes =>
            obtain ⟨hle, hne⟩ := hhit bytes rfl
            have hsome := List.length_pos_iff.mpr (hne (by omega))
            exact ih hgenerous hx hop (by rw [List.length_append]; omega)
              (by rw [List.length_append]; omega)
        | none =>
            have hpos : offset + out.length < x.size := by omega
            obtain ⟨hask, hbound, hlast⟩ := ask_bounds
              (show 0 < want - out.length by omega) (by omega) hpos
            have hinside : offset + out.length + min (max (want - out.length) readAhead)
                (x.size - (offset + out.length)) ≤ x.size := by omega
            obtain ⟨data, m₁, hread, hne⟩ :=
              readFromDevice_generous hgenerous hx hop hask hbound hinside
            have hsome := List.length_pos_iff.mpr hne
            obtain ⟨-, -, hsame, -⟩ := readFromDevice_ok hx hask
              (.inl ⟨hop, Nat.lt_of_le_of_lt hlast (by rw [wordSize] at hsized; omega)⟩) hbound
              hread
            have hnext := ih (m := { m₁ with cache := some ⟨h, offset + out.length, data⟩ })
              (by rw [← hsame.policy] at hgenerous; exact hgenerous)
              (by rw [← hsame.store] at hx; exact hx) (hsame.partialRead.trans hop)
              (show (out ++ data.take (min (want - out.length) data.length)).length ≤ want by
                rw [List.length_append, List.length_take]; omega)
              (by rw [List.length_append, List.length_take]; omega)
            simp only [checkedSub_of_le (Nat.le_of_lt hpos)]
            rw [Proc.bind_ok (Proc.ofExcept_ok _ _), Proc.bind_ok hread,
              if_neg (by simpa using hne), Proc.bind_ok (Proc.modify_run _ _)]
            exact hnext
      · exact ⟨out, m, rfl, by omega⟩

/-- **A read of a generous device** gives exactly the bytes asked for, up to the
end of the object. -/
theorem readAt_exact (offset : Nat) {m : Mtp Phone} (hgenerous : m.session.policy.Generous)
    (hx : m.session.store.find h = some x) (hok : m.CacheOk)
    (hop : m.partialRead = Op.getPartialObject64) (hwant : want < 2 ^ 32) :
    (readAt h offset want x.size m).1 =
      .ok ((x.content.bytes.take (min (offset + want) x.size)).drop offset) := by
  have hsized : x.size < 2 ^ 64 := (m.session.store.sound x (Store.mem_of_find hx)).sized
  by_cases hinside : want = 0 ∨ offset ≥ x.size
  · rw [readAt, if_pos hinside, List.drop_of_length_le]
    · rfl
    · rw [List.length_take]
      omega
  · obtain ⟨out, m', hfill, hlength⟩ := fillFrom_fills (h := h) hgenerous hx hop
      (show min want (x.size - offset) < 2 ^ 32 by omega)
      (show offset + min want (x.size - offset) ≤ x.size by omega) (Nat.zero_le _)
      (show min want (x.size - offset) - ([] : Bytes).length ≤ min want (x.size - offset) by simp)
    have hrun : readAt h offset want x.size m = (.ok out, m') := by
      rw [readAt, if_neg hinside, checkedSub_of_le (by omega),
        Proc.bind_ok (Proc.ofExcept_ok _ _)]
      exact hfill
    obtain ⟨hfront, -, -, -⟩ := readAt_ok hx hok (.inl ⟨hop, by omega⟩) hwant hrun
    rw [hrun]
    have hcount : min (offset + want) x.size - offset = min want (x.size - offset) := by omega
    rw [List.prefix_iff_eq_take.mp hfront, hlength, List.drop_take, hcount]

end Fill

end Mtp

end Bsdroid
