import Bsdroid.Mtpfs.Entries
import Bsdroid.Mtpfs.Reading

/-!
# An edit in place starts from the whole file

A file that a program opens to change part of it is copied into a spool file
first, chunk by chunk.  The copy takes an empty answer for the end of the file,
wherever it comes.  `Starved` says when that happens: a chunk starts where the
bytes read in advance end and the device answers OK with no bytes.  Nothing else
makes a copy shorter than the recorded size (`copyFrom_ok`).  The recorded size itself can be
smaller than the object is by now, and then the copy ends there.  So an edit starts from the whole
file exactly when neither happens, or a fault stops the copy (`adoptForWrite_whole_iff`).
-/

namespace Bsdroid

namespace Mtp

variable {m m' : Mtp Phone} {h : UInt32} {x : Object} {offset want pos size : Nat}
  {data : Bytes}

/-! ## A read that gives nothing -/

/-- The device answers a partial read with OK and no bytes. -/
def GivesNothing (m : Mtp Phone) (x : Object) (h : UInt32) (offset want : Nat) : Prop :=
  m.session.policy.fault m.session.log m.session.store
      ⟨"GetPartialObject", m.partialRead, partialParams m h offset want, none⟩ = none ∧
    ((x.content.bytes.drop offset).take want).take
      (m.session.policy.given m.session.log m.session.store) = []

/-- The device gives nothing of a range: its first answer is empty, and so is the
one to a last byte that the split held back, when the first read asked for
nothing. -/
def Starves (m : Mtp Phone) (x : Object) (h : UInt32) (offset want fileSize : Nat) : Prop :=
  let split := splitFinalRead offset want fileSize m.packet
  m.GivesNothing x h offset split.1 ∧
    (split.2 = true → split.1 = 0 →
      (served m "GetPartialObject" m.partialRead (partialParams m h offset split.1)).GivesNothing
        x h (offset + split.1) 1)

/-- The bytes read in advance hold the byte at a position. -/
def Cached (m : Mtp Phone) (h : UInt32) (pos : Nat) : Prop :=
  ∃ c, m.cache = some c ∧ c.handle = h ∧ c.start ≤ pos ∧ pos < c.start + c.data.length

/-- Neither the bytes read in advance nor the device give a byte at a position. -/
def Dry (m : Mtp Phone) (x : Object) (h : UInt32) (pos size : Nat) : Prop :=
  ¬ m.Cached h pos ∧ m.Starves x h pos (min readAhead (size - pos)) size

theorem partialReadAt_empty_iff (hx : m.session.store.find h = some x)
    (hnames : m.Names offset) (hwant : want < 2 ^ 32) :
    (∃ m', partialReadAt h offset want m = (.ok [], m')) ↔ m.GivesNothing x h offset want := by
  constructor
  · intro hsome
    obtain ⟨m', hrun⟩ := hsome
    have hfault := operation_unfaulted hrun
    rw [partialReadAt_of_served hx hnames hwant hfault, Prod.mk.injEq, Except.ok.injEq] at hrun
    exact ⟨hfault, hrun.1⟩
  · intro hboth
    obtain ⟨hfault, hnone⟩ := hboth
    exact ⟨_, (partialReadAt_of_served hx hnames hwant hfault).trans (by rw [hnone])⟩

theorem readFromDevice_empty_iff (hx : m.session.store.find h = some x)
    (hpos : 0 < want) (hnames : m.Names (offset + want - 1)) (hwant : want < 2 ^ 32) :
    (∃ m', readFromDevice h offset want size m = (.ok [], m')) ↔
      m.Starves x h offset want size := by
  rcases hsplit : splitFinalRead offset want size m.packet with ⟨first, short⟩
  have hfirst : first ≤ want := by
    rcases splitFinalRead_cases hsplit with ⟨-, hall⟩ | ⟨-, hone⟩ <;> omega
  have hnames₁ : m.Names offset := hnames.mono (SameDevice.refl m) (by omega)
  have hempty := partialReadAt_empty_iff hx hnames₁ (show first < 2 ^ 32 by omega)
  have hsum : first + 1 = want → checkedAdd offset first = .ok (offset + first) := by
    intro hone
    apply checkedAdd_of_lt
    rw [wordSize]
    rcases hnames with ⟨-, hlt⟩ | ⟨-, hlt⟩ <;> omega
  have hlast : ∀ m₁, SameDevice m m₁ → first + 1 = want →
      ((∃ m₂, partialReadAt h (offset + first) 1 m₁ = (.ok [], m₂)) ↔
        m₁.GivesNothing x h (offset + first) 1) := by
    intro m₁ hsame hone
    exact partialReadAt_empty_iff (by rw [hsame.store]; exact hx)
      (hnames.mono hsame (by omega)) (by norm_num)
  rw [Starves, hsplit, readFromDevice_run hsplit]
  dsimp only
  constructor
  · intro hsome
    obtain ⟨m', hrun⟩ := hsome
    obtain ⟨data₁, m₁, hread, hrun⟩ := Proc.bind_eq_ok hrun
    obtain ⟨-, -, hsame, -⟩ := partialReadAt_ok hx hnames₁ (by omega) hread
    by_cases htail : short ∧ data₁.length = first
    · have hone := splitFinalRead_short hsplit htail.1
      rw [if_pos htail, hsum hone, Proc.bind_ok (Proc.ofExcept_ok _ _)] at hrun
      obtain ⟨tail, m₂, hread₂, hrun⟩ := Proc.bind_eq_ok hrun
      rw [Proc.pure_run, Prod.mk.injEq, Except.ok.injEq, List.append_eq_nil_iff] at hrun
      obtain ⟨⟨rfl, rfl⟩, rfl⟩ := hrun
      refine ⟨hempty.mp ⟨_, hread⟩, fun _ _ => ?_⟩
      rw [← partialReadAt_state hread]
      exact (hlast m₁ hsame hone).mp ⟨_, hread₂⟩
    · rw [if_neg htail, Proc.pure_run, Prod.mk.injEq, Except.ok.injEq] at hrun
      obtain ⟨rfl, rfl⟩ := hrun
      refine ⟨hempty.mp ⟨_, hread⟩, fun hshort hzero => ?_⟩
      exact absurd ⟨hshort, hzero.symm⟩ htail
  · intro hboth
    obtain ⟨hnone, hmore⟩ := hboth
    obtain ⟨m₁, hread⟩ := hempty.mpr hnone
    obtain ⟨-, -, hsame, -⟩ := partialReadAt_ok hx hnames₁ (by omega) hread
    rw [Proc.bind_ok hread]
    by_cases htail : short ∧ ([] : Bytes).length = first
    · have hone := splitFinalRead_short hsplit htail.1
      have hnothing := hmore htail.1 htail.2.symm
      rw [← partialReadAt_state hread] at hnothing
      obtain ⟨m₂, hread₂⟩ := (hlast m₁ hsame hone).mpr hnothing
      rw [if_pos htail, hsum hone, Proc.bind_ok (Proc.ofExcept_ok _ _), Proc.bind_ok hread₂]
      exact ⟨_, rfl⟩
    · rw [if_neg htail]
      exact ⟨_, rfl⟩

/-- The cache gives nothing exactly where it holds nothing. -/
theorem cacheGet_none_iff {c : ReadCache} (hsum : pos + want < wordSize) :
    c.get h pos want = .ok none ↔
      ¬ (c.handle = h ∧ c.start ≤ pos ∧ pos < c.start + c.data.length) := by
  unfold ReadCache.get
  by_cases hmine : c.handle ≠ h ∨ pos < c.start
  · rw [if_pos hmine]
    refine ⟨fun _ hall => ?_, fun _ => rfl⟩
    rcases hmine with hne | hlt
    · exact hne hall.1
    · omega
  · rw [if_neg hmine]
    dsimp only
    by_cases hpast : pos - c.start ≥ c.data.length
    · rw [if_pos hpast]
      exact ⟨fun _ hall => by omega, fun _ => rfl⟩
    · rw [if_neg hpast, checkedAdd_of_lt (by omega)]
      refine ⟨fun hrun => (by cases hrun), fun hno => ?_⟩
      push Not at hmine
      exact absurd ⟨hmine.1, hmine.2, by omega⟩ hno

theorem cached_none_iff (hsum : pos + want < wordSize) :
    cached h pos want m = (.ok none, m) ↔ ¬ m.Cached h pos := by
  rw [cached, Proc.bind_ok (Proc.get_run m)]
  cases hcache : m.cache with
  | none =>
      refine ⟨fun _ => ?_, fun _ => rfl⟩
      intro hsome
      obtain ⟨c, hc, -⟩ := hsome
      rw [hcache] at hc
      cases hc
  | some c =>
      have hin : m.Cached h pos ↔
          c.handle = h ∧ c.start ≤ pos ∧ pos < c.start + c.data.length := by
        constructor
        · intro hsome
          obtain ⟨c', hc', hall⟩ := hsome
          obtain rfl : c = c' := Option.some.inj (hcache.symm.trans hc')
          exact hall
        · exact fun hall => ⟨c, hcache, hall⟩
      rw [hin, ← cacheGet_none_iff hsum]
      exact ⟨fun hrun => congrArg Prod.fst hrun, fun hget => Prod.ext hget rfl⟩

theorem readChunk_le : readChunk ≤ readAhead := by decide

/-- **A read inside a file gives nothing** exactly where neither the bytes read in
advance nor the device give a byte. -/
theorem readAt_empty_iff (hx : m.session.store.find h = some x) (hok : m.CacheOk)
    (hnames : m.Names (size - 1)) (hsize : size < wordSize) (hpos : pos < size)
    (hwant : 0 < want) (hchunk : want ≤ readChunk) :
    (∃ m', readAt h pos (min want (size - pos)) size m = (.ok [], m')) ↔ m.Dry x h pos size := by
  have hchunks : readChunk < 2 ^ 32 := by decide
  have hahead : 0 < readAhead ∧ readAhead < 2 ^ 32 := by decide
  obtain ⟨rounds, hrounds⟩ : ∃ rounds, min want (size - pos) = rounds + 1 :=
    ⟨min want (size - pos) - 1, by omega⟩
  have hle : rounds + 1 ≤ readAhead := by
    have hchunk_le := readChunk_le
    omega
  have hbounds := ask_bounds (Nat.succ_pos rounds) (by omega) hpos
  rw [Nat.max_eq_right hle] at hbounds
  obtain ⟨hasks, hbound, hlast⟩ := hbounds
  have hdevice : (∃ m', readFromDevice h pos (min readAhead (size - pos)) size m = (.ok [], m')) ↔
      _ := readFromDevice_empty_iff hx hasks (hnames.mono (SameDevice.refl m) hlast) hbound
  have hfits : pos + (rounds + 1) < wordSize := by omega
  have hfirst : readAt h pos (min want (size - pos)) size m =
      fillFrom h pos (rounds + 1) size (rounds + 1) [] m := by
    rw [readAt, if_neg (by omega), checkedSub_of_le (by omega),
      Proc.bind_ok (Proc.ofExcept_ok _ _)]
    rw [show min (min want (size - pos)) (size - pos) = rounds + 1 by omega]
  rw [hfirst, fillFrom, if_pos (by simp), List.length_nil, checkedAdd_of_lt (by omega),
    Proc.bind_ok (Proc.ofExcept_ok _ _), checkedSub_of_le (by omega),
    Proc.bind_ok (Proc.ofExcept_ok _ _), Nat.add_zero, Nat.sub_zero, Dry]
  by_cases hcached : m.Cached h pos
  · -- What the cache holds is the start of the answer.
    obtain ⟨answer, hhit, hsome⟩ := cached_total h m hfits
    cases answer with
    | none => exact absurd hcached ((cached_none_iff hfits).mp hhit)
    | some bytes =>
        obtain ⟨hbytes, hne⟩ := hsome bytes rfl
        obtain ⟨-, hfront⟩ := cached_ok hok hx hhit
        obtain ⟨hfront, -, -⟩ := hfront bytes rfl
        refine ⟨?_, fun hdry => absurd hcached hdry.1⟩
        intro hthere
        obtain ⟨m', hrun⟩ := hthere
        rw [Proc.bind_ok hhit] at hrun
        obtain ⟨-, -, hlonger, -⟩ := fillFrom_ok hx hok hnames (by omega) (by omega)
          (by simpa using hfront) hbytes hrun
        exact absurd (List.length_eq_zero_iff.mp (Nat.le_zero.mp hlonger))
          (by simpa using hne (Nat.succ_pos rounds))
  · rw [Proc.bind_ok ((cached_none_iff hfits).mpr hcached)]
    simp only [checkedSub_of_le (Nat.le_of_lt hpos), Nat.max_eq_right hle]
    rw [Proc.bind_ok (Proc.ofExcept_ok _ _), ← hdevice]
    constructor
    · intro hthere
      obtain ⟨m', hrun⟩ := hthere
      refine ⟨hcached, ?_⟩
      obtain ⟨data, m₁, hread, hrun⟩ := Proc.bind_eq_ok hrun
      by_cases hnil : data.isEmpty
      · rw [List.isEmpty_iff.mp hnil] at hread
        exact ⟨m₁, hread⟩
      · rw [if_neg hnil, Proc.bind_ok (Proc.modify_run _ _)] at hrun
        obtain ⟨hdata, -, hsame, -⟩ := readFromDevice_ok hx hasks
          (hnames.mono (SameDevice.refl m) hlast) hbound hread
        have hne : data ≠ [] := by simpa using hnil
        have hx₁ : m₁.session.store.find h = some x := by
          rw [hsame.store]
          exact hx
        obtain ⟨-, -, hlonger, -⟩ := fillFrom_ok
          (m := { m₁ with cache := some ⟨h, pos, data⟩ }) hx₁ (CacheOk.store hx₁ hdata hne)
          (hnames.mono (hsame.trans (sameDevice_cache m₁ _)) (Nat.le_refl _)) (by omega)
          (by omega) ((List.take_prefix _ _).trans hdata)
          (by rw [List.length_take]; omega) hrun
        have hsome := List.length_pos_iff.mpr hne
        rw [List.length_take, List.length_nil] at hlonger
        omega
    · intro hboth
      obtain ⟨-, m', hread⟩ := hboth
      rw [Proc.bind_ok hread]
      exact ⟨m', rfl⟩

end Mtp

namespace Fs

variable {fs fs' : Fs Phone} {h : UInt32} {x : Object} {size spool pos n rounds : Nat}

/-! ## The copy -/

/-- Some chunk of a copy starts with nothing: at the place the chunks before it
ended, neither the bytes read in advance nor the device give a byte.  `fills`
tells the chunks the spool file does not take whole. -/
inductive Starved (x : Object) (h : UInt32) (size : Nat) (fills : Nat → Option Nat) :
    Nat → Mtp Phone → Prop
  | here {pos : Nat} {m : Mtp Phone} (hpos : pos < size) (hdry : m.Dry x h pos size) :
      Starved x h size fills pos m
  | later {pos : Nat} {m m' : Mtp Phone} {data : Bytes} (hpos : pos < size)
      (hread : Mtp.readAt h pos (min readChunk (size - pos)) size m = (.ok data, m'))
      (hdata : data ≠ []) (htaken : fills pos = none)
      (hmore : Starved x h size fills (pos + data.length) m') : Starved x h size fills pos m

/-- What a copy of an object leaves alone. -/
structure SameMount (fs fs' : Fs Phone) : Prop where
  device : Mtp.SameDevice fs.mtp fs'.mtp
  tree : fs'.tree = fs.tree
  pending : fs'.pending = fs.pending
  host : fs'.host = fs.host

theorem SameMount.refl (fs : Fs Phone) : SameMount fs fs := ⟨.refl _, rfl, rfl, rfl⟩

/-- **What a copy leaves in the spool file**: the bytes of the object up to the
place where the copy ends.  It ends before the recorded size exactly when a chunk
starts with nothing. -/
theorem copyFrom_ok (fs : Fs Phone) (hx : fs.mtp.session.store.find h = some x) (hok : fs.mtp.CacheOk)
    (hnames : fs.mtp.Names (size - 1)) (hsize : size < wordSize) (hpos : pos ≤ size)
    (hrounds : size - pos ≤ rounds) (hfront : fs.spoolBytes spool = x.content.bytes.take pos)
    (hlength : pos ≤ x.content.bytes.length)
    (hrun : copyFrom h size spool rounds pos fs = (.ok n, fs')) :
    SameMount fs fs' ∧ fs'.spoolBytes spool = x.content.bytes.take n ∧
      n ≤ x.content.bytes.length ∧
      (n = size ↔ ¬ Starved x h size fs.host.fills pos fs.mtp) := by
  induction rounds generalizing pos fs with
  | zero =>
      cases hrun
      refine ⟨.refl _, hfront, hlength, fun _ hstarved => ?_, fun _ => by omega⟩
      cases hstarved <;> omega
  | succ rounds ih =>
      rw [copyFrom] at hrun
      by_cases hmore : pos < size
      · rw [if_pos hmore] at hrun
        obtain ⟨answer, fs₁, htry, hrun⟩ := Proc.bind_eq_ok hrun
        rcases hread : Mtp.readAt h pos (min readChunk (size - pos)) size fs.mtp with ⟨r, m₁⟩
        rw [tryMtp_run, hread, Prod.mk.injEq, Except.ok.injEq] at htry
        obtain ⟨rfl, rfl⟩ := htry
        have hempty := Mtp.readAt_empty_iff hx hok hnames hsize hmore
          (show 0 < readChunk by decide) (Nat.le_refl _)
        cases r with
        | error e => cases hrun
        | ok data =>
            obtain ⟨hdata, hdatalen, hsame, hok₁⟩ := Mtp.readAt_ok hx hok hnames
              (Nat.lt_of_le_of_lt (Nat.min_le_left _ _) (by decide)) hread
            have hmount : SameMount fs { fs with mtp := m₁ } := ⟨hsame, rfl, rfl, rfl⟩
            by_cases hnil : data.isEmpty
            · simp only [if_pos hnil] at hrun
              cases hrun
              rw [List.isEmpty_iff.mp hnil] at hread
              refine ⟨hmount, hfront, hlength, fun heq => by omega, fun hnot => ?_⟩
              exact absurd (.here hmore (hempty.mp ⟨_, hread⟩)) hnot
            · simp only [if_neg hnil] at hrun
              rw [Proc.bind_ok (Proc.get_run _)] at hrun
              cases hfills : fs.host.fills pos with
              | some count =>
                  simp only [hfills] at hrun
                  cases hrun
              | none =>
                  simp only [hfills] at hrun
                  rw [Proc.bind_ok (putSpool_run _ _ _)] at hrun
                  have hgrown : fs.spoolBytes spool ++ data =
                      x.content.bytes.take (pos + data.length) := by
                    rw [hfront, List.take_add, ← List.prefix_iff_eq_take.mp hdata]
                  have hinside : pos + data.length ≤ x.content.bytes.length := by
                    have hle := hdata.length_le
                    rw [List.length_drop] at hle
                    omega
                  have hsome := List.length_pos_iff.mpr (show data ≠ [] by simpa using hnil)
                  obtain ⟨hmore₁, hcopied, hfits, hiff⟩ := ih { fs with mtp := m₁, disk := _ }
                    (by rw [hsame.store]; exact hx) hok₁ (hnames.mono hsame (Nat.le_refl _))
                    (by omega) (by omega) ((spoolBytes_put _ _ _).trans hgrown) hinside hrun
                  refine ⟨⟨hsame.trans hmore₁.device, hmore₁.tree, hmore₁.pending, hmore₁.host⟩,
                    hcopied, hfits, ?_⟩
                  rw [hiff, not_iff_not]
                  refine ⟨.later hmore hread (by simpa using hnil) hfills, fun hstarved => ?_⟩
                  cases hstarved with
                  | here _ hdry =>
                      obtain ⟨m', hnone⟩ := hempty.mpr hdry
                      rw [hread, Prod.mk.injEq, Except.ok.injEq] at hnone
                      exact absurd hnone.1 (by simpa using hnil)
                  | later _ hread' _ _ hrest =>
                      rw [hread, Prod.mk.injEq, Except.ok.injEq] at hread'
                      obtain ⟨rfl, rfl⟩ := hread'
                      exact hrest
      · rw [if_neg hmore] at hrun
        cases hrun
        refine ⟨.refl _, hfront, hlength, fun _ hstarved => ?_, fun _ => by omega⟩
        cases hstarved <;> omega

/-- A fault stops a copy: the device refuses the read of a chunk, or the spool file does not take
it whole. -/
inductive CopyStops (h : UInt32) (size : Nat) (fills : Nat → Option Nat) : Nat → Mtp Phone → Prop
  | refused {pos : Nat} {m m' : Mtp Phone} {e : Error} (hpos : pos < size)
      (hread : Mtp.readAt h pos (min readChunk (size - pos)) size m = (.error e, m')) :
      CopyStops h size fills pos m
  | full {pos count : Nat} {m m' : Mtp Phone} {data : Bytes} (hpos : pos < size)
      (hread : Mtp.readAt h pos (min readChunk (size - pos)) size m = (.ok data, m'))
      (hdata : data ≠ []) (hfull : fills pos = some count) : CopyStops h size fills pos m
  | later {pos : Nat} {m m' : Mtp Phone} {data : Bytes} (hpos : pos < size)
      (hread : Mtp.readAt h pos (min readChunk (size - pos)) size m = (.ok data, m'))
      (hdata : data ≠ []) (htaken : fills pos = none)
      (hmore : CopyStops h size fills (pos + data.length) m') : CopyStops h size fills pos m

/-- **A copy fails** exactly where a fault stops it. -/
theorem copyFrom_stops_iff (fs : Fs Phone) (hrounds : size - pos ≤ rounds) :
    (∃ rc fs', copyFrom h size spool rounds pos fs = (.error rc, fs')) ↔
      CopyStops h size fs.host.fills pos fs.mtp := by
  induction rounds generalizing pos fs with
  | zero =>
      constructor
      · intro hfails
        obtain ⟨rc, fs', hrun⟩ := hfails
        cases hrun
      · intro hstops
        cases hstops <;> omega
  | succ rounds ih =>
      rw [copyFrom]
      by_cases hmore : pos < size
      · rw [if_pos hmore, Proc.bind_ok (tryMtp_run _ _)]
        rcases hread : Mtp.readAt h pos (min readChunk (size - pos)) size fs.mtp with ⟨e | data, m⟩
        · exact ⟨fun _ => .refused hmore hread, fun _ => ⟨_, _, rfl⟩⟩
        dsimp only
        by_cases hnil : data.isEmpty
        · rw [if_pos hnil]
          have hempty : data = [] := List.isEmpty_iff.mp hnil
          subst hempty
          constructor
          · intro hfails
            obtain ⟨rc, fs', hrun⟩ := hfails
            cases hrun
          · intro hstops
            cases hstops with
            | refused _ hread' => cases hread.symm.trans hread'
            | full _ hread' hdata _ =>
                cases hread.symm.trans hread'
                exact absurd rfl hdata
            | later _ hread' hdata _ _ =>
                cases hread.symm.trans hread'
                exact absurd rfl hdata
        rw [if_neg hnil, Proc.bind_ok (Proc.get_run _)]
        have hdata : data ≠ [] := fun hempty => hnil (List.isEmpty_iff.mpr hempty)
        dsimp only
        cases hfills : fs.host.fills pos with
        | some count => exact ⟨fun _ => .full hmore hread hdata hfills, fun _ => ⟨_, _, rfl⟩⟩
        | none =>
            dsimp only
            rw [Proc.bind_ok (putSpool_run _ _ _)]
            have hsome := List.length_pos_iff.mpr hdata
            rw [ih _ (by omega)]
            constructor
            · exact fun hstops => .later hmore hread hdata hfills hstops
            · intro hstops
              cases hstops with
              | refused _ hread' => cases hread.symm.trans hread'
              | full _ hread' _ hfull => cases hfills.symm.trans hfull
              | later _ hread' _ _ hrest =>
                  cases hread.symm.trans hread'
                  exact hrest
      · rw [if_neg hmore]
        constructor
        · intro hfails
          obtain ⟨rc, fs', hrun⟩ := hfails
          cases hrun
        · intro hstops
          cases hstops <;> contradiction

/-- The map of entries stays as it is. -/
def SamePending (fs fs' : Fs Phone) : Prop := fs'.pending = fs.pending

theorem SamePending.refl (fs : Fs Phone) : SamePending fs fs := rfl

theorem SamePending.trans {a b c : Fs Phone} (h : SamePending a b) (h' : SamePending b c) :
    SamePending a c := Eq.trans h' h

/-- A copy leaves the map of entries alone, however it ends. -/
theorem copyFrom_pending : Proc.Steps SamePending (copyFrom h size spool rounds pos) := by
  induction rounds generalizing pos with
  | zero => exact .pure SamePending.refl _
  | succ rounds ih =>
      unfold copyFrom
      split
      · refine .bind (R := SamePending) SamePending.trans (fun _ => rfl) fun answer => ?_
        split
        · exact .fail SamePending.refl _
        · split
          · exact .pure SamePending.refl _
          · refine .bind (R := SamePending) SamePending.trans (.get SamePending.refl) fun fs => ?_
            split
            · exact .bind (R := SamePending) SamePending.trans (fun _ => rfl) fun _ =>
                .fail SamePending.refl _
            · exact .bind (R := SamePending) SamePending.trans (fun _ => rfl) fun _ => ih
      · exact .pure SamePending.refl _

/-! ## The adoption -/

/-- The host has room for a copy of a file, as far as it knows. -/
def RoomFor (fs : Fs Phone) (size : Nat) : Prop := ∀ free, fs.host.free = some free → size ≤ free

/-- An adoption reaches the copy: the file is not empty, the host has room, and a
spool file can be made. -/
def ReachesCopy (fs : Fs Phone) (size : Nat) : Prop :=
  0 < size ∧ fs.RoomFor size ∧ fs.host.makes = true

/-- An adoption makes no entry: the host has no room, no spool file can be made, or a fault stops
the copy. -/
def NoEntry (fs : Fs Phone) (h : UInt32) (size : Nat) : Prop :=
  (0 < size ∧ ¬ fs.RoomFor size) ∨ fs.host.makes = false ∨ CopyStops h size fs.host.fills 0 fs.mtp

/-- What an adoption owes its caller: an error and no entry, or an entry whose spool file holds the
whole object, which is as long as the recorded size says. -/
def WholeOrNothing (x : Object) (path : Str) (entry : Entry) (fs : Fs Phone) :
    Except Int Unit × Fs Phone → Prop
  | (.error _, fs') => fs'.pending = fs.pending
  | (.ok (), fs') =>
      entry.size = x.content.bytes.length ∧
        ∃ p, fs'.pending = Function.update fs.pending path (some p) ∧ p.size = entry.size ∧
          fs'.disk p.spool = some x.content.bytes

theorem checkRoom_nothing : checkRoom 0 true fs = (.ok (), fs) := by
  rw [checkRoom, Proc.bind_ok (Proc.get_run _), if_neg (fun h => absurd h.2 (Nat.lt_irrefl 0))]
  rfl

theorem checkRoom_run (hsize : 0 < size) (hroom : fs.RoomFor size) :
    checkRoom size true fs = (.ok (), fs) := by
  rw [checkRoom, Proc.bind_ok (Proc.get_run _), if_pos ⟨rfl, hsize⟩]
  cases hfree : fs.host.free with
  | none => rfl
  | some free =>
      have hle := hroom free hfree
      simp only [if_neg (Nat.not_lt.mpr hle)]
      rfl

theorem checkRoom_refuses (hsize : 0 < size) (hroom : ¬ fs.RoomFor size) :
    checkRoom size true fs = (.error (-Libc.ENOSPC), fs) := by
  rw [checkRoom, Proc.bind_ok (Proc.get_run _), if_pos ⟨rfl, hsize⟩]
  cases hfree : fs.host.free with
  | none => exact absurd (fun free hf => by rw [hfree] at hf; cases hf) hroom
  | some free =>
      have hgt : size > free := by
        by_contra hle
        refine hroom fun free' hf => ?_
        rw [hfree, Option.some.injEq] at hf
        omega
      simp only [if_pos hgt]
      rfl

/-- Nothing stops a copy of no bytes. -/
theorem not_copyStops_zero {fills : Nat → Option Nat} {m : Mtp Phone} :
    ¬ CopyStops h 0 fills 0 m := by
  intro hstops
  cases hstops <;> omega

/-- An adoption that makes no entry ends in an error, and leaves the map of entries alone. -/
theorem adoptForWrite_refused {path : Str} {entry : Entry} (hnone : NoEntry fs h entry.size) :
    ∃ rc fs', adoptForWrite path h entry true fs = (.error rc, fs') ∧ fs'.pending = fs.pending := by
  rw [adoptForWrite]
  by_cases hzero : 0 < entry.size
  · by_cases hroom : fs.RoomFor entry.size
    · rw [Proc.bind_ok (checkRoom_run hzero hroom)]
      cases hmakes : fs.host.makes with
      | false => exact ⟨_, _, Proc.bind_error (makeSpool_refuses hmakes), rfl⟩
      | true =>
          rcases hnone with ⟨-, hno⟩ | hno | hstops
          · exact absurd hroom hno
          · cases hmakes.symm.trans hno
          obtain ⟨rc, fs', hcopy⟩ := (@copyFrom_stops_iff h entry.size fs.spoolCount 0 entry.size
            fs.withSpool (Nat.le_refl _)).mpr hstops
          have hsame := @copyFrom_pending h entry.size fs.spoolCount 0 entry.size fs.withSpool
          rw [hcopy] at hsame
          rw [Proc.bind_ok (makeSpool_run hmakes), if_pos ⟨rfl, hzero⟩, copyObjectToSpool]
          exact ⟨rc, fs', Proc.bind_error hcopy, hsame⟩
    · exact ⟨_, _, Proc.bind_error (checkRoom_refuses hzero hroom), rfl⟩
  · have hempty : entry.size = 0 := Nat.eq_zero_of_not_pos hzero
    rw [hempty] at hnone ⊢
    rcases hnone with ⟨hpos, -⟩ | hno | hstops
    · exact absurd hpos (Nat.lt_irrefl 0)
    · rw [Proc.bind_ok checkRoom_nothing]
      exact ⟨_, _, Proc.bind_error (makeSpool_refuses hno), rfl⟩
    · exact absurd hstops not_copyStops_zero

/-- What an adoption makes otherwise: an entry for the first bytes of the object, as many as the
copy took, which are as many as the recorded size says unless a chunk starts with nothing. -/
theorem adoptForWrite_made {path : Str} {entry : Entry}
    (hx : fs.mtp.session.store.find h = some x) (hok : fs.mtp.CacheOk)
    (hsize : entry.size < wordSize) (hnames : fs.mtp.Names (entry.size - 1))
    (hfree : fs.pending path = none) (hentry : ¬ NoEntry fs h entry.size) :
    ∃ n fs', adoptForWrite path h entry true fs = (.ok (), fs') ∧
      fs'.pending = Function.update fs.pending path (some (adopted h entry fs.spoolCount n)) ∧
      fs'.disk fs.spoolCount = some (x.content.bytes.take n) ∧ n ≤ x.content.bytes.length ∧
      (n = entry.size ↔
        (ReachesCopy fs entry.size → ¬ Starved x h entry.size fs.host.fills 0 fs.mtp)) := by
  have hmakes : fs.host.makes = true := by
    cases hmakes : fs.host.makes with
    | true => rfl
    | false => exact absurd (.inr (.inl hmakes)) hentry
  rw [adoptForWrite]
  by_cases hzero : 0 < entry.size
  · have hroom : fs.RoomFor entry.size := by
      by_contra hno
      exact hentry (.inl ⟨hzero, hno⟩)
    rw [Proc.bind_ok (checkRoom_run hzero hroom), Proc.bind_ok (makeSpool_run hmakes),
      if_pos ⟨rfl, hzero⟩, copyObjectToSpool]
    rcases hcopy : copyFrom h entry.size fs.spoolCount entry.size 0 fs.withSpool with ⟨rc | n, fs'⟩
    · have hstops := (@copyFrom_stops_iff h entry.size fs.spoolCount 0 entry.size fs.withSpool
        (Nat.le_refl _)).mp ⟨rc, fs', hcopy⟩
      exact absurd (.inr (.inr hstops)) hentry
    obtain ⟨hmount, hbytes, hle, hiff⟩ := copyFrom_ok fs.withSpool hx hok hnames hsize
      (Nat.zero_le _) (Nat.le_refl _) (spoolBytes_withSpool fs) (Nat.zero_le _) hcopy
    have hdisk : fs'.disk fs.spoolCount = some (x.content.bytes.take n) := by
      have hfills := copyFrom_fills chains_anything (fun _ _ _ _ => steps_anything _) h entry.size
        fs.spoolCount entry.size 0 fs.withSpool
      rw [hcopy] at hfills
      have hmade : (fs.withSpool.disk fs.spoolCount).isSome := by
        rw [withSpool]
        simp only [Function.update_self, Option.isSome_some]
      obtain ⟨bytes, hdisk⟩ := Option.isSome_iff_exists.mp (hfills.there hmade)
      rw [spoolBytes, hdisk, Option.getD_some] at hbytes
      rw [hdisk, hbytes]
    have hfree' : fs'.pending path = none := by
      rw [hmount.pending]
      exact hfree
    rw [Proc.bind_ok hcopy]
    dsimp only
    rw [insertPending_free hfree']
    refine ⟨n, _, rfl, ?_, hdisk, hle, hiff.trans ?_⟩
    · rw [withEntry, hmount.pending]
      rfl
    · exact ⟨fun hno _ => hno, fun hno => hno ⟨hzero, hroom, hmakes⟩⟩
  · have hempty : entry.size = 0 := Nat.eq_zero_of_not_pos hzero
    have hfree' : fs.withSpool.pending path = none := hfree
    rw [hempty, Proc.bind_ok checkRoom_nothing, Proc.bind_ok (makeSpool_run hmakes),
      if_neg (fun h => absurd h.2 (Nat.lt_irrefl 0)), Proc.bind_ok (Proc.pure_run _ _)]
    dsimp only
    rw [insertPending_free hfree']
    refine ⟨0, _, rfl, rfl, ?_, Nat.zero_le _, fun _ hreach => ?_, fun _ => rfl⟩
    · simp only [withEntry, withSpool, Function.update_self, List.take_zero]
    · exact absurd hreach.1 (Nat.lt_irrefl 0)

/-- **An adoption makes an entry for the whole object, or none**, exactly when no chunk of the copy
starts with nothing, and the recorded size is not below the length of the object unless there is no
entry anyway. -/
theorem adoptForWrite_whole_iff {path : Str} {entry : Entry}
    (hx : fs.mtp.session.store.find h = some x) (hok : fs.mtp.CacheOk)
    (hsize : entry.size < wordSize) (hnames : fs.mtp.Names (entry.size - 1))
    (hfree : fs.pending path = none) :
    WholeOrNothing x path entry fs (adoptForWrite path h entry true fs) ↔
      NoEntry fs h entry.size ∨ (x.content.bytes.length ≤ entry.size ∧
        (ReachesCopy fs entry.size → ¬ Starved x h entry.size fs.host.fills 0 fs.mtp)) := by
  by_cases hentry : NoEntry fs h entry.size
  · obtain ⟨rc, fs', hrun, hsame⟩ := @adoptForWrite_refused fs h path entry hentry
    rw [hrun]
    exact ⟨fun _ => .inl hentry, fun _ => hsame⟩
  · obtain ⟨n, fs', hrun, hp, hdisk, hle, hiff⟩ :=
      adoptForWrite_made hx hok hsize hnames hfree hentry
    rw [hrun]
    constructor
    · intro hwhole
      obtain ⟨hlong, q, hq, hqsize, -⟩ := hwhole
      have hsame := congrFun (hp.symm.trans hq) path
      rw [Function.update_self, Function.update_self] at hsame
      cases hsame
      exact .inr ⟨Nat.le_of_eq hlong.symm, hiff.mp hqsize⟩
    · intro hcond
      obtain ⟨hlong, hfed⟩ := hcond.resolve_left hentry
      obtain rfl := hiff.mpr hfed
      refine ⟨Nat.le_antisymm hle hlong, _, hp, rfl, ?_⟩
      show fs'.disk fs.spoolCount = some x.content.bytes
      rw [hdisk, List.take_of_length_le hlong]

end Fs

end Bsdroid
