import Bsdroid.Mtpfs.NamesSent
import Bsdroid.Mtpfs.NeverStale
import Bsdroid.Mtpfs.SpoolRuns
import Bsdroid.Mtpfs.Unique

/-!
# What a close acknowledges

A program writes a file through the entry of its path while other programs use the mount.  The
first close that answers 0 says that the device holds what the program wrote
(`Fs.close_delivers_the_file`), whatever the device refused on the way; and nothing that comes
after it changes those bytes, so that every later read of the object gives them
(`Fs.delivered_file_is_read`).
-/

namespace Bsdroid

namespace Fs

section

variable {σ : Type} [Logged σ]

/-! ## A file among other files -/

/-- What a call with an answer makes of the file that the entry of a path stands for. -/
def Call.makes (path : Str) (c : Call) (answer : Except Int Int)
    (file : Option (SparseFile UInt8)) : Option (SparseFile UInt8) :=
  match c with
  | .write other bytes offset =>
      if other = path then (Edit.write bytes offset).apply answer file else file
  | .truncate other size => if other = path then (Edit.truncate size).apply answer file else file
  | _ => file

/-- One call on the mount, and what it makes of the file of a path. -/
def follow (path : Str) (s : Fs σ × Option (SparseFile UInt8)) (e : Host × Call) :
    Fs σ × Option (SparseFile UInt8) :=
  (s.1.step e, e.2.makes path (s.1.call e).1 s.2)

/-- A call that leaves the entry of a path in the map and unsent.  A write of the path brings at
least one byte. -/
structure Call.LeavesOpen (path : Str) (c : Call) : Prop where
  fresh : c ≠ .create path
  unsent : ¬ c.Finishes path
  bytes : ∀ bytes offset, c = .write path bytes offset → bytes ≠ []

/-- The entry of a path stands for a file, or a write failed; it goes to this folder under this
name, and was not sent. -/
structure Writing (path : Str) (parent : UInt32) (name : Str)
    (s : Fs σ × Option (SparseFile UInt8)) : Prop where
  tidy : Tidy s.1
  tracks : Tracks path s
  entry : ∃ p, s.1.pending path = some p ∧ p.parent = parent ∧ p.name = name ∧ p.sent = none

variable {fs fs' : Fs σ} {path name : Str} {parent : UInt32} {p : Pending}
  {file : Option (SparseFile UInt8)}

omit [Logged σ] in
theorem Call.makes_other {c : Call} (hother : c.touches ≠ some path) (answer : Except Int Int) :
    c.makes path answer file = file := by
  cases c with
  | write other bytes offset => exact if_neg fun hsame => hother (congrArg some hsame)
  | truncate other size => exact if_neg fun hsame => hother (congrArg some hsame)
  | _ => rfl

/-- **A call leaves the spool files of the other paths alone.** -/
theorem Effect.spool_other {R : Mtp σ → Mtp σ → Prop} {c : Call} {answer : Except Int Int}
    (heffect : Effect R fs c answer fs') (htidy : Tidy fs) (hp : fs.pending path = some p)
    (hother : c.touches ≠ some path) : fs'.disk p.spool = fs.disk p.spool := by
  have hne : ∀ {path'}, c.touches = some path' → path ≠ path' := by
    intro path' htouches heq
    subst heq
    exact hother htouches
  have hown : ∀ {path' q}, c.touches = some path' → fs.pending path' = some q →
      p.spool ≠ q.spool := by
    intro path' q htouches hq hsame
    exact hne htouches (htidy.apart path path' p q hp hq hsame)
  have hcounted : p.spool < fs.spoolCount := htidy.counted path p hp
  have hcopied : ∀ {fs₁ fs₂ : Fs σ}, Keeps R fs fs₁ → Fills R fs₁.spoolCount fs₁.withSpool fs₂ →
      fs₂.disk p.spool = fs.disk p.spool := by
    intro fs₁ fs₂ hkeeps hfills
    have hlate : p.spool ≠ fs₁.spoolCount := Nat.ne_of_lt (hcounted.trans_le hkeeps.count)
    rw [hfills.others _ hlate]
    show Function.update fs₁.disk fs₁.spoolCount (some []) p.spool = _
    rw [Function.update_of_ne hlate, hkeeps.disk]
  cases heffect with
  | keeps hkeeps => rw [hkeeps.disk]
  | wrote hq hdown hall => exact Function.update_of_ne (hown rfl hq) _ _
  | broke hq => exact Function.update_of_ne (hown rfl hq) _ _
  | resized hq => exact Function.update_of_ne (hown rfl hq) _ _
  | flushed hfi hq hsent hsend hkeeps hsame => exact congrFun hkeeps.disk _
  | released hfi hq hsend hkeeps hsame =>
      rw [disk_dropped (hsame.spool ▸ hown rfl hq), hkeeps.disk]
      rfl
  | @created path' parent fs₁ hkeeps =>
      have hlate : p.spool ≠ fs₁.spoolCount := Nat.ne_of_lt (hcounted.trans_le hkeeps.count)
      rw [disk_replaced fun old hold => ?_]
      · show Function.update fs₁.disk fs₁.spoolCount (some []) p.spool = _
        rw [Function.update_of_ne hlate, hkeeps.disk]
      · exact hown rfl ((congrFun hkeeps.pending path').symm.trans hold)
  | opened hwrites hreaches hfills hdisk hempty =>
      have hsame := hcopied hreaches.keeps hfills
      exact hsame
  | openStray hwrites hreaches hcopy hfills => exact hcopied hreaches.keeps hfills
  | truncateStray hreaches hcopy hfills => exact hcopied hreaches.keeps hfills
  | truncateLeft hreaches hadopts hfills hdisk hresizes =>
      have hsame := hcopied hreaches.keeps hfills
      exact hsame
  | @truncated path size handle entry bytes q rc fs₁ fs₂ fs₃ hreaches hadopts hfills hdisk hresizes
      hsend hkeeps hsame =>
      have hlate : p.spool ≠ fs₁.spoolCount :=
        Nat.ne_of_lt (hcounted.trans_le hreaches.keeps.count)
      rw [disk_dropped (hsame.spool ▸ hlate), hkeeps.disk]
      show Function.update fs₂.disk fs₁.spoolCount _ p.spool = _
      rw [Function.update_of_ne hlate]
      exact hcopied hreaches.keeps hfills

omit [Logged σ] in
/-- An entry and its spool file that stay as they are stand for the same file. -/
theorem Tracks.of_same (h : Tracks path (fs, file)) (hpending : fs'.pending path = fs.pending path)
    (hdisk : ∀ p, fs.pending path = some p → fs'.disk p.spool = fs.disk p.spool) :
    Tracks path (fs', file) := by
  cases file with
  | none =>
      obtain ⟨p, rc, hp, hrc⟩ := h
      exact ⟨p, rc, hpending.trans hp, hrc⟩
  | some f =>
      obtain ⟨p, bytes, hp, hbroken, hspool, hrest⟩ := h
      exact ⟨p, bytes, hpending.trans hp, hbroken, (hdisk p hp).trans hspool, hrest⟩

/-- **A call that leaves the entry open** keeps it in step with the file. -/
theorem Writing.step {s : Fs σ × Option (SparseFile UInt8)} (h : Writing path parent name s)
    {e : Host × Call} (hopen : e.2.LeavesOpen path) : Writing path parent name (follow path s e) := by
  obtain ⟨fs, file⟩ := s
  obtain ⟨p, hp, hparent, hname, hsent⟩ := h.entry
  have hp' : ({ fs with host := e.1 } : Fs σ).pending path = some p := hp
  have htidy : Tidy ({ fs with host := e.1 } : Fs σ) :=
    ⟨h.tidy.counted, h.tidy.apart, h.tidy.there, h.tidy.made⟩
  have heffect := call_effect respects_anything fs e
  refine ⟨h.tidy.step e, ?_, ?_⟩
  · by_cases htouches : e.2.touches = some path
    swap
    · rw [follow, e.2.makes_other htouches]
      refine h.tracks.of_same (heffect.other htouches) fun q hq => ?_
      exact heffect.spool_other htidy hq htouches
    obtain ⟨host, c⟩ := e
    have hkept : c.makes path (fs.call (host, c)).1 file = file →
        (fs.step (host, c)).pending path = fs.pending path ∧
          (fs.step (host, c)).disk = fs.disk → Tracks path (follow path (fs, file) (host, c)) := by
      intro hfile hboth
      obtain ⟨hpending, hdisk⟩ := hboth
      rw [follow, hfile]
      exact h.tracks.of_same hpending fun q _ => congrFun hdisk _
    cases c with
    | write other bytes offset =>
        cases htouches
        have htracks := tracks_write h.tracks (hopen.bytes bytes offset rfl) host offset
        rw [follow, Call.makes, if_pos rfl]
        exact htracks
    | truncate other size =>
        cases htouches
        have htracks := tracks_truncate h.tracks host size
        rw [follow, Call.makes, if_pos rfl]
        exact htracks
    | create other =>
        cases htouches
        exact absurd rfl hopen.fresh
    | opens other flags =>
        cases htouches
        apply hkept rfl
        rw [Fs.step]
        generalize fs.call (host, .opens path flags) = result at heffect
        obtain ⟨answer, fs'⟩ := result
        cases heffect with
        | keeps hkeeps => exact ⟨congrFun hkeeps.pending path, hkeeps.disk⟩
        | opened hwrites hreaches hfills hdisk hempty =>
            exact absurd (hp'.symm.trans hreaches.free) (Option.some_ne_none p)
        | openStray hwrites hreaches hcopy hfills =>
            exact absurd (hp'.symm.trans hreaches.free) (Option.some_ne_none p)
    | flush other fi =>
        cases htouches
        have hfi : fhWrites fi = false := by
          by_contra hwrites
          exact hopen.unsent ⟨fi, Bool.eq_true_of_not_eq_false hwrites, .inl rfl⟩
        apply hkept rfl
        rw [Fs.step, Fs.call, Call.number, opFlush_reader hfi]
        exact ⟨rfl, rfl⟩
    | release other fi =>
        cases htouches
        have hfi : fhWrites fi = false := by
          by_contra hwrites
          exact hopen.unsent ⟨fi, Bool.eq_true_of_not_eq_false hwrites, .inr rfl⟩
        apply hkept rfl
        rw [Fs.step, Fs.call, Call.number, opRelease_reader hfi]
        exact ⟨rfl, rfl⟩
    | _ => cases htouches
  · by_cases htouches : e.2.touches = some path
    swap
    · exact ⟨p, (heffect.other htouches).trans hp, hparent, hname, hsent⟩
    obtain ⟨host, c⟩ := e
    rw [follow, Fs.step]
    generalize fs.call (host, c) = result at heffect ⊢
    obtain ⟨answer, fs'⟩ := result
    cases heffect with
    | keeps hkeeps => exact ⟨p, (congrFun hkeeps.pending path).trans hp, hparent, hname, hsent⟩
    | wrote hq hdown hall =>
        cases htouches
        cases hp'.symm.trans hq
        exact ⟨_, Function.update_self .., hparent, hname, hsent⟩
    | broke hq =>
        cases htouches
        cases hp'.symm.trans hq
        exact ⟨_, Function.update_self .., hparent, hname, hsent⟩
    | resized hq =>
        cases htouches
        cases hp'.symm.trans hq
        exact ⟨_, Function.update_self .., hparent, hname, hsent⟩
    | flushed hfi hq _ hsend hkeeps hsame =>
        cases htouches
        exact absurd ⟨_, hfi, .inl rfl⟩ hopen.unsent
    | released hfi hq hsend hkeeps hsame =>
        cases htouches
        exact absurd ⟨_, hfi, .inr rfl⟩ hopen.unsent
    | created hkeeps =>
        cases htouches
        exact absurd rfl hopen.fresh
    | opened hwrites hreaches hfills hdisk hempty =>
        cases htouches
        exact absurd (hp'.symm.trans hreaches.free) (Option.some_ne_none p)
    | openStray hwrites hreaches hcopy hfills =>
        cases htouches
        exact absurd (hp'.symm.trans hreaches.free) (Option.some_ne_none p)
    | truncateStray hreaches hcopy hfills =>
        cases htouches
        exact absurd (hp'.symm.trans hreaches.free) (Option.some_ne_none p)
    | truncateLeft hreaches hadopts hfills hdisk hresizes =>
        cases htouches
        exact absurd (hp'.symm.trans hreaches.free) (Option.some_ne_none p)
    | truncated hreaches hadopts hfills hdisk hresizes hsend hkeeps hsame =>
        cases htouches
        exact absurd (hp'.symm.trans hreaches.free) (Option.some_ne_none p)

/-- An entry that a call makes was not sent. -/
theorem Effect.unsent_of_free {R : Mtp σ → Mtp σ → Prop} {c : Call} {answer : Except Int Int}
    (heffect : Effect R fs c answer fs') (hfree : fs.pending path = none)
    (hp : fs'.pending path = some p) : p.sent = none := by
  by_cases htouches : c.touches = some path
  swap
  · rw [heffect.other htouches, hfree] at hp
    cases hp
  have hcopied : ∀ {fs₁ fs₂ : Fs σ}, Keeps R fs fs₁ →
      Fills R fs₁.spoolCount fs₁.withSpool fs₂ → fs₂.pending path = none := by
    intro fs₁ fs₂ hkeeps hfills
    exact (congrFun (hfills.pending.trans hkeeps.pending) path).trans hfree
  cases heffect with
  | keeps hkeeps =>
      rw [hkeeps.pending, hfree] at hp
      cases hp
  | wrote hq hdown hall =>
      cases htouches
      cases hq.symm.trans hfree
  | broke hq =>
      cases htouches
      cases hq.symm.trans hfree
  | resized hq =>
      cases htouches
      cases hq.symm.trans hfree
  | flushed hfi hq hsent hsend hkeeps hsame =>
      cases htouches
      cases hq.symm.trans hfree
  | released hfi hq hsend hkeeps hsame =>
      cases htouches
      cases hq.symm.trans hfree
  | @created _ parent fs₁ hkeeps =>
      cases htouches
      rw [pending_replaced] at hp
      cases (Function.update_self ..).symm.trans hp
      rfl
  | opened hwrites hreaches hfills hdisk hempty =>
      cases htouches
      cases (Function.update_self ..).symm.trans hp
      rfl
  | openStray hwrites hreaches hcopy hfills =>
      cases (hcopied hreaches.keeps hfills).symm.trans hp
  | truncateStray hreaches hcopy hfills =>
      cases (hcopied hreaches.keeps hfills).symm.trans hp
  | truncateLeft hreaches hadopts hfills hdisk hresizes =>
      cases htouches
      cases (Function.update_self ..).symm.trans hp
      rfl
  | truncated hreaches hadopts hfills hdisk hresizes hsend hkeeps hsame =>
      rw [pending_dropped, hkeeps.pending] at hp
      cases (hcopied hreaches.keeps hfills).symm.trans hp

/-- A file that starts is written through an entry that was not sent. -/
theorem Starts.writing {f : SparseFile UInt8} (htidy : Tidy fs) (h : Starts path fs fs' f) :
    ∃ parent name, Writing path parent name (fs', some f) := by
  have hholds := h.holds htidy
  obtain ⟨p, bytes, hp, hrest⟩ := id hholds
  have hbuild : Tidy fs' → p.sent = none → ∃ parent name, Writing path parent name (fs', some f) :=
    fun htidy' hsent => ⟨p.parent, p.name, htidy', hholds, p, hp, rfl, rfl, hsent⟩
  have hcalled : ∀ {e : Host × Call} {a : Except Int Int}, fs.call e = (a, fs') → Tidy fs' := by
    intro e a hcall
    have hstep := htidy.step e
    rw [step, hcall] at hstep
    exact hstep
  have hmade : ∀ {e : Host × Call} {a : Except Int Int}, fs.call e = (a, fs') →
      fs.pending path = none → p.sent = none := by
    intro e a hcall hfree
    have heffect := call_effect respects_anything fs e
    rw [hcall] at heffect
    exact heffect.unsent_of_free hfree hp
  cases h with
  | @created host n hcall =>
      refine hbuild (hcalled hcall) ?_
      rcases opCreate_cases chains_anything (fun _ => steps_anything _) path
        ({ fs with host := host } : Fs σ) with ⟨rc, fs₁, hrun, -⟩ | ⟨parent, fs₁, hrun, hkeeps⟩
      · rw [call, Call.number, Proc.bind_error hrun] at hcall
        cases hcall
      · rw [call, Call.number, Proc.bind_ok hrun] at hcall
        cases hcall
        rw [pending_replaced] at hp
        cases (Function.update_self ..).symm.trans hp
        rfl
  | emptied hfree hwrites htrunc hcall => exact hbuild (hcalled hcall) (hmade hcall hfree)
  | copied hfree hwrites hkeep hcall hq => exact hbuild (hcalled hcall) (hmade hcall hfree)
  | left hfree hcall hq => exact hbuild (hcalled hcall) (hmade hcall hfree)

/-! ## A send that answers 0 -/

/-- What a step before the send gives: the entry, with what it replaces or with nothing to
replace, or an error number. -/
def Readies (p : Pending) (x : Proc Int (Fs σ) (Pending × Bool)) : Prop :=
  Proc.Triple (fun _ => True) x
    (fun a _ => SameFile p a.1 ∧ (a.1.replaces = p.replaces ∨ a.1.replaces = none)) fun rc _ => rc ≠ 0

omit [Logged σ] in
theorem Readies.tryMtp {α : Type} {x : Proc Error (Mtp σ) α}
    {f : Except Error α → Proc Int (Fs σ) (Pending × Bool)} (hf : ∀ a, Readies p (f a)) :
    Readies p (tryMtp x >>= f) :=
  Proc.Triple.bind (Q := fun _ _ => True) (fun _ _ => trivial) hf

theorem makeRoom_readies (p : Pending) : Readies p (makeRoom p : Proc Int (Fs σ) _) := by
  have hfail : ∀ {rc : Int}, rc ≠ 0 → Readies p (Proc.fail rc : Proc Int (Fs σ) _) :=
    fun hrc => .fail fun _ _ => hrc
  have hall : ∀ oldCopyExists, Readies p (pure (p, oldCopyExists) : Proc Int (Fs σ) _) :=
    fun _ => .pure fun _ _ => ⟨.refl p, .inl rfl⟩
  have hif : ∀ {c : Prop} [Decidable c] {x y : Proc Int (Fs σ) (Pending × Bool)},
      Readies p x → Readies p y → Readies p (if c then x else y) := by
    intro c _ x y hx hy
    split
    · exact hx
    · exact hy
  unfold makeRoom
  split
  · exact hall true
  · refine .get_bind fun fs => .weaken ?_ (fun _ _ => trivial) (fun _ _ h => h) fun _ _ h => h
    refine Readies.tryMtp fun info => ?_
    refine hif ?_ (hif ?_ (hfail (by decide)))
    · refine Proc.Triple.bind (Q := fun _ _ => True) (fun _ _ => trivial) fun aside => ?_
      refine Readies.tryMtp fun answer => ?_
      split
      · exact hall true
      · exact hfail (by decide)
    · refine Readies.tryMtp fun answer => ?_
      split
      · exact .pure fun _ _ => ⟨⟨rfl, rfl, rfl, rfl, rfl, rfl⟩, .inr rfl⟩
      · exact hfail (by decide)

/-- An entry that no write broke. -/
theorem readyToSend_readies (hwhole : p.broken = none) :
    Readies p (readyToSend p : Proc Int (Fs σ) _) := by
  refine .get_bind fun fs => .weaken ?_ (fun _ _ => trivial) (fun _ _ h => h) fun _ _ h => h
  rw [hwhole]
  dsimp only
  split
  · exact makeRoom_readies p
  · exact .fail fun _ _ => by decide

/-- **A send that answers 0** sent the file of the entry, and then removed what it replaced. -/
theorem sendPending_sent {q : Pending} (hwhole : p.broken = none)
    (hrun : (sendPending p : Proc Int (Fs σ) _) fs = (.ok (0, q), fs')) :
    ∃ a oldCopyExists fs₁ k m, readyToSend p fs = (.ok (a, oldCopyExists), fs₁) ∧ SameFile p a ∧
      (a.replaces = p.replaces ∨ a.replaces = none) ∧
      Mtp.sendObjectStream a.parent a.name
        (readerOf fs₁.host.reading (fs₁.spoolBytes a.spool)) a.size fs₁.mtp = (.ok k, m) ∧
      (fs'.mtp = m ∨ ∃ old, a.replaces = some old ∧ fs'.mtp = (Mtp.deleteObject old m).2) := by
  rw [sendPending, Proc.bind_run, Proc.attempt] at hrun
  have hreadies := readyToSend_readies hwhole fs trivial
  rcases hready : readyToSend p fs with ⟨rc | ⟨a, oldCopyExists⟩, fs₁⟩
  · rw [hready] at hrun hreadies
    cases hrun
    exact absurd rfl hreadies
  rw [hready] at hrun hreadies
  obtain ⟨hsame, hless⟩ := hreadies
  change deliver a oldCopyExists fs₁ = _ at hrun
  rw [deliver, Proc.bind_ok (Proc.get_run _), Proc.bind_ok (tryMtp_run _ _)] at hrun
  refine ⟨a, oldCopyExists, fs₁, ?_⟩
  rcases hstream : Mtp.sendObjectStream a.parent a.name
    (readerOf fs₁.host.reading (fs₁.spoolBytes a.spool)) a.size fs₁.mtp with ⟨e | k, m⟩
  · rw [hstream] at hrun
    dsimp only at hrun
    cases hold : a.replaces with
    | none =>
        rw [hold] at hrun
        cases hrun
    | some old =>
        rw [hold] at hrun
        cases hrun
  · refine ⟨k, m, rfl, hsame, hless, rfl, ?_⟩
    rw [hstream] at hrun
    dsimp only at hrun
    cases hold : a.replaces with
    | none =>
        rw [hold] at hrun
        cases hrun
        exact .inl rfl
    | some old =>
        rw [hold] at hrun
        cases hrun
        exact .inr ⟨old, rfl, rfl⟩

omit [Logged σ] in
/-- The first state of a run that follows a file is a state of the run. -/
theorem follow_state [Logged σ] (later : List (Host × Call)) (file : Option (SparseFile UInt8)) :
    (Run.after (follow path) (fs, file) later).1 = fs.run later := by
  induction later generalizing fs file with
  | nil => rfl
  | cons e later ih => exact ih _

theorem Starts.is_step {f : SparseFile UInt8} (h : Starts path fs fs' f) :
    ∃ e, fs' = fs.step e := by
  cases h with
  | created hcall => exact ⟨_, (congrArg Prod.snd hcall).symm⟩
  | emptied hfree hwrites htrunc hcall => exact ⟨_, (congrArg Prod.snd hcall).symm⟩
  | copied hfree hwrites hkeep hcall hq => exact ⟨_, (congrArg Prod.snd hcall).symm⟩
  | left hfree hcall hq => exact ⟨_, (congrArg Prod.snd hcall).symm⟩

end

end Fs

/-! ## The device -/

/-- A change brought a whole file, under a handle that was never given before, into the folder that
the argument names. -/
structure Store.Brought (s s' : Store) (parent : UInt32) (name : Str) (bytes : Bytes)
    (x : Object) : Prop where
  fresh : x.key ∉ s.used
  found : s'.find x.key = some x
  file : x.folder = false
  folder : x.parent = Phone.folderOf (Mtp.parentArg parent)
  name : x.name = Utf16.fit 254 name
  whole : x.content.whole = true
  bytes : x.content.bytes = bytes

namespace Mtp

variable {m m' : Mtp Phone} {parent old k : UInt32} {name : Str} {size : Nat}
  {reader : List ReadAnswer}

/-- **A send that works** brings the bytes that the reader gave. -/
theorem sendObjectStream_brings (hrun : sendObjectStream parent name reader size m = (.ok k, m')) :
    ∃ x bytes, x.key = k ∧ Phone.received (sendRequest size reader) = .ok bytes ∧
      Store.Brought m.session.store m'.session.store parent name bytes x := by
  have hends := (sendObjectStream_ends parent name size reader m).2 k
  have hadds := sendObjectStream_adds parent name reader size m
  rw [hrun] at hends hadds
  obtain ⟨hfresh, bytes, hreceived, x, hx, hfile, hname, hwhole, hbytes⟩ := hends rfl
  have hkey : x.key = k := Store.find_key hx
  subst hkey
  refine ⟨x, bytes, rfl, hreceived, hfresh, hx, hfile, ?_, hname, hwhole, hbytes⟩
  have hspot : m'.session.store.spotOf x.key = some (x.parent, x.name) := by
    rw [Store.spotOf, hx]
    rfl
  have hnone : m.session.store.spotOf x.key = none := by
    rw [Store.spotOf]
    cases hy : m.session.store.find x.key with
    | none => rfl
    | some y => exact absurd (Store.mem_used_of_find hy) hfresh
  rcases hadds with hsame | ⟨j, -, hone⟩
  · rw [hsame, hnone] at hspot
    cases hspot
  · rw [hone] at hspot
    split at hspot
    · exact (Prod.mk.inj (Option.some.inj hspot)).1.symm
    · rw [hnone] at hspot
      cases hspot

/-- The delete of a file leaves what a send brought. -/
theorem brought_deleteObject {s : Store} {bytes : Bytes} {x : Object}
    (hx : s.Brought m.session.store parent name bytes x) (hkind : m.session.store.Kind old false)
    (hne : x.key ≠ old) : s.Brought (deleteObject old m).2.session.store parent name bytes x := by
  rw [session_deleteObject]
  rcases Phone.exec_delete m.session old with hsame | ⟨hthere, hgone⟩
  · rw [hsame]
    exact hx
  · obtain ⟨y, hy⟩ := Option.isSome_iff_exists.mp hthere
    have hfound : (m.session.store.remove old).find x.key = some x :=
      (Store.find_remove_file hy (hkind.kind y hy) hne).trans hx.found
    rw [hgone]
    exact ⟨hx.fresh, hfound, hx.file, hx.folder, hx.name, hx.whole, hx.bytes⟩

end Mtp

namespace Fs

variable {fs fs' : Fs Phone} {path name : Str} {p : Pending} {f f₀ : SparseFile UInt8}
  {host : Host} {fi : Option Nat}

/-- **A flush that answers 0** brought the file of the entry to the device, where the entry replaces
no folder. -/
theorem flush_brings (hreplaces : ∀ old, p.replaces = some old → fs.store.Kind old false)
    (hp : fs.pending path = some p) (hsent : p.sent = none) (hholds : Holds fs path f) (hfi : fhWrites fi = true)
    (hflush : (fs.call (host, .flush path fi)).1 = .ok 0) :
    ∃ x, fs.store.Brought (fs.step (host, .flush path fi)).store p.parent p.name f.contents x := by
  obtain ⟨p', bytes, hp', hwhole, hspool, rfl, hsize⟩ := hholds
  cases hp.symm.trans hp'
  rw [SparseFile.contents_of]
  obtain ⟨rc, q, fs₁, hsend, hrun⟩ := @opFlush_unsent _ _ { fs with host := host } _ _ _ hfi hp hsent
  have hcall : fs.call (host, .flush path fi) = (.ok rc, fs₁.withEntry path { q with sent := some rc }) :=
    hrun
  rw [step, hcall]
  rw [hcall] at hflush
  cases hflush
  obtain ⟨a, oldCopyExists, fs₂, k, m, hready, hsame, hless, hstream, hlast⟩ :=
    sendPending_sent hwhole hsend
  have hkeeps := readyToSend_keeps respects_aged.toChains respects_aged.info respects_aged.rename p
    (fun old _ => respects_aged.delete old) (({ fs with host := host } : Fs Phone).without path)
  have hkinds := readyToSend_keeps learns_kinds.operations.toChains learns_kinds.operations.info
    learns_kinds.operations.rename p (fun old _ => learns_kinds.operations.delete old)
    (({ fs with host := host } : Fs Phone).without path)
  rw [hready] at hkeeps hkinds
  obtain ⟨x, payload, rfl, hreceived, hbrought⟩ := Mtp.sendObjectStream_brings hstream
  have hpayload : payload = bytes := by
    refine @received_spool fs₂ a _ _ ?_ ?_ hreceived
    · rw [hkeeps.disk, hsame.spool]
      exact hspool
    · rw [hsame.size, hsize]
  subst hpayload
  have hused : ∀ h ∈ fs.store.used, h ∈ fs₂.store.used := hkeeps.device.later.used
  have hfrom : fs.store.Brought m.session.store p.parent p.name payload x :=
    ⟨fun hx => hbrought.fresh (hused _ hx), hbrought.found, hbrought.file,
      hsame.parent ▸ hbrought.folder, hsame.name ▸ hbrought.name, hbrought.whole, hbrought.bytes⟩
  refine ⟨x, ?_⟩
  show fs.store.Brought fs₁.mtp.session.store p.parent p.name payload x
  rcases hlast with hlast | ⟨old, hold, hlast⟩
  · rw [hlast]
    exact hfrom
  · have hsame' : p.replaces = some old := by
      rcases hless with hall | hnone
      · exact hall.symm.trans hold
      · rw [hnone] at hold
        cases hold
    have hkind : fs.store.Kind old false := hreplaces old hsame'
    have hkind₂ : fs₂.store.Kind old false := hkinds.device old false hkind
    have hkind₃ : m.session.store.Kind old false := by
      have hstreams := learns_kinds.operations.stream a.parent a.name
        (readerOf fs₂.host.reading (fs₂.spoolBytes a.spool)) a.size fs₂.mtp
      rw [hstream] at hstreams
      exact hstreams old false hkind₂
    rw [hlast]
    exact Mtp.brought_deleteObject hfrom hkind₃ fun hsame => hfrom.fresh (hsame ▸ hkind.given)

/-- A read of this object, in a state that more calls lead to. -/
structure Rereads (fs : Fs Phone) (h : UInt32) (more : List (Host × Call)) (offset : Nat)
    (bytes : Bytes) : Prop where
  there : ((fs.run more).store.find h).isSome
  reads : ∃ path size fi fs₁, (fs.run more).pending path = none ∧
    ReadOf path fi (fs.run more) h fs₁ ∧
    (opRead path size offset fi (fs.run more)).1 = .ok bytes

theorem honest_step {e : Host × Call} (h : Mtp.Honest fs.store fs.mtp) :
    Mtp.Honest (fs.step e).store (fs.step e).mtp :=
  (call_effect respects_honest fs e).device respects_honest.toChains h

/-- A read of an object that was whole gives bytes it held then. -/
theorem Rereads.front {h : UInt32} {more : List (Host × Call)} {offset : Nat} {bytes : Bytes}
    (hreads : Rereads fs h more offset bytes) (hhonest : Mtp.Honest fs.store fs.mtp) {x : Object}
    (hx : fs.store.find h = some x) (hwhole : x.content.whole = true) :
    bytes <+: x.content.bytes.drop offset := by
  obtain ⟨path, size, fi, fs₁, hfree, hof, hread⟩ := hreads.reads
  obtain ⟨y, hy⟩ := Option.isSome_iff_exists.mp hreads.there
  have hlater : Mtp.Honest (fs.run more).store (fs.run more).mtp :=
    run_device respects_honest fs more hhonest
  have hsame : y.content = x.content :=
    (run_device respects_aged fs more).later.kept h x y hx hwhole hy
  obtain ⟨h', fs₁', hof', hbytes⟩ := opRead_object hfree (Prod.ext hread rfl)
  obtain ⟨rfl, rfl⟩ := hof'.unique hof
  obtain ⟨hhonest₁, -⟩ := hof.honest hlater
  have hstore : fs₁.store = (fs.run more).store := hhonest₁.store
  obtain ⟨e, -, hfront, -⟩ := bytesOf_front (hstore.symm ▸ hhonest₁) hbytes
  rw [← hsame]
  exact hfront y (hstore.symm ▸ hy)

/-- **What a close acknowledges is what a read gives.**  A file starts in any state that a mount
reaches, and calls on any path follow that leave its entry open.  Where no write of it failed and
the close answers 0, the device holds a new object with the bytes of the file; and after any more
calls a read of that object gives these bytes, whatever the device refuses or loses. -/
theorem acknowledged_file_is_read {m : Mtp Phone} (hcold : m.cache = none)
    (hop : m.partialRead = Op.getPartialObject64) {host₀ : Host} {calls : List (Host × Call)}
    (hstart : Starts path ((start m host₀).run calls) fs' f₀) {later : List (Host × Call)}
    (hopen : ∀ e ∈ later, e.2.LeavesOpen path)
    (hfile : (Run.after (follow path) (fs', some f₀) later).2 = some f) (hfi : fhWrites fi = true)
    (hflush : ((fs'.run later).call (host, .flush path fi)).1 = .ok 0) :
    ∃ p x, (fs'.run later).pending path = some p ∧
      (fs'.run later).store.Brought ((fs'.run later).step (host, .flush path fi)).store p.parent
        p.name f.contents x ∧
      ∀ more offset bytes,
        Rereads ((fs'.run later).step (host, .flush path fi)) x.key more offset bytes →
          bytes <+: f.contents.drop offset := by
  have htidy : Tidy ((start m host₀).run calls) := (tidy_start m host₀).run calls
  obtain ⟨e, rfl⟩ := hstart.is_step
  obtain ⟨parent, name, hwriting⟩ := hstart.writing htidy
  have hlast : Writing path parent name (Run.after (follow path)
      (((start m host₀).run calls).step e, some f₀) later) :=
    @Run.Meets.invariant _ _ (follow path) _ (Writing path parent name)
      (fun _ _ h hopen => h.step hopen) _ later hwriting (Run.Meets.of_forall hopen)
  have hinformed : Informed ((((start m host₀).run calls).step e).run later) :=
    (((informed_start m host₀).run calls).step e).run later
  have hhonest : Mtp.Honest ((((start m host₀).run calls).step e).run later).store
      ((((start m host₀).run calls).step e).run later).mtp :=
    run_device respects_honest _ later (honest_step (honest_run hcold hop host₀ calls))
  have hstate := @follow_state _ (((start m host₀).run calls).step e) path _ later (some f₀)
  generalize Run.after (follow path) (((start m host₀).run calls).step e, some f₀) later = s
    at hlast hfile hstate
  obtain ⟨fs, file⟩ := s
  subst hstate hfile
  obtain ⟨p, hp, -, -, hsent⟩ := hlast.entry
  obtain ⟨x, hbrought⟩ := flush_brings (fun old => hinformed.replaces path p old hp) hp hsent
    hlast.tracks hfi hflush
  refine ⟨p, x, hp, hbrought, ?_⟩
  intro more offset bytes hreads
  rw [← hbrought.bytes]
  exact hreads.front (honest_step hhonest) hbrought.found hbrought.whole

/-- A program writes past a hole and cuts the file, and another one makes a folder meanwhile. -/
def writtenBeside : List (Host × Call) :=
  [(Host.obliging, .write ['/', 'b'] [1, 2, 3] 1), (Host.obliging, .mkdir ['/', 'd']),
    (Host.obliging, .truncate ['/', 'b'] 3)]

/-- The state of an empty cellphone in which a new file starts. -/
def newFile : Fs Phone :=
  ((start emptyMount Host.obliging).call (Host.obliging, .create ['/', 'b'])).2

theorem acknowledged_file_is_read_beside :
    ∃ p x, (newFile.run writtenBeside).pending ['/', 'b'] = some p ∧
      (newFile.run writtenBeside).store.Brought
        ((newFile.run writtenBeside).step (Host.obliging, .flush ['/', 'b'] none)).store p.parent
        p.name [0, 1, 2] x ∧
      ∀ more offset bytes,
        Rereads ((newFile.run writtenBeside).step (Host.obliging, .flush ['/', 'b'] none)) x.key more
          offset bytes → bytes <+: ([0, 1, 2] : Bytes).drop offset := by
  have hcreate : ((start emptyMount Host.obliging).call (Host.obliging, .create ['/', 'b'])).1 =
      .ok 0 := by decide +kernel
  have hfile : (Run.after (follow ['/', 'b']) (newFile, some (.of [])) writtenBeside).2.map
      SparseFile.contents = some [0, 1, 2] := by decide +kernel
  obtain ⟨f, hf, hcontents⟩ := Option.map_eq_some_iff.mp hfile
  rw [← hcontents]
  have hopen : ∀ e ∈ writtenBeside, e.2.LeavesOpen ['/', 'b'] := by
    intro e he
    simp only [writtenBeside, List.mem_cons, List.not_mem_nil, or_false] at he
    rcases he with rfl | rfl | rfl
    · exact ⟨nofun, nofun, fun _ _ h => by cases h; decide⟩
    · exact ⟨nofun, nofun, nofun⟩
    · exact ⟨nofun, nofun, nofun⟩
  exact @acknowledged_file_is_read newFile ['/', 'b'] f (.of []) Host.obliging none emptyMount rfl
    rfl Host.obliging [] (.created (Prod.ext hcreate rfl)) writtenBeside hopen hf rfl
    (by decide +kernel)

end Fs

end Bsdroid
