import Bsdroid.Mtpfs.SpoolRuns

/-!
# Spool files and entries that nothing owns

A spool file belongs to an entry, or it stays on the disk for a person because the
entry was dropped with `keepSpool`.  An entry belongs to a path that an open handle of
a writer names.  A `Ledger` is a mount with the handles and the files that stay, and
`NoLeak` says both of a ledger.

Three calls break it: an adoption whose copy fails leaves its spool file, a `truncate`
whose change of size fails leaves its entry, and a rename takes the name of an open
file away from its entry.  `Fs.nothing_leaks_iff` says that there is no fourth.
-/

namespace Bsdroid

namespace Fs

variable {σ : Type} [Link σ]

/-! ## Names of handles -/

/-- A path is inside a folder. -/
def Inside (folder path : Str) : Prop := folder ++ ['/'] <+: path

instance (folder path : Str) : Decidable (Inside folder path) :=
  inferInstanceAs (Decidable (_ <+: _))

/-- The name of an open file after a rename: the file that moves has the new name, and
the file that was at the new name has none. -/
def renamed (source target path : Str) : Option Str :=
  if path = source then some target
  else if Inside source path then some (target ++ path.drop source.length)
  else if path = target ∨ Inside target path then none
  else some path

/-- A path is the path of an object, or it is inside that object. -/
def Under (object path : Str) : Prop := path = object ∨ Inside object path

/-- A rename takes the path at or below its source along. -/
theorem renamed_under {source target path : Str} (h : Under source path) :
    renamed source target path = some (target ++ path.drop source.length) := by
  rw [renamed]
  by_cases hsame : path = source
  · rw [if_pos hsame, hsame, List.drop_length, List.append_nil]
  · rw [if_neg hsame, if_pos (h.resolve_left hsame)]

/-- A rename leaves the other paths alone, but for those at or below its target. -/
theorem renamed_apart {source target path : Str} (hsource : ¬ Under source path)
    (htarget : ¬ Under target path) : renamed source target path = some path := by
  rw [Under, not_or] at hsource htarget
  rw [renamed, if_neg hsource.1, if_neg hsource.2,
    if_neg fun hunder => hunder.elim htarget.1 htarget.2]

/-- A rename leaves a path without a name: it is at or below the source or the target, and no
handle comes to it from the source. -/
structure Strands (names : List Str) (source target path : Str) : Prop where
  away : Under source path ∨ Under target path
  alone : ∀ name ∈ names, Under source name → target ++ name.drop source.length ≠ path

theorem Strands.lost {names : List Str} {source target path : Str}
    (h : Strands names source target path) : path ∉ names.filterMap (renamed source target) := by
  intro hmem
  obtain ⟨name, hname, hrenamed⟩ := List.mem_filterMap.mp hmem
  by_cases hsource : Under source name
  · rw [renamed_under hsource] at hrenamed
    exact h.alone name hname hsource (Option.some.inj hrenamed)
  by_cases htarget : Under target name
  · -- What was at the target is gone, and its handles have no name.
    have hnone : renamed source target name = none := by
      rw [Under, not_or] at hsource
      rw [renamed, if_neg hsource.1, if_neg hsource.2]
      exact if_pos htarget
    cases hnone.symm.trans hrenamed
  · rw [renamed_apart hsource htarget] at hrenamed
    cases hrenamed
    exact h.away.elim hsource htarget

/-- **A rename takes the last name of a path away** exactly when it strands the path. -/
theorem strands_iff {names : List Str} {source target path : Str} (hnamed : path ∈ names) :
    Strands names source target path ↔ path ∉ names.filterMap (renamed source target) := by
  constructor
  · exact Strands.lost
  · intro hlost
    constructor
    · by_contra hneither
      rw [not_or] at hneither
      apply hlost
      apply List.mem_filterMap.mpr
      exact ⟨path, hnamed, renamed_apart hneither.1 hneither.2⟩
    · intro name hname hsource himage
      apply hlost
      apply List.mem_filterMap.mpr
      refine ⟨name, hname, ?_⟩
      rw [renamed_under hsource, himage]

/-- The names of the open handles of writers after a call. -/
def Call.writers (c : Call) (answer : Except Int Int) (names : List Str) : List Str :=
  match c, answer with
  | .create path, .ok _ => path :: names
  | .opens path flags, .ok _ => if Oflag.writes flags then path :: names else names
  | .release path fi, _ => if fhWrites fi then names.erase path else names
  | .rename source target, .ok _ => names.filterMap (renamed source target)
  | _, _ => names

/-! ## Entries that are dropped -/

/-- The entry a callback drops, as it is when the callback drops it: the callback up to
the drop. -/
def Call.drops : Call → Proc Int (Fs σ) (Option Pending)
  | .create path => do
      let fs ← Proc.get
      let _ ← opCreate path
      pure (fs.pending path)
  | .release path fi =>
      if fhWrites fi then do
        match ← takePending path with
        | none => pure none
        | some p =>
            match p.sent with
            | some _ => pure (some p)
            | none => do
                let (_, p) ← sendPending p
                pure (some p)
      else pure none
  | .truncate path size => do
      let fs ← Proc.get
      match fs.pending path with
      | some _ => pure none
      | none => do
          let handle ← resolved path
          let fs ← Proc.get
          match fs.tree.get handle with
          | some entry =>
              if entry.isDir then pure none
              else do
                adoptForWrite path handle entry (size > 0)
                let fs ← Proc.get
                match fs.pending path with
                | some p => do
                    let _ ← resizePending path p size
                    match ← takePending path with
                    | some taken => do
                        let (_, taken) ← sendPending taken
                        pure (some taken)
                    | none => pure none
                | none => pure none
          | none => pure none
  | _ => pure none

/-- The spool file that the drop of an entry leaves on the disk. -/
def stays : Option Pending → List Nat
  | some p => if p.keepSpool then [p.spool] else []
  | none => []

/-- The spool file a call leaves on the disk for a person. -/
def keptBy (fs : Fs σ) (e : Host × Call) : List Nat :=
  match (e.2.drops { fs with host := e.1 }).1 with
  | .ok q => stays q
  | .error _ => []

/-- A mount, with what is known outside of it. -/
structure Ledger (σ : Type) where
  fs : Fs σ
  /-- The names of the open handles that write, one for each handle. -/
  writers : List Str
  /-- The spool files of the entries that were dropped with `keepSpool`. -/
  kept : List Nat

namespace Ledger

def start (mtp : Mtp σ) (host : Host) : Ledger σ := ⟨Fs.start mtp host, [], []⟩

def step (l : Ledger σ) (e : Host × Call) : Ledger σ where
  fs := l.fs.step e
  writers := e.2.writers (l.fs.call e).1 l.writers
  kept := l.kept ++ keptBy l.fs e

def run (l : Ledger σ) (calls : List (Host × Call)) : Ledger σ := Run.after step l calls

/-- Every spool file on the disk and every entry of the map has an owner. -/
structure NoLeak (l : Ledger σ) : Prop where
  spool : ∀ n, (l.fs.disk n).isSome →
    (∃ path p, l.fs.pending path = some p ∧ p.spool = n) ∨ n ∈ l.kept
  entry : ∀ path p, l.fs.pending path = some p → path ∈ l.writers

/-- A callback adopts a file no program writes, and the copy of its bytes fails. -/
def CannotCopy (fs : Fs σ) (path : Str) (keep : Bool) : Prop :=
  ∃ handle entry fs₁ rc fs₂, Reaches Anything path fs handle entry fs₁ ∧
    CopyFails handle entry keep fs₁ rc fs₂

/-- A `truncate` adopts a file no program writes, and cannot change the size of the spool
file. -/
def CannotResize (fs : Fs σ) (path : Str) (size : Nat) : Prop :=
  fs.host.resizes = false ∧ ∃ handle entry fs₁ fs₂, Reaches Anything path fs handle entry fs₁ ∧
    adoptForWrite path handle entry (size > 0) fs₁ = (.ok (), fs₂)

/-- The calls that leak. -/
def Leaks (l : Ledger σ) : Host × Call → Prop
  | (host, .opens path flags) => Oflag.writes flags = true ∧
      CannotCopy { l.fs with host := host } path (flags &&& Oflag.TRUNC = 0)
  | (host, .truncate path size) =>
      CannotCopy { l.fs with host := host } path (size > 0) ∨
        (CannotResize { l.fs with host := host } path size ∧ path ∉ l.writers)
  | (host, .rename source target) =>
      (∃ rc, (l.fs.call (host, .rename source target)).1 = .ok rc) ∧
        ∃ path p, l.fs.pending path = some p ∧ Strands l.writers source target path
  | _ => False

end Ledger

/-! ## What a call drops -/

section Drops

variable {fs fs' fs₁ : Fs σ} {path : Str} {p q : Pending}

theorem drops_create {n : Int} (h : (Call.create path).number fs = (.ok n, fs')) :
    ((Call.create path).drops fs).1 = .ok (fs.pending path) := by
  rw [Call.drops, Proc.bind_ok (Proc.get_run _), Proc.bind_run]
  rcases hrun : opCreate path fs with ⟨rc | fh, s⟩
  · rw [Call.number, Proc.bind_error hrun] at h
    cases h
  · rfl

theorem drops_release {fi : Option Nat} (hfi : fhWrites fi = true)
    (hp : fs.pending path = some p)
    (hsend : (p.sent ≠ none ∧ q = p ∧ fs₁ = fs.without path) ∨ (p.sent = none ∧ ∃ rc,
      (sendPending p : Proc Int (Fs σ) _) (fs.without path) = (.ok (rc, q), fs₁))) :
    ((Call.release path fi).drops fs).1 = .ok (some q) := by
  rw [Call.drops, if_pos hfi, Proc.bind_ok (takePending_run _ _), hp]
  dsimp only
  rcases hsend with ⟨hsent, rfl, -⟩ | ⟨hsent, rc, hsend⟩
  · obtain ⟨rc, hsent⟩ := Option.ne_none_iff_exists'.mp hsent
    rw [hsent]
    rfl
  · rw [hsent]
    show ((sendPending p >>= _ : Proc Int (Fs σ) _) (fs.without path)).1 = _
    rw [Proc.bind_ok hsend]
    rfl

theorem drops_truncate {R : Mtp σ → Mtp σ → Prop} {size : Nat} {handle : UInt32} {entry : Entry}
    {bytes : Bytes} {rc : Int} {fs₂ fs₃ : Fs σ} (hreaches : Reaches R path fs handle entry fs₁)
    (hadopts : adoptForWrite path handle entry (size > 0) fs₁ =
      (.ok (), fs₂.withEntry path (adopted handle entry fs₁.spoolCount bytes.length)))
    (hfree : fs₂.pending path = none) (hdisk : fs₂.disk fs₁.spoolCount = some bytes)
    (hresizes : fs₂.host.resizes = true)
    (hsend : (sendPending (adopted handle entry fs₁.spoolCount size) : Proc Int (Fs σ) _)
      { fs₂ with disk := Function.update fs₂.disk fs₁.spoolCount (some (resize bytes size)) } =
        (.ok (rc, q), fs₃)) :
    ((Call.truncate path size).drops fs).1 = .ok (some q) := by
  have hentry : (fs₂.withEntry path (adopted handle entry fs₁.spoolCount bytes.length)).pending
      path = some (adopted handle entry fs₁.spoolCount bytes.length) := Function.update_self ..
  have hbytes : (fs₂.withEntry path (adopted handle entry fs₁.spoolCount
      bytes.length)).spoolBytes fs₁.spoolCount = bytes := by
    rw [spoolBytes, withEntry, hdisk, Option.getD_some]
  have hstate : ((fs₂.withEntry path (adopted handle entry fs₁.spoolCount
      bytes.length)).edited path (adopted handle entry fs₁.spoolCount size)
      (resize bytes size)).without path = { fs₂ with
        disk := Function.update fs₂.disk fs₁.spoolCount (some (resize bytes size)) } :=
    edited_without hfree _ _
  rw [Call.drops, Proc.bind_ok (Proc.get_run _), hreaches.free]
  dsimp only
  rw [Proc.bind_ok hreaches.resolved, Proc.bind_ok (Proc.get_run _), hreaches.found]
  simp only [hreaches.file, Bool.false_eq_true, if_false]
  rw [Proc.bind_ok hadopts, Proc.bind_ok (Proc.get_run _), hentry]
  dsimp only
  have hrun : resizePending path (adopted handle entry fs₁.spoolCount bytes.length) size
      (fs₂.withEntry path (adopted handle entry fs₁.spoolCount bytes.length)) =
      (.ok (adopted handle entry fs₁.spoolCount size),
        (fs₂.withEntry path (adopted handle entry fs₁.spoolCount bytes.length)).edited path
          (adopted handle entry fs₁.spoolCount size) (resize bytes size)) := by
    have hhost : (fs₂.withEntry path
        (adopted handle entry fs₁.spoolCount bytes.length)).host.resizes = true := hresizes
    have hput := @resizePending_run σ _ path hhost
      (adopted handle entry fs₁.spoolCount bytes.length) size
    dsimp only [adopted] at hput hbytes ⊢
    rw [hput, hbytes]
  have hnow : ((fs₂.withEntry path (adopted handle entry fs₁.spoolCount bytes.length)).edited path
      (adopted handle entry fs₁.spoolCount size) (resize bytes size)).pending path =
        some (adopted handle entry fs₁.spoolCount size) := Function.update_self ..
  rw [Proc.bind_ok hrun, Proc.bind_ok (takePending_run _ _), hnow]
  show ((sendPending (adopted handle entry fs₁.spoolCount size) >>= _ : Proc Int (Fs σ) _)
    (((fs₂.withEntry path (adopted handle entry fs₁.spoolCount bytes.length)).edited path
      (adopted handle entry fs₁.spoolCount size) (resize bytes size)).without path)).1 = _
  rw [hstate, Proc.bind_ok hsend]
  rfl

omit [Link σ] in
theorem edited_now (file : Bytes) : (fs.edited path p file).pending path = some p :=
  Function.update_self ..

/-- What a `truncate` drops has the spool file of the adoption, and the state after the
call is the state after the drop. -/
theorem truncate_drops {size : Nat} (h : (Call.truncate path size).drops fs = (.ok (some q), fs')) :
    (opTruncate path size fs).2 = fs'.dropped q ∧ q.spool < fs'.spoolCount := by
  have hanything := respects_anything (σ := σ)
  rw [Call.drops, Proc.bind_ok (Proc.get_run _)] at h
  cases hp : fs.pending path with
  | some p =>
      rw [hp] at h
      cases h
  | none =>
      rw [hp] at h
      dsimp only at h
      obtain ⟨handle, fs₁, hresolved, h⟩ := Proc.bind_eq_ok h
      rw [Proc.bind_ok (Proc.get_run _)] at h
      rw [opTruncate, Proc.bind_ok (Proc.get_run _), hp]
      dsimp only
      rw [Proc.bind_ok hresolved, Proc.bind_ok (Proc.get_run _)]
      cases hentry : fs₁.tree.get handle with
      | none =>
          rw [hentry] at h
          cases h
      | some entry =>
          rw [hentry] at h
          dsimp only at h ⊢
          cases hdir : entry.isDir with
          | true =>
              rw [hdir] at h
              cases h
          | false =>
              simp only [hdir, Bool.false_eq_true, if_false] at h ⊢
              obtain ⟨⟨⟩, fs₂, hadopts, h⟩ := Proc.bind_eq_ok h
              have hfree : fs₁.pending path = none := by
                have hkeeps := resolved_keeps hanything.toChains hanything.list path fs
                rw [hresolved] at hkeeps
                exact hkeeps.pending ▸ hp
              have hadopt := adoptForWrite_cases hanything.toChains hanything.read hfree handle
                entry (size > 0)
              rw [hadopts] at hadopt
              have hmade : ∃ p, fs₂.pending path = some p ∧ p.spool < fs₂.spoolCount := by
                cases hadopt with
                | made hfills hdisk hempty =>
                    refine ⟨_, Function.update_self .., ?_⟩
                    exact Nat.lt_of_lt_of_eq (Nat.lt_succ_self _) hfills.count.symm
              obtain ⟨p, hnow, hspool⟩ := hmade
              rw [Proc.bind_ok hadopts, Proc.bind_ok (Proc.get_run _), hnow]
              rw [Proc.bind_ok (Proc.get_run _), hnow] at h
              dsimp only at h ⊢
              cases hresizes : fs₂.host.resizes with
              | false =>
                  rw [Proc.bind_error (resizePending_refuses hresizes _ _)] at h
                  cases h
              | true =>
                  rw [Proc.bind_ok (resizePending_run hresizes _ _),
                    Proc.bind_ok (takePending_run _ _), edited_now] at h ⊢
                  dsimp only at h ⊢
                  obtain ⟨⟨rc, taken⟩, fs₃, hsend, h⟩ := Proc.bind_eq_ok h
                  rw [Proc.bind_ok hsend]
                  have hkeeps := sendPending_respects hanything { p with size := size }
                    ((edited fs₂ path { p with size := size }
                      (resize (fs₂.spoolBytes p.spool) size)).without path)
                  obtain ⟨a, s, ha, hsame⟩ := @sendPending_returns σ Int _ { p with size := size }
                    ((edited fs₂ path { p with size := size }
                      (resize (fs₂.spoolBytes p.spool) size)).without path)
                  rw [show sendPending { p with size := size } ((edited fs₂ path
                    { p with size := size } (resize (fs₂.spoolBytes p.spool) size)).without path) =
                      (Except.ok (rc, taken), fs₃) from hsend] at ha hkeeps
                  cases ha
                  cases h
                  refine ⟨rfl, ?_⟩
                  rw [hsame.spool]
                  exact Nat.lt_of_lt_of_le hspool hkeeps.count

end Drops

/-! ## One call -/

/-- The release of a writer leaves no entry. -/
theorem release_gone {fi : Option Nat} (hfi : fhWrites fi = true) (path : Str) (fs : Fs σ) :
    (opRelease path fi fs).2.pending path = none := by
  have hnone : (fs.without path).pending path = none := Function.update_self ..
  cases hp : fs.pending path with
  | none => rw [opRelease_none hfi hp]; exact hp
  | some p =>
      cases hsent : p.sent with
      | some rc => rw [opRelease_sent hfi hp hsent, pending_dropped]; exact hnone
      | none =>
          obtain ⟨rc, q, fs₁, hsend, hrun⟩ := opRelease_unsent hfi hp hsent
          have hkeeps := sendPending_respects respects_anything p (fs.without path)
          rw [hsend] at hkeeps
          rw [hrun, pending_dropped, hkeeps.pending]
          exact hnone

namespace Ledger.NoLeak

variable {R : Mtp σ → Mtp σ → Prop} {fs fs' : Fs σ} {names : List Str} {kept : List Nat}
  {path : Str} {p q : Pending}

omit [Link σ]

theorem keeps (h : NoLeak ⟨fs, names, kept⟩) (hkeeps : Keeps R fs fs') :
    NoLeak ⟨fs', names, kept⟩ where
  spool n hn := by
    dsimp only at hn ⊢
    rw [hkeeps.disk] at hn
    rw [hkeeps.pending]
    exact h.spool n hn
  entry path p hp := h.entry path p (hkeeps.pending ▸ hp)

theorem more (h : NoLeak ⟨fs, names, kept⟩) {names' : List Str} {kept' : List Nat}
    (hnames : ∀ path p, fs.pending path = some p → path ∈ names → path ∈ names')
    (hkept : ∀ n ∈ kept, n ∈ kept') : NoLeak ⟨fs, names', kept'⟩ where
  spool n hn := (h.spool n hn).imp id (hkept n)
  entry path p hp := hnames path p hp (h.entry path p hp)

/-- The spool file of an entry changes its bytes. -/
theorem edited (h : NoLeak ⟨fs, names, kept⟩) (hp : fs.pending path = some p)
    (hspool : q.spool = p.spool) (file : Bytes) :
    NoLeak ⟨fs.edited path q file, names, kept⟩ where
  spool n hn := by
    by_cases hown : n = q.spool
    · exact .inl ⟨path, q, Function.update_self .., hown.symm⟩
    · have hdisk : (fs.edited path q file).disk n = fs.disk n := Function.update_of_ne hown _ _
      rcases h.spool n (hdisk ▸ hn) with ⟨path', p', hp', rfl⟩ | hkept
      · have hne : path' ≠ path := by
          intro hsame
          subst hsame
          cases hp.symm.trans hp'
          exact hown hspool.symm
        exact .inl ⟨path', p', (edited_other hne _).trans hp', rfl⟩
      · exact .inr hkept
  entry path' p' hp' := by
    by_cases hne : path' = path
    · exact hne ▸ h.entry path p hp
    · exact h.entry path' p' ((edited_other hne file).symm.trans hp')

/-- The answer of an entry changes, and the session does. -/
theorem answered (h : NoLeak ⟨fs, names, kept⟩) (hp : fs.pending path = some p)
    (hkeeps : Keeps R (fs.without path) fs') (hspool : q.spool = p.spool) :
    NoLeak ⟨fs'.withEntry path q, names, kept⟩ where
  spool n hn := by
    have hdisk : (fs'.withEntry path q).disk n = fs.disk n := congrFun hkeeps.disk n
    rcases h.spool n (hdisk ▸ hn) with ⟨path', p', hp', rfl⟩ | hkept
    · by_cases hne : path' = path
      · subst hne
        cases hp.symm.trans hp'
        exact .inl ⟨path', q, Function.update_self .., hspool⟩
      · refine .inl ⟨path', p', pending_withEntry.mpr (.inr ⟨hne, ?_⟩), rfl⟩
        rw [hkeeps.pending]
        exact pending_without.mpr ⟨hne, hp'⟩
    · exact .inr hkept
  entry path' p' hp' := by
    rcases pending_withEntry.mp hp' with ⟨rfl, -⟩ | ⟨hne, hp'⟩
    · exact h.entry path' p hp
    · rw [hkeeps.pending] at hp'
      exact h.entry path' p' (pending_without.mp hp').2

/-- An entry is dropped, and one handle of its path with it. -/
theorem dropped (h : NoLeak ⟨fs, names, kept⟩) (hp : fs.pending path = some p)
    (hkeeps : Keeps R (fs.without path) fs') (hspool : q.spool = p.spool) :
    NoLeak ⟨fs'.dropped q, names.erase path,
      kept ++ if q.keepSpool then [q.spool] else []⟩ where
  spool n hn := by
    dsimp only at hn ⊢
    rw [pending_dropped, hkeeps.pending]
    by_cases hown : n = q.spool
    · subst hown
      cases hkeep : q.keepSpool with
      | true => exact .inr (List.mem_append_right _ (by rw [if_pos rfl]; exact List.mem_singleton_self _))
      | false =>
          rw [Fs.dropped, hkeep, if_neg Bool.false_ne_true] at hn
          dsimp only at hn
          rw [Function.update_self] at hn
          cases hn
    · rw [disk_dropped hown, hkeeps.disk] at hn
      rcases h.spool n hn with ⟨path', p', hp', rfl⟩ | hkept
      · have hne : path' ≠ path := by
          intro hsame
          subst hsame
          cases hp.symm.trans hp'
          exact hown hspool.symm
        exact .inl ⟨path', p', pending_without.mpr ⟨hne, hp'⟩, rfl⟩
      · exact .inr (List.mem_append_left _ hkept)
  entry path' p' hp' := by
    dsimp only at hp' ⊢
    rw [pending_dropped, hkeeps.pending] at hp'
    obtain ⟨hne, hp'⟩ := pending_without.mp hp'
    exact (List.mem_erase_of_ne hne).mpr (h.entry path' p' hp')

/-- A file no program writes gets an entry with the newest spool file. -/
theorem adopts (h : NoLeak ⟨fs, names, kept⟩) (hfree : fs.pending path = none)
    (hfills : Fills R fs.spoolCount fs.withSpool fs') (hq : q.spool = fs.spoolCount) :
    NoLeak ⟨fs'.withEntry path q, path :: names, kept⟩ where
  spool n hn := by
    by_cases hnew : n = fs.spoolCount
    · exact .inl ⟨path, q, Function.update_self .., hq.trans hnew.symm⟩
    · have hdisk : (fs'.withEntry path q).disk n = fs.disk n :=
        (hfills.others n hnew).trans (Function.update_of_ne hnew _ _)
      rcases h.spool n (hdisk ▸ hn) with ⟨path', p', hp', rfl⟩ | hkept
      · refine .inl ⟨path', p', pending_withEntry.mpr (.inr ⟨?_, hfills.pending ▸ hp'⟩), rfl⟩
        intro hsame
        subst hsame
        cases hfree.symm.trans hp'
      · exact .inr hkept
  entry path' p' hp' := by
    rcases pending_withEntry.mp hp' with ⟨rfl, -⟩ | ⟨-, hp'⟩
    · exact List.mem_cons_self
    · exact List.mem_cons_of_mem _ (h.entry path' p' (hfills.pending ▸ hp'))

/-- A new file takes the place of an entry, and the entry is dropped. -/
theorem replaces (h : NoLeak ⟨fs, names, kept⟩) (hp : fs.pending path = some p)
    (hq : q.spool = fs.spoolCount) :
    NoLeak ⟨(fs.withSpool.withEntry path q).dropped p, path :: names,
      kept ++ if p.keepSpool then [p.spool] else []⟩ where
  spool n hn := by
    dsimp only at hn ⊢
    rw [pending_dropped]
    by_cases hnew : n = fs.spoolCount
    · exact .inl ⟨path, q, Function.update_self .., hq.trans hnew.symm⟩
    by_cases hown : n = p.spool
    · subst hown
      cases hkeep : p.keepSpool with
      | true => exact .inr (List.mem_append_right _ (by rw [if_pos rfl]; exact List.mem_singleton_self _))
      | false =>
          rw [Fs.dropped, hkeep, if_neg Bool.false_ne_true] at hn
          dsimp only at hn
          rw [Function.update_self] at hn
          cases hn
    · have hdisk : (fs.withSpool.withEntry path q).disk n = fs.disk n :=
        Function.update_of_ne hnew _ _
      rw [disk_dropped hown, hdisk] at hn
      rcases h.spool n hn with ⟨path', p', hp', rfl⟩ | hkept
      · have hne : path' ≠ path := by
          intro hsame
          subst hsame
          cases hp.symm.trans hp'
          exact hown rfl
        exact .inl ⟨path', p', pending_withEntry.mpr (.inr ⟨hne, hp'⟩), rfl⟩
      · exact .inr (List.mem_append_left _ hkept)
  entry path' p' hp' := by
    dsimp only at hp' ⊢
    rw [pending_dropped] at hp'
    rcases pending_withEntry.mp hp' with ⟨rfl, -⟩ | ⟨-, hp'⟩
    · exact List.mem_cons_self
    · exact List.mem_cons_of_mem _ (h.entry path' p' hp')

end Ledger.NoLeak

namespace Ledger

theorem keptBy_of {fs : Fs σ} {host : Host} {c : Call} {q : Option Pending}
    (h : (c.drops { fs with host := host }).1 = .ok q) : keptBy fs (host, c) = stays q := by
  rw [keptBy, h]

/-- **A call that does not leak** keeps every owner. -/
theorem NoLeak.step {l : Ledger σ} (h : NoLeak l) {e : Host × Call} (hsafe : ¬ l.Leaks e) :
    NoLeak (l.step e) := by
  obtain ⟨fs, names, kept⟩ := l
  obtain ⟨host, c⟩ := e
  have heffect := call_effect respects_anything fs (host, c)
  have h₀ : NoLeak ⟨({ fs with host := host } : Fs σ), names, kept⟩ := ⟨h.spool, h.entry⟩
  rcases hcall : fs.call (host, c) with ⟨answer, fs'⟩
  rw [hcall] at heffect
  have hstep : Ledger.step ⟨fs, names, kept⟩ (host, c) =
      ⟨fs', c.writers answer names, kept ++ keptBy fs (host, c)⟩ := by
    rw [Ledger.step, Fs.step, hcall]
  rw [hstep]
  have hkept : ∀ n ∈ kept, n ∈ kept ++ keptBy fs (host, c) :=
    fun n hn => List.mem_append_left _ hn
  dsimp only at heffect
  cases heffect with
  | keeps hkeeps =>
      refine (h₀.keeps hkeeps).more (fun path p hp hmem => ?_) hkept
      rw [hkeeps.pending] at hp
      cases c with
      | create other =>
          cases answer with
          | ok n => exact List.mem_cons_of_mem _ hmem
          | error rc => exact hmem
      | opens other flags =>
          cases answer with
          | ok n =>
              simp only [Call.writers]
              split
              · exact List.mem_cons_of_mem _ hmem
              · exact hmem
          | error rc => exact hmem
      | release other fi =>
          have hcase : (Call.release other fi).writers answer names =
              if fhWrites fi then names.erase other else names := by
            cases answer <;> rfl
          rw [hcase]
          by_cases hfi : fhWrites fi = true
          · rw [if_pos hfi]
            have hgone := release_gone hfi other ({ fs with host := host } : Fs σ)
            rw [show (opRelease other fi { fs with host := host }).2 = fs' from
              congrArg Prod.snd hcall, hkeeps.pending] at hgone
            refine (List.mem_erase_of_ne ?_).mpr hmem
            intro heq
            subst heq
            cases hgone.symm.trans hp
          · rw [if_neg hfi]
            exact hmem
      | rename source target =>
          cases answer with
          | ok n =>
              by_contra hlost
              exact hsafe ⟨⟨n, by rw [hcall]⟩, path, p, hp, (strands_iff hmem).mpr hlost⟩
          | error rc => exact hmem
      | _ => exact hmem
  | wrote hp hdown hall =>
      refine NoLeak.more (h₀.edited hp ?_ _) (fun _ _ _ hmem => hmem) hkept
      rfl
  | broke hp =>
      refine NoLeak.more (h₀.edited hp ?_ _) (fun _ _ _ hmem => hmem) hkept
      rfl
  | resized hp =>
      refine NoLeak.more (h₀.edited hp ?_ _) (fun _ _ _ hmem => hmem) hkept
      rfl
  | flushed hfi hp hsent hsend hkeeps hsame =>
      refine NoLeak.more (h₀.answered hp hkeeps ?_) (fun _ _ _ hmem => hmem) hkept
      exact hsame.spool
  | @released path fi p q fs₁ hfi hp hsend hkeeps hsame =>
      rw [keptBy_of (drops_release hfi hp hsend), Call.writers, if_pos hfi]
      exact h₀.dropped hp hkeeps hsame.spool
  | @created path parent fs₁ hkeeps =>
      have h₁ := h₀.keeps hkeeps
      rw [keptBy_of (drops_create hcall), Call.writers, replaced]
      cases hp : fs.pending path with
      | none =>
          have hfree : fs₁.pending path = none := (congrFun hkeeps.pending path).trans hp
          rw [show fs₁.withSpool.pending path = none from hfree, stays, List.append_nil]
          exact h₁.adopts hfree (.refl chains_anything _ _) rfl
      | some old =>
          have hold : fs₁.pending path = some old := (congrFun hkeeps.pending path).trans hp
          rw [show fs₁.withSpool.pending path = some old from hold]
          exact h₁.replaces hold rfl
  | @opened path flags handle entry bytes fs₁ fs₂ hwrites hreaches hfills hdisk hempty =>
      have h₁ := h₀.keeps hreaches.keeps
      rw [Call.writers, if_pos hwrites]
      exact (h₁.adopts hreaches.free_still hfills rfl).more (fun _ _ _ hmem => hmem) hkept
  | openStray hwrites hreaches hcopy hfills =>
      exact absurd ⟨hwrites, _, _, _, _, _, hreaches, hcopy⟩ hsafe
  | truncateStray hreaches hcopy hfills =>
      exact absurd (.inl ⟨_, _, _, _, _, hreaches, hcopy⟩) hsafe
  | @truncateLeft path size handle entry bytes fs₁ fs₂ hreaches hadopts hfills hdisk hresizes =>
      have h₁ := h₀.keeps hreaches.keeps
      have hnamed : path ∈ names := by
        by_contra hunnamed
        exact hsafe (.inr ⟨⟨hresizes, _, _, _, _, hreaches, hadopts⟩, hunnamed⟩)
      refine (h₁.adopts hreaches.free_still hfills rfl).more (fun _ _ _ hmem => ?_) hkept
      rcases List.mem_cons.mp hmem with rfl | hmem
      · exact hnamed
      · exact hmem
  | @truncated path size handle entry bytes q rc fs₁ fs₂ fs₃ hreaches hadopts hfills hdisk hresizes
      hsend hkeeps hsame =>
      have h₁ := h₀.keeps hreaches.keeps
      have h₂ : NoLeak ⟨fs₂.withEntry path (adopted handle entry fs₁.spoolCount bytes.length),
          path :: names, kept⟩ := h₁.adopts hreaches.free_still hfills rfl
      have hfree : fs₂.pending path = none := hfills.pending ▸ hreaches.free_still
      have hhost : fs₂.host.resizes = true := by
        rw [hfills.host, show fs₁.withSpool.host = fs₁.host from rfl, hreaches.keeps.host]
        exact hresizes
      rw [keptBy_of (drops_truncate hreaches hadopts hfree hdisk hhost hsend)]
      have hput : Keeps Anything (((fs₂.withEntry path (adopted handle entry fs₁.spoolCount
          bytes.length)).edited path (adopted handle entry fs₁.spoolCount size)
          (resize bytes size)).without path) fs₃ := by
        rw [edited_without hfree]
        exact hkeeps
      have hnow : (fs₂.withEntry path (adopted handle entry fs₁.spoolCount bytes.length)).pending
          path = some (adopted handle entry fs₁.spoolCount bytes.length) := Function.update_self ..
      have h₃ := NoLeak.edited h₂ hnow
        (show (adopted handle entry fs₁.spoolCount size).spool = fs₁.spoolCount from rfl)
        (resize bytes size)
      replace h₃ := h₃.dropped (Function.update_self ..) hput hsame.spool
      rw [List.erase_cons_head] at h₃
      exact h₃

end Ledger

/-! ## A call that leaks -/

section Broken

variable {R : Mtp σ → Mtp σ → Prop} {fs fs₁ fs₂ : Fs σ} {path : Str} {handle : UInt32}
  {entry : Entry} {keep : Bool} {rc : Int}

theorem CopyFails.adopts (h : CopyFails handle entry keep fs rc fs₁) (path : Str) :
    adoptForWrite path handle entry keep fs = (.error rc, fs₁) := by
  rw [adoptForWrite, Proc.bind_ok h.room, Proc.bind_ok h.made, if_pos h.copies,
    Proc.bind_error h.copy]

/-- A copy that fails leaves its spool file. -/
theorem CopyFails.leaves (h : CopyFails handle entry keep fs rc fs₁) :
    Fills Anything fs.spoolCount fs.withSpool fs₁ := by
  have hanything := respects_anything (σ := σ)
  have hfills := copyFrom_fills hanything.toChains hanything.read handle entry.size fs.spoolCount
    entry.size 0 fs.withSpool
  have hcopy := h.copy
  rw [copyObjectToSpool] at hcopy
  rw [hcopy] at hfills
  exact hfills

theorem opOpen_refused {flags : Nat} (hwrites : Oflag.writes flags = true)
    (hreaches : Reaches R path fs handle entry fs₁)
    (hadopts : adoptForWrite path handle entry (flags &&& Oflag.TRUNC = 0) fs₁ = (.error rc, fs₂)) :
    opOpen path flags fs = (.error rc, fs₂) := by
  rw [opOpen, Proc.bind_ok hreaches.resolved, Proc.bind_ok (Proc.get_run _), hreaches.found]
  simp only [hreaches.file, Bool.false_eq_true, if_false]
  rw [if_pos ⟨hwrites, hreaches.free_still⟩, Proc.bind_error hadopts]

/-- A `truncate` up to the adoption. -/
theorem opTruncate_reaches {size : Nat} (hreaches : Reaches R path fs handle entry fs₁) :
    (∀ rc fs₂, adoptForWrite path handle entry (size > 0) fs₁ = (.error rc, fs₂) →
      opTruncate path size fs = (.error rc, fs₂) ∧
        ((Call.truncate path size).drops fs) = (.error rc, fs₂)) ∧
    ∀ fs₂ p, adoptForWrite path handle entry (size > 0) fs₁ = (.ok (), fs₂) →
      fs₂.pending path = some p → fs₂.host.resizes = false →
        opTruncate path size fs = (.error (-Libc.EIO), fs₂) := by
  have hfree := hreaches.free
  refine ⟨fun rc fs₂ hadopts => ⟨?_, ?_⟩, fun fs₂ p hadopts hp hresizes => ?_⟩
  · rw [opTruncate, Proc.bind_ok (Proc.get_run _), hfree]
    dsimp only
    rw [Proc.bind_ok hreaches.resolved, Proc.bind_ok (Proc.get_run _), hreaches.found]
    simp only [hreaches.file, Bool.false_eq_true, if_false]
    rw [Proc.bind_error hadopts]
  · rw [Call.drops, Proc.bind_ok (Proc.get_run _), hfree]
    dsimp only
    rw [Proc.bind_ok hreaches.resolved, Proc.bind_ok (Proc.get_run _), hreaches.found]
    simp only [hreaches.file, Bool.false_eq_true, if_false]
    rw [Proc.bind_error hadopts]
  · rw [opTruncate, Proc.bind_ok (Proc.get_run _), hfree]
    dsimp only
    rw [Proc.bind_ok hreaches.resolved, Proc.bind_ok (Proc.get_run _), hreaches.found]
    simp only [hreaches.file, Bool.false_eq_true, if_false]
    rw [Proc.bind_ok hadopts, Proc.bind_ok (Proc.get_run _), hp]
    dsimp only
    rw [Proc.bind_error (resizePending_refuses hresizes _ _)]

end Broken

/-- **The numbers of the spool files** only grow. -/
theorem Effect.count {R : Mtp σ → Mtp σ → Prop} {fs fs' : Fs σ} {c : Call}
    {answer : Except Int Int} (heffect : Effect R fs c answer fs') :
    fs.spoolCount ≤ fs'.spoolCount := by
  have hdropped : ∀ (s : Fs σ) (p : Pending), (s.dropped p).spoolCount = s.spoolCount := by
    intro s p
    rw [dropped]
    split <;> rfl
  cases heffect with
  | keeps hkeeps => exact hkeeps.count
  | wrote hp hdown hall => exact Nat.le_refl _
  | broke hp => exact Nat.le_refl _
  | resized hp => exact Nat.le_refl _
  | flushed hfi hp hsent hsend hkeeps hsame => exact hkeeps.count
  | released hfi hp hsend hkeeps hsame =>
      rw [hdropped]
      exact hkeeps.count
  | @created path parent fs₁ hkeeps =>
      have hcount : fs.spoolCount ≤ fs₁.withSpool.spoolCount := Nat.le_succ_of_le hkeeps.count
      rw [replaced]
      split
      · rw [hdropped]
        exact hcount
      · exact hcount
  | opened hwrites hreaches hfills hdisk hempty =>
      exact Nat.le_trans (Nat.le_succ_of_le hreaches.keeps.count) (Nat.le_of_eq hfills.count.symm)
  | openStray hwrites hreaches hcopy hfills =>
      exact Nat.le_trans (Nat.le_succ_of_le hreaches.keeps.count) (Nat.le_of_eq hfills.count.symm)
  | truncateStray hreaches hcopy hfills =>
      exact Nat.le_trans (Nat.le_succ_of_le hreaches.keeps.count) (Nat.le_of_eq hfills.count.symm)
  | truncateLeft hreaches hadopts hfills hdisk hresizes =>
      exact Nat.le_trans (Nat.le_succ_of_le hreaches.keeps.count) (Nat.le_of_eq hfills.count.symm)
  | truncated hreaches hadopts hfills hdisk hresizes hsend hkeeps hsame =>
      rw [hdropped]
      exact Nat.le_trans (Nat.le_trans (Nat.le_succ_of_le hreaches.keeps.count)
        (Nat.le_of_eq hfills.count.symm)) hkeeps.count

namespace Ledger

/-- The spool files that stay have a number that was given out. -/
structure Known (l : Ledger σ) : Prop where
  tidy : Tidy l.fs
  kept : ∀ n ∈ l.kept, n < l.fs.spoolCount

theorem mem_stays {q : Option Pending} {n : Nat} (h : n ∈ stays q) :
    ∃ p, q = some p ∧ p.spool = n := by
  cases q with
  | none => cases h
  | some p =>
      rw [stays] at h
      split at h
      · exact ⟨p, rfl, (List.mem_singleton.mp h).symm⟩
      · cases h

/-- What a call leaves for a person was a spool file before its end. -/
theorem keptBy_lt {fs : Fs σ} (htidy : Tidy fs) {e : Host × Call} {n : Nat}
    (hn : n ∈ keptBy fs e) : n < (fs.step e).spoolCount := by
  obtain ⟨host, c⟩ := e
  have hcount : fs.spoolCount ≤ (fs.step (host, c)).spoolCount :=
    (call_effect respects_anything fs (host, c)).count
  have hentry : ∀ path p, fs.pending path = some p → p.spool < (fs.step (host, c)).spoolCount :=
    fun path p hp => Nat.lt_of_lt_of_le (htidy.counted path p hp) hcount
  rw [keptBy] at hn
  dsimp only at hn
  rcases hdrops : c.drops { fs with host := host } with ⟨rc | q, fs'⟩
  · rw [hdrops] at hn
    cases hn
  rw [hdrops] at hn
  obtain ⟨p, rfl, rfl⟩ := mem_stays hn
  cases c with
  | create path =>
      obtain ⟨s, s₁, hget, hdrops⟩ := Proc.bind_eq_ok hdrops
      cases hget
      obtain ⟨fh, s₂, -, hdrops⟩ := Proc.bind_eq_ok hdrops
      have hp : fs.pending path = some p := Except.ok.inj (congrArg Prod.fst hdrops)
      exact hentry path p hp
  | release path fi =>
      rw [Call.drops] at hdrops
      by_cases hfi : fhWrites fi = true
      swap
      · rw [if_neg hfi] at hdrops
        cases hdrops
      rw [if_pos hfi, Proc.bind_ok (takePending_run _ _)] at hdrops
      cases hp : fs.pending path with
      | none =>
          rw [show ({ fs with host := host } : Fs σ).pending path = none from hp] at hdrops
          cases hdrops
      | some taken =>
          rw [show ({ fs with host := host } : Fs σ).pending path = some taken from hp] at hdrops
          dsimp only at hdrops
          cases hsent : taken.sent with
          | some rc =>
              rw [hsent] at hdrops
              cases hdrops
              exact hentry path p hp
          | none =>
              rw [hsent] at hdrops
              obtain ⟨⟨rc, q⟩, s, hsend, hdrops⟩ := Proc.bind_eq_ok hdrops
              obtain ⟨a, s', ha, hsame⟩ := @sendPending_returns σ Int _ taken
                (({ fs with host := host } : Fs σ).without path)
              rw [show sendPending taken (({ fs with host := host } : Fs σ).without path) =
                (Except.ok (rc, q), s) from hsend] at ha
              cases ha
              cases hdrops
              rw [hsame.spool]
              exact hentry path taken hp
  | truncate path size =>
      obtain ⟨hstate, hlt⟩ := truncate_drops hdrops
      have hstep : fs.step (host, .truncate path size) = fs'.dropped p := hstate
      rw [hstep, dropped]
      split
      · exact hlt
      · exact hlt
  | _ => cases hdrops

theorem Known.step {l : Ledger σ} (h : Known l) (e : Host × Call) : Known (l.step e) where
  tidy := h.tidy.step e
  kept n hn := by
    rcases List.mem_append.mp hn with hn | hn
    · exact Nat.lt_of_lt_of_le (h.kept n hn) (call_effect respects_anything l.fs e).count
    · exact keptBy_lt h.tidy hn

omit [Link σ] in
/-- A spool file without an entry. -/
theorem stray_leaks {l : Ledger σ} (h : Known l) {fs₁ fs₂ : Fs σ} {names : List Str}
    (hkeeps : Keeps Anything l.fs fs₁) (hfills : Fills Anything fs₁.spoolCount fs₁.withSpool fs₂) :
    ¬ NoLeak ⟨fs₂, names, l.kept⟩ := by
  intro hno
  have hthere : (fs₂.disk fs₁.spoolCount).isSome := by
    refine hfills.there ?_
    rw [withSpool]
    simp only [Function.update_self, Option.isSome_some]
  rcases hno.spool _ hthere with ⟨path, p, hp, hspool⟩ | hkept
  · have hp₀ : l.fs.pending path = some p := by
      rw [← hkeeps.pending]
      exact (congrFun hfills.pending path).symm.trans hp
    have hlt := Nat.lt_of_lt_of_le (h.tidy.counted path p hp₀) hkeeps.count
    omega
  · have hlt := Nat.lt_of_lt_of_le (h.kept _ hkept) hkeeps.count
    omega

/-- **A call that leaks** takes an owner away. -/
theorem Leaks.step {l : Ledger σ} (h : Known l) {e : Host × Call} (hleaks : l.Leaks e) :
    ¬ NoLeak (l.step e) := by
  obtain ⟨fs, names, kept⟩ := l
  obtain ⟨host, c⟩ := e
  have h₀ : Known ⟨({ fs with host := host } : Fs σ), names, kept⟩ :=
    ⟨⟨h.tidy.counted, h.tidy.apart, h.tidy.there, h.tidy.made⟩, h.kept⟩
  cases c with
  | opens path flags =>
      obtain ⟨hwrites, handle, entry, fs₁, rc, fs₂, hreaches, hcopy⟩ := hleaks
      have hrun := opOpen_refused hwrites hreaches (hcopy.adopts path)
      have hcall : fs.call (host, .opens path flags) = (.error rc, fs₂) := by
        rw [call, Call.number, Proc.bind_error hrun]
      have hstep : Ledger.step ⟨fs, names, kept⟩ (host, .opens path flags) = ⟨fs₂, names, kept⟩ := by
        rw [Ledger.step, Fs.step, hcall]
        exact congrArg (Ledger.mk fs₂ names) (List.append_nil kept)
      rw [hstep]
      exact stray_leaks h₀ hreaches.keeps hcopy.leaves
  | truncate path size =>
      rcases hleaks with ⟨handle, entry, fs₁, rc, fs₂, hreaches, hcopy⟩ |
        ⟨⟨hresizes, handle, entry, fs₁, fs₂, hreaches, hadopts⟩, hunnamed⟩
      · obtain ⟨hrun, hdrops⟩ := (opTruncate_reaches hreaches).1 rc fs₂ (hcopy.adopts path)
        have hcall : fs.call (host, .truncate path size) = (.error rc, fs₂) := hrun
        have hstep : Ledger.step ⟨fs, names, kept⟩ (host, .truncate path size) =
            ⟨fs₂, names, kept⟩ := by
          rw [Ledger.step, Fs.step, hcall, keptBy]
          dsimp only
          rw [hdrops]
          exact congrArg (Ledger.mk fs₂ names) (List.append_nil kept)
        rw [hstep]
        exact stray_leaks h₀ hreaches.keeps hcopy.leaves
      · intro hno
        have hanything := respects_anything (σ := σ)
        have hadopt := adoptForWrite_cases hanything.toChains hanything.read hreaches.free_still
          handle entry (size > 0)
        rw [hadopts] at hadopt
        have hmade : ∃ p, fs₂.pending path = some p ∧ fs₂.host = fs₁.host := by
          cases hadopt with
          | made hfills hdisk hempty => exact ⟨_, Function.update_self .., hfills.host⟩
        obtain ⟨p, hp, hhost⟩ := hmade
        have hrun := (opTruncate_reaches hreaches).2 fs₂ p hadopts hp
          (by rw [hhost, hreaches.keeps.host]; exact hresizes)
        have hcall : fs.call (host, .truncate path size) = (.error (-Libc.EIO), fs₂) := hrun
        have hstate : (Ledger.step ⟨fs, names, kept⟩ (host, .truncate path size)).fs = fs₂ :=
          congrArg Prod.snd hcall
        have hnames : (Ledger.step ⟨fs, names, kept⟩ (host, .truncate path size)).writers =
            names := by
          rw [Ledger.step, hcall]
          rfl
        exact hunnamed (hnames ▸ hno.entry path p (hstate ▸ hp))
  | rename source target =>
      obtain ⟨⟨n, hanswer⟩, path, p, hp, hstrands⟩ := hleaks
      intro hno
      have hkeeps := opRename_keeps respects_anything.toChains respects_anything.list
        respects_anything.rename respects_anything.move respects_anything.delete source target
        ({ fs with host := host } : Fs σ)
      have hp' : (fs.step (host, .rename source target)).pending path = some p :=
        (congrFun hkeeps.pending path).trans hp
      have hnamed := hno.entry path p hp'
      rw [Ledger.step, hanswer] at hnamed
      exact hstrands.lost hnamed
  | _ => exact absurd hleaks id

/-- **Nothing leaks exactly when no call leaks.**  After each callback of a run every spool
file and every entry has an owner, if and only if no copy of an adoption failed, no
`truncate` failed to change the size of the spool file it made, and no rename left an entry
without a name. -/
theorem nothing_leaks_iff (mtp : Mtp σ) (host : Host) (calls : List (Host × Call)) :
    (∀ n, NoLeak ((start mtp host).run (calls.take n))) ↔
      Run.Meets step (fun l e => ¬ l.Leaks e) (start mtp host) calls := by
  refine @Run.meets_iff_always _ _ step _ Known NoLeak (fun l e h => h.step e)
    (fun l e h hgood => ?_) _ calls ?_ ?_
  · exact ⟨fun hnext hleaks => hleaks.step h hnext, fun hsafe => hgood.step hsafe⟩
  · exact ⟨tidy_start mtp host, fun n hn => nomatch hn⟩
  · exact ⟨fun n hn => (nomatch hn), fun path p hp => nomatch hp⟩

/-- A file is written and closed, and a `truncate` then cannot change the size of its
spool file. -/
def stuck : List (Host × Call) :=
  [(Host.obliging, .create ['/', 'a']), (Host.obliging, .write ['/', 'a'] [1, 2, 3] 0),
    (Host.obliging, .flush ['/', 'a'] none), (Host.obliging, .release ['/', 'a'] none),
    ({ Host.obliging with resizes := false }, .truncate ['/', 'a'] 1)]

/-- No program holds the file open, and its entry stays in the map. -/
theorem entry_without_handle : ¬ NoLeak ((start emptyMount Host.obliging).run stuck) := by
  intro h
  have hthere : (((start emptyMount Host.obliging).run stuck).fs.pending ['/', 'a']).isSome := by
    decide +kernel
  have hclosed : ((start emptyMount Host.obliging).run stuck).writers = [] := by
    decide +kernel
  obtain ⟨p, hp⟩ := Option.isSome_iff_exists.mp hthere
  have hnamed := h.entry _ p hp
  rw [hclosed] at hnamed
  cases hnamed

end Ledger

end Fs

end Bsdroid
