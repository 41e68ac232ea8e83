import Bsdroid.Mtpfs.Frame

/-!
# What a callback does to the entry of its path

The callbacks that write, resize, read, send or drop the entry of a path do so in
one way each, and the theorems below say which.  The files of the other paths and
the rest of the disk stay as they were.
-/

namespace Bsdroid

namespace Fs

variable {σ : Type} [Link σ] {fs : Fs σ} {path : Str} {p : Pending}

/-- A state with the entry of a path and the bytes of its spool file changed. -/
def edited (fs : Fs σ) (path : Str) (p : Pending) (file : Bytes) : Fs σ :=
  { fs with
    disk := Function.update fs.disk p.spool (some file)
    pending := Function.update fs.pending path (some p) }

omit [Link σ] in
/-- A write goes down whole, or it breaks the entry. -/
theorem opWrite_entry (h : fs.pending path = some p) (bytes : Bytes) (offset : Nat) :
    (∃ done file, writeAt offset bytes fs.host.writes 0 (fs.spoolBytes p.spool) =
        (.ok done, file) ∧ bytes.length ≤ done ∧
      opWrite path bytes offset fs = (.ok bytes.length,
        edited fs path { p with size := max p.size (offset + bytes.length) } file)) ∨
    ∃ rc file, opWrite path bytes offset fs =
      (.error (-rc), edited fs path { p with broken := some rc } file) := by
  rw [opWrite, Proc.bind_ok (Proc.get_run _), h]
  dsimp only
  rcases hdown : writeAt offset bytes fs.host.writes 0 (fs.spoolBytes p.spool)
    with ⟨rc | done, file⟩
  · exact .inr ⟨rc, file, rfl⟩
  · dsimp only
    rw [Proc.bind_ok (putSpool_run _ _ _)]
    by_cases hshort : done < bytes.length
    · rw [if_pos hshort]
      exact .inr ⟨Libc.ENOSPC, file, rfl⟩
    · rw [if_neg hshort]
      exact .inl ⟨done, file, rfl, Nat.le_of_not_lt hshort, rfl⟩

omit [Link σ] in
/-- A write does not touch the session. -/
theorem opWrite_mtp (path : Str) (bytes : Bytes) (offset : Nat) (fs : Fs σ) :
    (opWrite path bytes offset fs).2.mtp = fs.mtp := by
  cases hp : fs.pending path with
  | none =>
      rw [opWrite, Proc.bind_ok (Proc.get_run _), hp]
      rfl
  | some p =>
      rcases opWrite_entry hp bytes offset with ⟨done, file, -, -, hrun⟩ | ⟨rc, file, hrun⟩
      · rw [hrun]
        rfl
      · rw [hrun]
        rfl

section

omit [Link σ]

theorem resizePending_run (hresizes : fs.host.resizes = true) (p : Pending) (size : Nat) :
    resizePending path p size fs = (.ok { p with size := size },
      edited fs path { p with size := size } (resize (fs.spoolBytes p.spool) size)) := by
  rw [resizePending, Proc.bind_ok (Proc.get_run _), if_pos hresizes]
  rfl

theorem resizePending_refuses (hresizes : fs.host.resizes = false) (p : Pending) (size : Nat) :
    resizePending path p size fs = (.error (-Libc.EIO), fs) := by
  rw [resizePending, Proc.bind_ok (Proc.get_run _), hresizes]
  rfl

end

/-- A change of size reaches the spool file and the entry, or neither. -/
theorem opTruncate_entry (h : fs.pending path = some p) (size : Nat) :
    opTruncate path size fs =
      if fs.host.resizes then
        (.ok 0, edited fs path { p with size := size } (resize (fs.spoolBytes p.spool) size))
      else (.error (-Libc.EIO), fs) := by
  rw [opTruncate, Proc.bind_ok (Proc.get_run _), h]
  dsimp only
  cases hresizes : fs.host.resizes with
  | true =>
      rw [Proc.bind_ok (resizePending_run hresizes p size)]
      rfl
  | false =>
      rw [Proc.bind_error (resizePending_refuses hresizes p size)]
      rfl

/-- A read of an entry gives bytes of its spool file. -/
theorem opRead_entry (h : fs.pending path = some p) (size offset : Nat) (fi : Option Nat) :
    opRead path size offset fi fs =
      (if offset ≥ p.size then .ok []
        else match fs.host.readsAt with
          | some count => .ok (((fs.spoolBytes p.spool).drop offset).take
              (min count (min size (p.size - offset))))
          | none => .error (-Libc.EIO), fs) := by
  rw [opRead, Proc.bind_ok (Proc.get_run _), h]
  dsimp only
  by_cases hpast : offset ≥ p.size
  · rw [if_pos hpast, if_pos hpast]
    rfl
  · rw [if_neg hpast, if_neg hpast]
    cases fs.host.readsAt <;> rfl

/-! ## A new spool file -/

section

omit [Link σ]

theorem spoolBytes_put (fs : Fs σ) (spool : Nat) (bytes : Bytes) :
    spoolBytes { fs with disk := Function.update fs.disk spool (some bytes) } spool = bytes := by
  simp only [spoolBytes, Function.update_self, Option.getD_some]

/-- The state with one more spool file, which is empty. -/
def withSpool (fs : Fs σ) : Fs σ :=
  { fs with
    spoolCount := fs.spoolCount + 1
    disk := Function.update fs.disk fs.spoolCount (some []) }

theorem makeSpool_run (hmakes : fs.host.makes = true) :
    makeSpool fs = (.ok fs.spoolCount, fs.withSpool) := by
  rw [makeSpool, Proc.bind_ok (nextCount_run _), Proc.bind_ok (Proc.get_run _)]
  simp only [hmakes, if_true]
  rfl

theorem makeSpool_refuses (hmakes : fs.host.makes = false) :
    makeSpool fs = (.error (-Libc.EIO), { fs with spoolCount := fs.spoolCount + 1 }) := by
  rw [makeSpool, Proc.bind_ok (nextCount_run _), Proc.bind_ok (Proc.get_run _)]
  simp only [hmakes, Bool.false_eq_true, if_false]
  rfl

theorem spoolBytes_withSpool (fs : Fs σ) : fs.withSpool.spoolBytes fs.spoolCount = [] :=
  spoolBytes_put fs fs.spoolCount []

end

/-! ## A close -/

/-- The state without the entry of a path. -/
def without (fs : Fs σ) (path : Str) : Fs σ :=
  { fs with pending := Function.update fs.pending path none }

/-- The state with an entry in the map. -/
def withEntry (fs : Fs σ) (path : Str) (p : Pending) : Fs σ :=
  { fs with pending := Function.update fs.pending path (some p) }

/-- The state after an entry was dropped: its spool file is gone, unless it stays. -/
def dropped (fs : Fs σ) (p : Pending) : Fs σ :=
  if p.keepSpool then fs else { fs with disk := Function.update fs.disk p.spool none }

section

omit [Link σ]

/-- The other paths keep their entries. -/
theorem pending_without {path' : Str} {p' : Pending} :
    (fs.without path).pending path' = some p' ↔ path' ≠ path ∧ fs.pending path' = some p' := by
  simp only [without, Function.update_apply]
  split
  · rename_i hpath
    exact ⟨fun h => (by cases h), fun h => absurd hpath h.1⟩
  · rename_i hpath
    exact ⟨fun h => ⟨hpath, h⟩, fun h => h.2⟩

theorem pending_withEntry {path' : Str} {p' : Pending} :
    (fs.withEntry path p).pending path' = some p' ↔
      (path' = path ∧ p' = p) ∨ (path' ≠ path ∧ fs.pending path' = some p') := by
  simp only [withEntry, Function.update_apply]
  split
  · rename_i hpath
    refine ⟨fun h => .inl ⟨hpath, (Option.some.inj h).symm⟩, ?_⟩
    rintro (⟨-, rfl⟩ | ⟨hne, -⟩)
    · rfl
    · exact absurd hpath hne
  · rename_i hpath
    refine ⟨fun h => .inr ⟨hpath, h⟩, ?_⟩
    rintro (⟨heq, -⟩ | ⟨-, h⟩)
    · exact absurd heq hpath
    · exact h

theorem without_of_none (h : fs.pending path = none) : fs.without path = fs := by
  rw [without, ← h, Function.update_eq_self]

/-- An entry that came, changed and went leaves its spool file behind. -/
theorem edited_without (h : fs.pending path = none) (q : Pending) (file : Bytes) :
    ((fs.withEntry path p).edited path q file).without path =
      { fs with disk := Function.update fs.disk q.spool (some file) } := by
  simp only [edited, withEntry, without, Function.update_idem]
  rw [← h, Function.update_eq_self]

theorem withEntry_without (h : fs.pending path = some p) : (fs.without path).withEntry path p = fs := by
  rw [withEntry, without]
  dsimp only
  rw [Function.update_idem, ← h, Function.update_eq_self]

theorem dropPending_run {E : Type} (p : Pending) (fs : Fs σ) :
    (dropPending p : Proc E (Fs σ) Unit) fs = (.ok (), fs.dropped p) := rfl

/-- The state with an entry in the map, in place of the entry that was there. -/
def replaced (fs : Fs σ) (path : Str) (p : Pending) : Fs σ :=
  match fs.pending path with
  | some old => (fs.withEntry path p).dropped old
  | none => fs.withEntry path p

theorem replaced_free (h : fs.pending path = none) (p : Pending) :
    fs.replaced path p = fs.withEntry path p := by
  rw [replaced, h]

/-- A drop leaves the other spool files on the disk. -/
theorem disk_dropped {n : Nat} (hne : n ≠ p.spool) : (fs.dropped p).disk n = fs.disk n := by
  rw [dropped]
  split
  · rfl
  · exact Function.update_of_ne hne _ _

theorem disk_replaced {n : Nat} (hne : ∀ old, fs.pending path = some old → n ≠ old.spool) :
    (fs.replaced path p).disk n = fs.disk n := by
  rw [replaced]
  split
  · rename_i old hold
    exact disk_dropped (hne old hold)
  · rfl

theorem insertPending_run {E : Type} (path : Str) (p : Pending) (fs : Fs σ) :
    (insertPending path p : Proc E (Fs σ) Unit) fs = (.ok (), fs.replaced path p) := by
  have hput : (Proc.modify fun fs => { fs with
      pending := Function.update fs.pending path (some p) } : Proc E (Fs σ) Unit)
      (fs.without path) = (.ok (), fs.withEntry path p) := by
    rw [Proc.modify_run, without, withEntry]
    dsimp only
    rw [Function.update_idem]
  rw [insertPending, Proc.bind_ok (takePending_run _ _)]
  show (Proc.modify _ >>= _) (fs.without path) = _
  rw [Proc.bind_ok hput, replaced]
  cases fs.pending path <;> rfl

end

omit [Link σ] in
theorem insertPending_free {E : Type} (h : fs.pending path = none) (p : Pending) :
    (insertPending path p : Proc E (Fs σ) Unit) fs = (.ok (), fs.withEntry path p) := by
  rw [insertPending_run, replaced_free h]

/-- A close of a handle that only reads does nothing. -/
theorem opFlush_reader {fi : Option Nat} (hfi : fhWrites fi = false) :
    opFlush path fi fs = (.ok 0, fs) := by
  rw [opFlush, if_neg (by rw [hfi]; exact Bool.false_ne_true)]
  rfl

theorem opRelease_reader {fi : Option Nat} (hfi : fhWrites fi = false) :
    opRelease path fi fs = (.ok 0, fs) := by
  rw [opRelease, if_neg (by rw [hfi]; exact Bool.false_ne_true)]
  rfl

section

variable {fi : Option Nat} (hfi : fhWrites fi = true)
include hfi

theorem opFlush_none (h : fs.pending path = none) : opFlush path fi fs = (.ok 0, fs) := by
  rw [opFlush, if_pos hfi, Proc.bind_ok (takePending_run _ _), h]
  exact congrArg (Prod.mk _) (without_of_none h)

theorem opRelease_none (h : fs.pending path = none) : opRelease path fi fs = (.ok 0, fs) := by
  rw [opRelease, if_pos hfi, Proc.bind_ok (takePending_run _ _), h]
  exact congrArg (Prod.mk _) (without_of_none h)

/-- A later `flush` gives the first answer again, and sends nothing. -/
theorem opFlush_sent {rc : Int} (h : fs.pending path = some p) (hsent : p.sent = some rc) :
    opFlush path fi fs = (.ok rc, fs) := by
  have hback : insertPending path p (fs.without path) = (Except.ok (ε := Int) (), fs) := by
    rw [insertPending_free (Function.update_self ..), withEntry_without h]
  rw [opFlush, if_pos hfi, Proc.bind_ok (takePending_run _ _), h]
  dsimp only
  rw [hsent]
  show (insertPending path p >>= _) (fs.without path) = _
  rw [Proc.bind_ok hback]
  rfl

/-- The first `flush` sends the entry, and keeps the answer. -/
theorem opFlush_unsent (h : fs.pending path = some p) (hsent : p.sent = none) :
    ∃ rc q fs₁, (sendPending p : Proc Int (Fs σ) _) (fs.without path) = (.ok (rc, q), fs₁) ∧
      opFlush path fi fs = (.ok rc, fs₁.withEntry path { q with sent := some rc }) := by
  obtain ⟨⟨rc, q⟩, fs₁, hsend, -⟩ := @sendPending_returns σ Int _ p (fs.without path)
  refine ⟨rc, q, fs₁, hsend, ?_⟩
  have hkeeps : Keeps Anything (fs.without path)
      ((sendPending p : Proc Int (Fs σ) (Int × Pending)) (fs.without path)).2 :=
    sendPending_keeps chains_anything (steps_anything _) (fun _ _ => steps_anything _)
      (fun _ _ => steps_anything _) (steps_anything _)
  rw [hsend] at hkeeps
  have hnone : fs₁.pending path = none := by
    rw [hkeeps.pending]
    exact Function.update_self ..
  rw [opFlush, if_pos hfi, Proc.bind_ok (takePending_run _ _), h]
  dsimp only
  rw [hsent]
  have hput : insertPending path { q with sent := some rc } fs₁ =
      (Except.ok (ε := Int) (), fs₁.withEntry path { q with sent := some rc }) :=
    insertPending_free hnone _
  show (sendPending p >>= _) (fs.without path) = _
  rw [Proc.bind_ok hsend]
  show (insertPending path { q with sent := some rc } >>= _) fs₁ = _
  rw [Proc.bind_ok hput]
  rfl

/-- A `release` of a sent entry drops the entry. -/
theorem opRelease_sent {rc : Int} (h : fs.pending path = some p) (hsent : p.sent = some rc) :
    opRelease path fi fs = (.ok 0, (fs.without path).dropped p) := by
  rw [opRelease, if_pos hfi, Proc.bind_ok (takePending_run _ _), h]
  dsimp only
  rw [hsent]
  rfl

/-- A `release` of an entry that was not sent sends the entry, and drops it. -/
theorem opRelease_unsent (h : fs.pending path = some p) (hsent : p.sent = none) :
    ∃ rc q fs₁, (sendPending p : Proc Int (Fs σ) _) (fs.without path) = (.ok (rc, q), fs₁) ∧
      opRelease path fi fs = (.ok 0, fs₁.dropped q) := by
  obtain ⟨⟨rc, q⟩, fs₁, hsend, -⟩ := @sendPending_returns σ Int _ p (fs.without path)
  refine ⟨rc, q, fs₁, hsend, ?_⟩
  rw [opRelease, if_pos hfi, Proc.bind_ok (takePending_run _ _), h]
  dsimp only
  rw [hsent]
  show (sendPending p >>= _) (fs.without path) = _
  rw [Proc.bind_ok hsend]
  rfl

end

/-! ## An entry is made -/

/-- The entry of a new file. -/
def created (parent : UInt32) (name : Str) (spool : Nat) : Pending where
  parent := parent
  name := name
  spool := spool
  size := 0
  sent := none
  replaces := none
  broken := none
  keepSpool := false

/-- The entry of a file that is on the device. -/
def adopted (handle : UInt32) (entry : Entry) (spool size : Nat) : Pending where
  parent := entry.parent
  name := entry.name
  spool := spool
  size := size
  sent := none
  replaces := some handle
  broken := none
  keepSpool := false

section Make

variable {R : Mtp σ → Mtp σ → Prop} (hR : Chains R)
  (hlist : ∀ parent, Proc.Steps R (Mtp.list parent))
  (hread : ∀ h offset want size, Proc.Steps R (Mtp.readAt h offset want size))

include hR hlist in
/-- A new file gets an entry, or the entries stay as they were. -/
theorem opCreate_cases (path : Str) (fs : Fs σ) :
    (∃ rc fs₁, opCreate path fs = (.error rc, fs₁) ∧ Keeps R fs fs₁) ∨
    ∃ parent fs₁, opCreate path fs = (.ok fhWriter, fs₁.withSpool.replaced path
      (created parent (splitParent path).2 fs₁.spoolCount)) ∧ Keeps R fs fs₁ := by
  rw [opCreate]
  dsimp only
  by_cases hname : (splitParent path).2.isEmpty
  · rw [if_pos hname]
    exact .inl ⟨_, fs, rfl, .refl hR fs⟩
  rw [if_neg hname, Proc.bind_run]
  have hkeeps := resolved_keeps hR hlist (splitParent path).1 fs
  rcases hresolved : resolved (splitParent path).1 fs with ⟨rc | parent, fs₁⟩
  · rw [hresolved] at hkeeps
    exact .inl ⟨rc, fs₁, rfl, hkeeps⟩
  · rw [hresolved] at hkeeps
    dsimp only
    cases hmakes : fs₁.host.makes with
    | false =>
        rw [Proc.bind_error (makeSpool_refuses hmakes)]
        refine .inl ⟨_, _, rfl, hkeeps.trans hR ⟨rfl, rfl, rfl, Nat.le_succ _, hR.refl _⟩⟩
    | true =>
        rw [Proc.bind_ok (makeSpool_run hmakes), Proc.bind_ok (insertPending_run _ _ _)]
        exact .inr ⟨parent, fs₁, rfl, hkeeps⟩

/-- Bytes go into one spool file, and nothing else changes but the session. -/
structure Fills (R : Mtp σ → Mtp σ → Prop) (spool : Nat) (fs fs' : Fs σ) : Prop where
  tree : fs'.tree = fs.tree
  pending : fs'.pending = fs.pending
  host : fs'.host = fs.host
  count : fs'.spoolCount = fs.spoolCount
  others : ∀ n, n ≠ spool → fs'.disk n = fs.disk n
  there : (fs.disk spool).isSome → (fs'.disk spool).isSome
  device : R fs.mtp fs'.mtp

omit [Link σ] in
include hR in
theorem Fills.refl (spool : Nat) (fs : Fs σ) : Fills R spool fs fs :=
  ⟨rfl, rfl, rfl, rfl, fun _ _ => rfl, fun h => h, hR.refl _⟩

omit [Link σ] in
include hR in
theorem Fills.trans {spool : Nat} {a b c : Fs σ} (h : Fills R spool a b)
    (h' : Fills R spool b c) : Fills R spool a c where
  tree := h'.tree.trans h.tree
  pending := h'.pending.trans h.pending
  host := h'.host.trans h.host
  count := h'.count.trans h.count
  others n hn := (h'.others n hn).trans (h.others n hn)
  there hsome := h'.there (h.there hsome)
  device := hR.trans h.device h'.device

omit [Link σ] in
include hR in
theorem putSpool_fills (spool : Nat) (bytes : Bytes) :
    Proc.Steps (Fills R spool) (putSpool spool bytes : Proc Int (Fs σ) Unit) := fun fs =>
  ⟨rfl, rfl, rfl, rfl, fun _ hn => Function.update_of_ne hn _ _,
    fun _ => by simp only [putSpool_run, Function.update_self, Option.isSome_some],
    hR.refl _⟩

include hR hread in
/-- A copy puts bytes into its spool file, however it ends. -/
theorem copyFrom_fills (handle : UInt32) (size spool rounds pos : Nat) :
    Proc.Steps (Fills R spool) (copyFrom handle size spool rounds pos) := by
  have htrans := @Fills.trans σ R hR spool
  have hrefl := Fills.refl (R := R) hR spool
  induction rounds generalizing pos with
  | zero => exact .pure hrefl _
  | succ rounds ih =>
      unfold copyFrom
      split
      · refine .bind (R := Fills R spool) htrans (fun fs => ⟨rfl, rfl, rfl, rfl, fun _ _ => rfl,
          fun h => h, hread _ _ _ _ fs.mtp⟩) fun answer => ?_
        split
        · exact .fail hrefl _
        · split
          · exact .pure hrefl _
          · refine .bind (R := Fills R spool) htrans (.get hrefl) fun fs => ?_
            split
            · exact .bind (R := Fills R spool) htrans (putSpool_fills hR _ _) fun _ =>
                .fail hrefl _
            · exact .bind (R := Fills R spool) htrans (putSpool_fills hR _ _) fun _ => ih _
      · exact .pure hrefl _

/-- A copy that ends says how many bytes are in the spool file. -/
theorem copyFrom_length {handle : UInt32} {size spool rounds pos n : Nat} {fs fs' : Fs σ}
    (hpos : (fs.spoolBytes spool).length = pos)
    (h : copyFrom handle size spool rounds pos fs = (.ok n, fs')) :
    (fs'.spoolBytes spool).length = n := by
  induction rounds generalizing pos fs with
  | zero =>
      cases h
      exact hpos
  | succ rounds ih =>
      unfold copyFrom at h
      by_cases hmore : pos < size
      · rw [if_pos hmore, Proc.bind_ok (tryMtp_run _ _)] at h
        rcases hdata : (Mtp.readAt handle pos (min readChunk (size - pos)) size fs.mtp).1
          with e | data
        · rw [hdata] at h
          cases h
        · rw [hdata] at h
          dsimp only at h
          by_cases hnone : data.isEmpty
          · rw [if_pos hnone] at h
            cases h
            exact hpos
          · rw [if_neg hnone, Proc.bind_ok (Proc.get_run _)] at h
            cases hfills : fs.host.fills pos with
            | some count =>
                simp only [hfills] at h
                rw [Proc.bind_ok (putSpool_run _ _ _)] at h
                cases h
            | none =>
                simp only [hfills] at h
                rw [Proc.bind_ok (putSpool_run _ _ _)] at h
                refine ih ?_ h
                rw [spoolBytes_put, List.length_append]
                exact congrArg (· + data.length) hpos
      · rw [if_neg hmore] at h
        cases h
        exact hpos

omit [Link σ] in
theorem checkRoom_state (size : Nat) (keep : Bool) (fs : Fs σ) :
    checkRoom size keep fs = (.ok (), fs) ∨ ∃ rc, checkRoom size keep fs = (.error rc, fs) := by
  rw [checkRoom, Proc.bind_ok (Proc.get_run _)]
  by_cases hkeep : keep = true ∧ size > 0
  · rw [if_pos hkeep]
    cases fs.host.free with
    | none => exact .inl rfl
    | some free =>
        dsimp only
        by_cases hbig : size > free
        · rw [if_pos hbig]
          exact .inr ⟨_, rfl⟩
        · rw [if_neg hbig]
          exact .inl rfl
  · rw [if_neg hkeep]
    exact .inl rfl

/-- An adoption makes a spool file, and then cannot copy the object into it. -/
structure CopyFails (handle : UInt32) (entry : Entry) (keep : Bool) (fs : Fs σ) (rc : Int)
    (fs' : Fs σ) : Prop where
  copies : keep = true ∧ entry.size > 0
  room : checkRoom entry.size keep fs = (.ok (), fs)
  made : makeSpool fs = (.ok fs.spoolCount, fs.withSpool)
  copy : copyObjectToSpool handle entry.size fs.spoolCount fs.withSpool = (.error rc, fs')

/-- What an adoption leaves: the entries as they were, or an entry with a spool file
of its own.  A copy that fails leaves its spool file without an entry. -/
inductive Adoption (R : Mtp σ → Mtp σ → Prop) (path : Str) (handle : UInt32) (entry : Entry)
    (keep : Bool) (fs : Fs σ) : Except Int Unit × Fs σ → Prop where
  | refused {rc : Int} {fs₁ : Fs σ} (hkeeps : Keeps R fs fs₁) :
      Adoption R path handle entry keep fs (.error rc, fs₁)
  | stray {rc : Int} {fs₁ : Fs σ} (hcopy : CopyFails handle entry keep fs rc fs₁)
      (hfills : Fills R fs.spoolCount fs.withSpool fs₁) :
      Adoption R path handle entry keep fs (.error rc, fs₁)
  | made {bytes : Bytes} {fs₁ : Fs σ} (hfills : Fills R fs.spoolCount fs.withSpool fs₁)
      (hdisk : fs₁.disk fs.spoolCount = some bytes)
      (hempty : ¬ (keep = true ∧ entry.size > 0) → bytes = []) :
      Adoption R path handle entry keep fs
        (.ok (), fs₁.withEntry path (adopted handle entry fs.spoolCount bytes.length))

include hR hread in
/-- **An adoption** of a file no program writes. -/
theorem adoptForWrite_cases (hfree : fs.pending path = none) (handle : UInt32) (entry : Entry)
    (keep : Bool) :
    Adoption R path handle entry keep fs (adoptForWrite path handle entry keep fs) := by
  rw [adoptForWrite]
  rcases checkRoom_state entry.size keep fs with hroom | ⟨rc, hroom⟩
  swap
  · rw [Proc.bind_error hroom]
    exact .refused (.refl hR fs)
  rw [Proc.bind_ok hroom]
  cases hmakes : fs.host.makes with
  | false =>
      rw [Proc.bind_error (makeSpool_refuses hmakes)]
      exact .refused ⟨rfl, rfl, rfl, Nat.le_succ _, hR.refl _⟩
  | true =>
      rw [Proc.bind_ok (makeSpool_run hmakes)]
      by_cases hkeep : keep = true ∧ entry.size > 0
      · rw [if_pos hkeep]
        have hfills := copyFrom_fills hR hread handle entry.size fs.spoolCount entry.size 0
          fs.withSpool
        rcases hcopy : copyObjectToSpool handle entry.size fs.spoolCount fs.withSpool
          with ⟨rc | n, fs₁⟩
        · rw [copyObjectToSpool] at hcopy
          rw [hcopy] at hfills
          rw [copyObjectToSpool, Proc.bind_error hcopy]
          exact .stray ⟨hkeep, hroom, makeSpool_run hmakes, hcopy⟩ hfills
        · rw [Proc.bind_ok hcopy]
          rw [copyObjectToSpool] at hcopy
          rw [hcopy] at hfills
          have hlength := copyFrom_length (by rw [spoolBytes_withSpool]; rfl) hcopy
          have hthere := hfills.there (by
            rw [withSpool]
            simp only [Function.update_self, Option.isSome_some])
          obtain ⟨bytes, hdisk⟩ := Option.isSome_iff_exists.mp hthere
          rw [spoolBytes, hdisk, Option.getD_some] at hlength
          have hnone : fs₁.pending path = none := hfills.pending ▸ hfree
          show Adoption R path handle entry keep fs
            (insertPending path (adopted handle entry fs.spoolCount n) fs₁)
          rw [insertPending_free hnone, ← hlength]
          exact .made hfills hdisk fun h => absurd hkeep h
      · rw [if_neg hkeep, Proc.bind_ok (Proc.pure_run _ _)]
        have hnone : fs.withSpool.pending path = none := hfree
        show Adoption R path handle entry keep fs
          (insertPending path (adopted handle entry fs.spoolCount 0) fs.withSpool)
        rw [insertPending_free hnone]
        have hdisk : fs.withSpool.disk fs.spoolCount = some [] := Function.update_self ..
        exact .made (.refl hR _ _) hdisk fun _ => rfl

/-- A callback reached the adoption of a file no program writes. -/
structure Reaches (R : Mtp σ → Mtp σ → Prop) (path : Str) (fs : Fs σ) (handle : UInt32)
    (entry : Entry) (fs₁ : Fs σ) : Prop where
  free : fs.pending path = none
  resolved : resolved path fs = (.ok handle, fs₁)
  found : fs₁.tree.get handle = some entry
  file : entry.isDir = false
  keeps : Keeps R fs fs₁

theorem Reaches.free_still {handle : UInt32} {entry : Entry} {fs₁ : Fs σ}
    (h : Reaches R path fs handle entry fs₁) : fs₁.pending path = none :=
  h.keeps.pending ▸ h.free

include hR hlist in
/-- An open of a file no program writes adopts the file, when it asks to write. -/
theorem opOpen_cases (path : Str) (flags : Nat) (fs : Fs σ) :
    (Keeps R fs (opOpen path flags fs).2 ∧ (Oflag.writes flags = true → fs.pending path = none →
      ∃ rc, (opOpen path flags fs).1 = .error rc)) ∨
    ∃ handle entry fs₁, Oflag.writes flags = true ∧ Reaches R path fs handle entry fs₁ ∧
      opOpen path flags fs =
        ((adoptForWrite path handle entry (flags &&& Oflag.TRUNC = 0) fs₁).1.map
            fun _ => handle.toNat + fhWriter,
          (adoptForWrite path handle entry (flags &&& Oflag.TRUNC = 0) fs₁).2) := by
  have hkeeps := resolved_keeps hR hlist path fs
  rw [opOpen, Proc.bind_run]
  rcases hresolved : resolved path fs with ⟨rc | handle, fs₁⟩
  · rw [hresolved] at hkeeps
    exact .inl ⟨hkeeps, fun _ _ => ⟨rc, rfl⟩⟩
  rw [hresolved] at hkeeps
  dsimp only
  rw [Proc.bind_ok (Proc.get_run _)]
  rcases hentry : fs₁.tree.get handle with _ | entry
  · exact .inl ⟨hkeeps, fun _ _ => ⟨_, rfl⟩⟩
  dsimp only
  cases hdir : entry.isDir with
  | true => exact .inl ⟨hkeeps, fun _ _ => ⟨_, rfl⟩⟩
  | false =>
      simp only [Bool.false_eq_true, if_false]
      by_cases hadopts : Oflag.writes flags = true ∧ fs₁.pending path = none
      · refine .inr ⟨handle, entry, fs₁, hadopts.1, ⟨hkeeps.pending ▸ hadopts.2, hresolved, hentry,
          hdir, hkeeps⟩, ?_⟩
        rw [if_pos hadopts, Proc.bind_run]
        rcases adoptForWrite path handle entry (flags &&& Oflag.TRUNC = 0) fs₁
          with ⟨rc | done, fs₂⟩
        · rfl
        · rw [hadopts.1]
          rfl
      · rw [if_neg hadopts]
        refine .inl ⟨hkeeps, fun hwrites hnone => absurd ⟨hwrites, ?_⟩ hadopts⟩
        exact (congrFun hkeeps.pending path).trans hnone

include hR hlist hread in
/-- A change of the size of a file no program writes adopts the file, and sends it
at once. -/
theorem opTruncate_free (hfree : fs.pending path = none) (size : Nat) :
    Keeps R fs (opTruncate path size fs).2 ∨
    ∃ handle entry fs₁, Reaches R path fs handle entry fs₁ ∧
      ((∃ rc fs₂, adoptForWrite path handle entry (size > 0) fs₁ = (.error rc, fs₂) ∧
        opTruncate path size fs = (.error rc, fs₂)) ∨
      ∃ p fs₂, adoptForWrite path handle entry (size > 0) fs₁ = (.ok (), fs₂) ∧
        fs₂.pending path = some p ∧
        ((fs₂.host.resizes = false ∧ opTruncate path size fs = (.error (-Libc.EIO), fs₂)) ∨
        (fs₂.host.resizes = true ∧ ∃ rc q fs₃,
          (sendPending { p with size := size } : Proc Int (Fs σ) _)
            ((fs₂.edited path { p with size := size }
              (resize (fs₂.spoolBytes p.spool) size)).without path) = (.ok (rc, q), fs₃) ∧
          opTruncate path size fs = (.ok rc, fs₃.dropped q)))) := by
  have hkeeps := resolved_keeps hR hlist path fs
  rw [opTruncate, Proc.bind_ok (Proc.get_run _), hfree]
  dsimp only
  rw [Proc.bind_run]
  rcases hresolved : resolved path fs with ⟨rc | handle, fs₁⟩
  · rw [hresolved] at hkeeps
    exact .inl hkeeps
  rw [hresolved] at hkeeps
  dsimp only
  rw [Proc.bind_ok (Proc.get_run _)]
  rcases hentry : fs₁.tree.get handle with _ | entry
  · exact .inl hkeeps
  dsimp only
  cases hdir : entry.isDir with
  | true => exact .inl hkeeps
  | false =>
      have hreaches : Reaches R path fs handle entry fs₁ := ⟨hfree, hresolved, hentry, hdir, hkeeps⟩
      have hadopt := adoptForWrite_cases hR hread hreaches.free_still handle entry (size > 0)
      simp only [Bool.false_eq_true, if_false]
      refine .inr ⟨handle, entry, fs₁, hreaches, ?_⟩
      rw [Proc.bind_run]
      rcases hrun : adoptForWrite path handle entry (size > 0) fs₁ with ⟨rc | done, fs₂⟩
      · exact .inl ⟨rc, fs₂, rfl, rfl⟩
      · right
        rw [hrun] at hadopt
        have hp : ∃ p, fs₂.pending path = some p := by
          cases hadopt
          exact ⟨_, Function.update_self ..⟩
        obtain ⟨p, hp⟩ := hp
        refine ⟨p, fs₂, rfl, hp, ?_⟩
        dsimp only
        rw [Proc.bind_ok (Proc.get_run _), hp]
        dsimp only
        cases hresizes : fs₂.host.resizes with
        | false => exact .inl ⟨rfl, Proc.bind_error (resizePending_refuses hresizes p size)⟩
        | true =>
            obtain ⟨⟨rc, q⟩, fs₃, hsend, -⟩ := @sendPending_returns σ Int _ { p with size := size }
              ((edited fs₂ path { p with size := size }
                (resize (fs₂.spoolBytes p.spool) size)).without path)
            refine .inr ⟨rfl, rc, q, fs₃, hsend, ?_⟩
            rw [Proc.bind_ok (resizePending_run hresizes p size), Proc.bind_ok (takePending_run _ _)]
            rw [show (edited fs₂ path { p with size := size }
              (resize (fs₂.spoolBytes p.spool) size)).pending path = some { p with size := size }
              from Function.update_self ..]
            show (sendPending { p with size := size } >>= _) (without _ path) = _
            rw [Proc.bind_ok hsend]
            rfl

end Make

end Fs

end Bsdroid
