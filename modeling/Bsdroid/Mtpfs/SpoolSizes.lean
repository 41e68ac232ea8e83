import Bsdroid.Mtpfs.Calls

/-!
# The sizes of spool files

An entry says how many bytes the send announces.  Its spool file holds no more than that,
unless a write to it failed and the entry is not sent (`Fs.Covered.run`).
-/

namespace Bsdroid

namespace Fs

variable {σ : Type} [Link σ] {fs fs' fs₁ fs₂ : Fs σ} {path : Str} {p q : Pending}
  {R : Mtp σ → Mtp σ → Prop}

/-- The spool file of an entry is no longer than the entry says, unless a write to it failed. -/
def Covered (fs : Fs σ) : Prop := ∀ path p, fs.pending path = some p → p.broken = none →
  (fs.spoolBytes p.spool).length ≤ p.size

omit [Link σ] in
/-- The entry of one path changes, and the entries of the others keep their files. -/
theorem Covered.of_others (path : Str) (h : Covered fs)
    (hothers : ∀ path' p', path' ≠ path → fs'.pending path' = some p' →
      fs.pending path' = some p' ∧ fs'.disk p'.spool = fs.disk p'.spool)
    (hown : ∀ p, fs'.pending path = some p → p.broken = none →
      (fs'.spoolBytes p.spool).length ≤ p.size) : Covered fs' := by
  intro path' p' hp' hbroken
  by_cases hpath : path' = path
  · exact hown p' (hpath ▸ hp') hbroken
  · obtain ⟨hbefore, hdisk⟩ := hothers path' p' hpath hp'
    rw [spoolBytes, hdisk]
    exact h path' p' hbefore hbroken

omit [Link σ] in
/-- Every entry that is left keeps its file. -/
theorem Covered.of_kept (h : Covered fs) (hkept : ∀ path' p', fs'.pending path' = some p' →
    fs.pending path' = some p' ∧ fs'.disk p'.spool = fs.disk p'.spool) : Covered fs' := by
  intro path' p' hp' hbroken
  obtain ⟨hbefore, hdisk⟩ := hkept path' p' hp'
  rw [spoolBytes, hdisk]
  exact h path' p' hbefore hbroken

omit [Link σ] in
theorem eq_of_withEntry (hp : (fs.withEntry path q).pending path = some p) : p = q := by
  rcases pending_withEntry.mp hp with ⟨-, hq⟩ | ⟨hne, -⟩
  · exact hq
  · exact absurd rfl hne

omit [Link σ] in
theorem Covered.edited (h : Covered fs) (htidy : Tidy fs) (hp : fs.pending path = some p)
    (q : Pending) (hspool : q.spool = p.spool) {file : Bytes}
    (hfile : q.broken = none → file.length ≤ q.size) : Covered (fs.edited path q file) := by
  refine h.of_others path (fun path' p' hne hp' => ?_) fun p' hp' hbroken => ?_
  · rw [edited_other hne] at hp'
    refine ⟨hp', ?_⟩
    have hother : p'.spool ≠ q.spool := fun hsame =>
      hne (htidy.apart path' path p' p hp' hp (hsame.trans hspool))
    exact Function.update_of_ne hother _ _
  · have hq : p' = q := @eq_of_withEntry _ fs path p' q hp'
    subst hq
    rw [show (fs.edited path p' file).spoolBytes p'.spool = file from spoolBytes_put fs _ _]
    exact hfile hbroken

omit [Link σ] in
/-- A write that went down whole covers the file it made. -/
theorem length_writeAt {start bytes file : Bytes} {offset done size : Nat}
    {answers : List WriteAnswer} (hstart : start.length ≤ size)
    (hdown : writeAt offset bytes answers 0 start = (.ok done, file)) :
    file.length ≤ max size (offset + bytes.length) := by
  obtain ⟨hdone, hle⟩ := writeAt_down (Down.start start offset bytes) (Nat.zero_le _) hdown
  rw [Down] at hdone
  by_cases hzero : done = 0
  · rw [if_pos hzero] at hdone
    rw [hdone]
    omega
  · rw [if_neg hzero] at hdone
    have hlength := congrArg SparseFile.size hdone
    simp only [SparseFile.size_of, SparseFile.size_write, List.length_take] at hlength
    omega

omit [Link σ] in
/-- A spool file that is made and filled is no other entry's. -/
theorem disk_copied (htidy : Tidy fs) (hkeeps : Keeps R fs fs₁)
    (hfills : Fills R fs₁.spoolCount fs₁.withSpool fs₂) {path' : Str} {p' : Pending}
    (hp' : fs.pending path' = some p') :
    p'.spool ≠ fs₁.spoolCount ∧ fs₂.disk p'.spool = fs.disk p'.spool := by
  have hlt := Nat.lt_of_lt_of_le (htidy.counted path' p' hp') hkeeps.count
  have hne : p'.spool ≠ fs₁.spoolCount := Nat.ne_of_lt hlt
  refine ⟨hne, ?_⟩
  rw [hfills.others _ hne, withSpool]
  dsimp only
  rw [Function.update_of_ne hne, hkeeps.disk]

omit [Link σ] in
theorem Covered.copied (h : Covered fs) (htidy : Tidy fs) (hkeeps : Keeps R fs fs₁)
    (hfills : Fills R fs₁.spoolCount fs₁.withSpool fs₂) : Covered fs₂ := by
  refine h.of_kept fun path p hp => ?_
  have hbefore : fs.pending path = some p := by
    rw [← hkeeps.pending]
    exact hfills.pending ▸ hp
  exact ⟨hbefore, (disk_copied htidy hkeeps hfills hbefore).2⟩

omit [Link σ] in
theorem Covered.adopts (h : Covered fs) (htidy : Tidy fs) (hkeeps : Keeps R fs fs₁)
    (hfills : Fills R fs₁.spoolCount fs₁.withSpool fs₂) {bytes : Bytes}
    (hdisk : fs₂.disk fs₁.spoolCount = some bytes) {handle : UInt32} {entry : Entry} :
    Covered (fs₂.withEntry path (adopted handle entry fs₁.spoolCount bytes.length)) := by
  refine (h.copied htidy hkeeps hfills).of_others path (fun path' p' hne hp' => ?_)
    fun p' hp' _ => ?_
  · rw [withEntry_other hne] at hp'
    exact ⟨hp', rfl⟩
  · rw [eq_of_withEntry hp']
    show ((fs₂.disk fs₁.spoolCount).getD []).length ≤ bytes.length
    rw [hdisk]
    exact Nat.le_refl _

/-- **One call keeps the entries covered.** -/
theorem Effect.covered {c : Call} {answer : Except Int Int} (heffect : Effect R fs c answer fs')
    (htidy : Tidy fs) (h : Covered fs) : Covered fs' := by
  cases heffect with
  | keeps hkeeps =>
      refine h.of_kept fun path p hp => ?_
      rw [hkeeps.pending] at hp
      exact ⟨hp, by rw [hkeeps.disk]⟩
  | @wrote path bytes offset p done file hp hdown hall =>
      refine h.edited htidy hp _ ?_ fun hbroken => ?_
      · rfl
      · exact length_writeAt (h path p hp hbroken) hdown
  | broke hp =>
      refine h.edited htidy hp _ ?_ fun hbroken => ?_
      · rfl
      · cases hbroken
  | @resized path size p hp =>
      refine h.edited htidy hp _ ?_ fun _ => ?_
      · rfl
      · rw [resize, List.length_append, List.length_take, List.length_replicate]
        dsimp only
        omega
  | @flushed path fi p q rc fs₁ hfi hp hsent hsend hkeeps hsame =>
      refine h.of_others path (fun path' p' hne hp' => ?_) fun p' hp' hbroken => ?_
      · rw [withEntry_other hne, hkeeps.pending, without_other hne] at hp'
        exact ⟨hp', congrFun hkeeps.disk _⟩
      · have hq := eq_of_withEntry hp'
        subst hq
        show ((fs₁.disk q.spool).getD []).length ≤ q.size
        rw [hkeeps.disk, hsame.spool, hsame.size]
        exact h path p hp (hsame.broken ▸ hbroken)
  | @released path fi p q fs₁ hfi hp hsend hkeeps hsame =>
      refine h.of_kept fun path' p' hp' => ?_
      rw [pending_dropped, hkeeps.pending] at hp'
      have hown := htidy.own hp hp'
      refine ⟨(pending_without.mp hp').2, ?_⟩
      rw [disk_dropped (hsame.spool ▸ hown), hkeeps.disk]
      rfl
  | @created path parent fs₁ hkeeps =>
      have hdisk : ∀ path' p', path' ≠ path → fs.pending path' = some p' →
          (fs₁.withSpool.replaced path (Fs.created parent (splitParent path).2 fs₁.spoolCount)).disk
            p'.spool = fs.disk p'.spool := by
        intro path' p' hne hp'
        have hlt := Nat.lt_of_lt_of_le (htidy.counted path' p' hp') hkeeps.count
        rw [disk_replaced, withSpool]
        · dsimp only
          rw [Function.update_of_ne (Nat.ne_of_lt hlt), hkeeps.disk]
        · intro old hold hsame
          have hold' : fs.pending path = some old := by
            rw [← hkeeps.pending]
            exact hold
          exact hne (htidy.apart path' path p' old hp' hold' hsame)
      refine h.of_others path (fun path' p' hne hp' => ?_) fun p' hp' _ => ?_
      · rw [pending_replaced, withEntry_other hne] at hp'
        have hbefore : fs.pending path' = some p' := by
          rw [← hkeeps.pending]
          exact hp'
        exact ⟨hbefore, hdisk path' p' hne hbefore⟩
      · rw [pending_replaced] at hp'
        have hq := eq_of_withEntry hp'
        subst hq
        rw [spoolBytes, disk_replaced]
        · show (fs₁.withSpool.spoolBytes fs₁.spoolCount).length ≤ 0
          rw [spoolBytes_withSpool]
          exact Nat.le_refl _
        · intro old hold
          have hold' : fs.pending path = some old := by
            rw [← hkeeps.pending]
            exact hold
          exact Nat.ne_of_gt (Nat.lt_of_lt_of_le (htidy.counted path old hold') hkeeps.count)
  | @opened path flags handle entry bytes fs₁ fs₂ hwrites hreaches hfills hdisk hempty =>
      exact h.adopts htidy hreaches.keeps hfills hdisk
  | openStray hwrites hreaches hcopy hfills => exact h.copied htidy hreaches.keeps hfills
  | truncateStray hreaches hcopy hfills => exact h.copied htidy hreaches.keeps hfills
  | truncateLeft hreaches hadopts hfills hdisk hresizes =>
      exact h.adopts htidy hreaches.keeps hfills hdisk
  | @truncated path size handle entry bytes q rc fs₁ fs₂ fs₃ hreaches hadopts hfills hdisk hresizes
      hsend hkeeps hsame =>
      refine h.of_kept fun path' p' hp' => ?_
      rw [pending_dropped, hkeeps.pending] at hp'
      have hbefore : fs.pending path' = some p' := by
        rw [← hreaches.keeps.pending]
        exact hfills.pending ▸ hp'
      obtain ⟨hne, hsame'⟩ := disk_copied htidy hreaches.keeps hfills hbefore
      refine ⟨hbefore, ?_⟩
      rw [disk_dropped (by rw [hsame.spool]; exact hne), hkeeps.disk]
      dsimp only
      rw [Function.update_of_ne hne, hsame']

omit [Link σ] in
theorem covered_start (mtp : Mtp σ) (host : Host) : Covered (start mtp host) :=
  fun _ _ hp => absurd hp.symm (Option.some_ne_none _)

/-- **The entries are covered** in every state a mount reaches. -/
theorem Covered.run (h : Covered fs) (htidy : Tidy fs) (calls : List (Host × Call)) :
    Covered (fs.run calls) := by
  induction calls generalizing fs with
  | nil => exact h
  | cons e calls ih =>
      refine ih ?_ (htidy.step e)
      have htidy' : Tidy { fs with host := e.1 } :=
        ⟨htidy.counted, htidy.apart, htidy.there, htidy.made⟩
      exact (call_effect respects_anything fs e).covered htidy' h

end Fs

end Bsdroid
