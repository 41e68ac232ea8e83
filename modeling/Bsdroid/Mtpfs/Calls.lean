import Bsdroid.Lib.Run
import Bsdroid.Mtpfs.Asking
import Bsdroid.Mtpfs.Entries

/-!
# What one call can do

`Fs.Effect` lists what one call can do to the entries and the spool files, and
`Fs.number_effect` says that there is nothing else.  A run is a list of calls,
each with what the disk of the host does in it.

Every state a mount reaches is `Tidy`: each entry has a spool file of its own
(`Fs.Tidy.run`).
-/

namespace Bsdroid

namespace Fs

variable {σ : Type} [Link σ]

/-- The operations of a session that no send needs respect a relation. -/
structure Respects (R : Mtp σ → Mtp σ → Prop) : Prop extends Chains R where
  list : ∀ parent, Proc.Steps R (Mtp.list parent)
  read : ∀ h offset want size, Proc.Steps R (Mtp.readAt h offset want size)
  info : Proc.Steps R (Mtp.storageInfo : Proc Error (Mtp σ) (Nat × Nat))
  rename : ∀ h name, Proc.Steps R (Mtp.renameObject h name)
  move : ∀ h p, Proc.Steps R (Mtp.moveObject h p)
  delete : ∀ h, Proc.Steps R (Mtp.deleteObject h)

/-- Every operation of a session respects a relation. -/
structure RespectsSends (R : Mtp σ → Mtp σ → Prop) : Prop extends Respects R where
  send : ∀ parent name data isFolder, Proc.Steps R (Mtp.sendObject parent name data isFolder)
  stream : ∀ parent name reader size,
    Proc.Steps R (Mtp.sendObjectStream parent name reader size)

/-- A relation that every request respects. -/
theorem respects_of_takes {R : Mtp σ → Mtp σ → Prop} (h : Mtp.Takes (fun _ => True) R)
    (hslow : ∀ m : Mtp σ, R m { m with fastList := false }) : RespectsSends R where
  toChains := h.toChains
  list := (h.reads (fun _ _ _ => trivial) hslow).list
  read := (h.reads (fun _ _ _ => trivial) hslow).readAt
  info := h.storageInfo fun _ _ => trivial
  rename := h.renameObject fun _ _ _ => trivial
  move := h.moveObject fun _ _ => trivial
  delete := h.deleteObject fun _ _ => trivial
  send := h.sendObject fun _ _ _ _ => trivial
  stream _ _ _ _ := h.sendObjectStream (fun _ _ => trivial) trivial

theorem respects_anything : RespectsSends (Anything : Mtp σ → Mtp σ → Prop) :=
  respects_of_takes ⟨chains_anything, fun _ _ _ => trivial, fun _ _ => trivial⟩ fun _ => trivial

/-- What a call does to the entries and the spool files.  `keeps` is every call that
touches neither. -/
inductive Effect (R : Mtp σ → Mtp σ → Prop) (fs : Fs σ) : Call → Except Int Int → Fs σ → Prop
  | keeps {c : Call} {answer : Except Int Int} {fs' : Fs σ} (hkeeps : Keeps R fs fs') :
      Effect R fs c answer fs'
  | wrote {path : Str} {bytes : Bytes} {offset : Nat} {p : Pending} {done : Nat} {file : Bytes}
      (hp : fs.pending path = some p)
      (hdown : writeAt offset bytes fs.host.writes 0 (fs.spoolBytes p.spool) = (.ok done, file))
      (hall : bytes.length ≤ done) :
      Effect R fs (.write path bytes offset) (.ok bytes.length)
        (fs.edited path { p with size := max p.size (offset + bytes.length) } file)
  | broke {path : Str} {bytes : Bytes} {offset : Nat} {p : Pending} {rc : Int} {file : Bytes}
      (hp : fs.pending path = some p) :
      Effect R fs (.write path bytes offset) (.error (-rc))
        (fs.edited path { p with broken := some rc } file)
  | resized {path : Str} {size : Nat} {p : Pending} (hp : fs.pending path = some p) :
      Effect R fs (.truncate path size) (.ok 0)
        (fs.edited path { p with size := size } (resize (fs.spoolBytes p.spool) size))
  | flushed {path : Str} {fi : Option Nat} {p q : Pending} {rc : Int} {fs₁ : Fs σ}
      (hfi : fhWrites fi = true) (hp : fs.pending path = some p) (hsent : p.sent = none)
      (hsend : (sendPending p : Proc Int (Fs σ) _) (fs.without path) = (.ok (rc, q), fs₁))
      (hkeeps : Keeps R (fs.without path) fs₁) (hsame : SameFile p q) :
      Effect R fs (.flush path fi) (.ok rc) (fs₁.withEntry path { q with sent := some rc })
  | released {path : Str} {fi : Option Nat} {p q : Pending} {fs₁ : Fs σ}
      (hfi : fhWrites fi = true) (hp : fs.pending path = some p)
      (hsend : (p.sent ≠ none ∧ q = p ∧ fs₁ = fs.without path) ∨ (p.sent = none ∧ ∃ rc,
        (sendPending p : Proc Int (Fs σ) _) (fs.without path) = (.ok (rc, q), fs₁)))
      (hkeeps : Keeps R (fs.without path) fs₁) (hsame : SameFile p q) :
      Effect R fs (.release path fi) (.ok 0) (fs₁.dropped q)
  | created {path : Str} {parent : UInt32} {fs₁ : Fs σ} (hkeeps : Keeps R fs fs₁) :
      Effect R fs (.create path) (.ok 0) (fs₁.withSpool.replaced path
        (created parent (splitParent path).2 fs₁.spoolCount))
  | opened {path : Str} {flags : Nat} {handle : UInt32} {entry : Entry} {bytes : Bytes}
      {fs₁ fs₂ : Fs σ} (hwrites : Oflag.writes flags = true)
      (hreaches : Reaches R path fs handle entry fs₁)
      (hfills : Fills R fs₁.spoolCount fs₁.withSpool fs₂)
      (hdisk : fs₂.disk fs₁.spoolCount = some bytes)
      (hempty : ¬ (flags &&& Oflag.TRUNC = 0 ∧ entry.size > 0) → bytes = []) :
      Effect R fs (.opens path flags) (.ok 0)
        (fs₂.withEntry path (adopted handle entry fs₁.spoolCount bytes.length))
  | openStray {path : Str} {flags : Nat} {handle : UInt32} {entry : Entry} {rc : Int}
      {fs₁ fs₂ : Fs σ} (hwrites : Oflag.writes flags = true)
      (hreaches : Reaches R path fs handle entry fs₁)
      (hcopy : CopyFails handle entry (flags &&& Oflag.TRUNC = 0) fs₁ rc fs₂)
      (hfills : Fills R fs₁.spoolCount fs₁.withSpool fs₂) :
      Effect R fs (.opens path flags) (.error rc) fs₂
  | truncateStray {path : Str} {size : Nat} {handle : UInt32} {entry : Entry} {rc : Int}
      {fs₁ fs₂ : Fs σ} (hreaches : Reaches R path fs handle entry fs₁)
      (hcopy : CopyFails handle entry (size > 0) fs₁ rc fs₂)
      (hfills : Fills R fs₁.spoolCount fs₁.withSpool fs₂) :
      Effect R fs (.truncate path size) (.error rc) fs₂
  | truncateLeft {path : Str} {size : Nat} {handle : UInt32} {entry : Entry} {bytes : Bytes}
      {fs₁ fs₂ : Fs σ} (hreaches : Reaches R path fs handle entry fs₁)
      (hadopts : adoptForWrite path handle entry (size > 0) fs₁ =
        (.ok (), fs₂.withEntry path (adopted handle entry fs₁.spoolCount bytes.length)))
      (hfills : Fills R fs₁.spoolCount fs₁.withSpool fs₂)
      (hdisk : fs₂.disk fs₁.spoolCount = some bytes) (hresizes : fs.host.resizes = false) :
      Effect R fs (.truncate path size) (.error (-Libc.EIO))
        (fs₂.withEntry path (adopted handle entry fs₁.spoolCount bytes.length))
  | truncated {path : Str} {size : Nat} {handle : UInt32} {entry : Entry} {bytes : Bytes}
      {q : Pending} {rc : Int} {fs₁ fs₂ fs₃ : Fs σ} (hreaches : Reaches R path fs handle entry fs₁)
      (hadopts : adoptForWrite path handle entry (size > 0) fs₁ =
        (.ok (), fs₂.withEntry path (adopted handle entry fs₁.spoolCount bytes.length)))
      (hfills : Fills R fs₁.spoolCount fs₁.withSpool fs₂)
      (hdisk : fs₂.disk fs₁.spoolCount = some bytes) (hresizes : fs.host.resizes = true)
      (hsend : (sendPending (adopted handle entry fs₁.spoolCount size) : Proc Int (Fs σ) _)
        { fs₂ with disk := Function.update fs₂.disk fs₁.spoolCount (some (resize bytes size)) } =
          (.ok (rc, q), fs₃))
      (hkeeps : Keeps R { fs₂ with
        disk := Function.update fs₂.disk fs₁.spoolCount (some (resize bytes size)) } fs₃)
      (hsame : SameFile (adopted handle entry fs₁.spoolCount size) q) :
      Effect R fs (.truncate path size) (.ok rc) (fs₃.dropped q)

section

variable {R : Mtp σ → Mtp σ → Prop} (h : RespectsSends R)
include h

omit h in
/-- A call that only asks for a value. -/
theorem effect_of_keeps {α : Type} {x : Proc Int (Fs σ) α} (hx : Proc.Steps (Keeps R) x)
    {f : α → Int} {c : Call} (hc : c.number = x >>= fun a => pure (f a)) (fs : Fs σ) :
    Effect R fs c (c.number fs).1 (c.number fs).2 := by
  refine .keeps ?_
  rw [hc, Proc.bind_pure_state]
  exact hx fs

/-- A send leaves the entries and the spool files, and is made of operations of the device. -/
theorem sendPending_respects (p : Pending) (fs : Fs σ) :
    Keeps R fs ((sendPending p : Proc Int (Fs σ) (Int × Pending)) fs).2 :=
  sendPending_keeps h.toChains h.info h.rename (fun old _ => h.delete old) (h.stream _ _ _ _)

/-- A flush of a writer sends its entry once, and keeps the answer in it. -/
theorem flush_effect (path : Str) (fi : Option Nat) (fs : Fs σ) :
    Effect R fs (.flush path fi) (opFlush path fi fs).1 (opFlush path fi fs).2 := by
  have hrefl := Keeps.refl h.toChains fs
  cases hfi : fhWrites fi with
  | false => rw [opFlush_reader hfi]; exact .keeps hrefl
  | true =>
      cases hp : fs.pending path with
      | none => rw [opFlush_none hfi hp]; exact .keeps hrefl
      | some p =>
          cases hsent : p.sent with
          | some rc => rw [opFlush_sent hfi hp hsent]; exact .keeps hrefl
          | none =>
              obtain ⟨rc, q, fs₁, hsend, hrun⟩ := opFlush_unsent hfi hp hsent
              have hkeeps := sendPending_respects h p (fs.without path)
              obtain ⟨a, s, ha, hsame⟩ := @sendPending_returns σ Int _ p (fs.without path)
              rw [hsend] at hkeeps ha
              cases ha
              rw [hrun]
              exact .flushed hfi hp hsent hsend hkeeps hsame

/-- A release of a writer sends what no flush did, and drops the entry. -/
theorem release_effect (path : Str) (fi : Option Nat) (fs : Fs σ) :
    Effect R fs (.release path fi) (opRelease path fi fs).1 (opRelease path fi fs).2 := by
  have hrefl := Keeps.refl h.toChains fs
  cases hfi : fhWrites fi with
  | false => rw [opRelease_reader hfi]; exact .keeps hrefl
  | true =>
      cases hp : fs.pending path with
      | none => rw [opRelease_none hfi hp]; exact .keeps hrefl
      | some p =>
          cases hsent : p.sent with
          | some rc =>
              rw [opRelease_sent hfi hp hsent]
              exact .released hfi hp (.inl ⟨by rw [hsent]; exact Option.some_ne_none _, rfl, rfl⟩)
                (.refl h.toChains _) (.refl p)
          | none =>
              obtain ⟨rc, q, fs₁, hsend, hrun⟩ := opRelease_unsent hfi hp hsent
              have hkeeps := sendPending_respects h p (fs.without path)
              obtain ⟨a, s, ha, hsame⟩ := @sendPending_returns σ Int _ p (fs.without path)
              rw [hsend] at hkeeps ha
              cases ha
              rw [hrun]
              exact .released hfi hp (.inr ⟨hsent, rc, hsend⟩) hkeeps hsame

/-- A write changes the spool file of an entry, or tells why not. -/
theorem write_effect (path : Str) (bytes : Bytes) (offset : Nat) (fs : Fs σ) :
    Effect R fs (.write path bytes offset) ((Call.write path bytes offset).number fs).1
      ((Call.write path bytes offset).number fs).2 := by
  rw [Call.number, Proc.bind_run]
  cases hp : fs.pending path with
  | none =>
      have hrun : opWrite path bytes offset fs = (.error (-Libc.EROFS), fs) := by
        rw [opWrite, Proc.bind_ok (Proc.get_run _), hp]
        rfl
      rw [hrun]
      exact .keeps (.refl h.toChains fs)
  | some p =>
      rcases opWrite_entry hp bytes offset with ⟨done, file, hdown, hall, hrun⟩ | ⟨rc, file, hrun⟩
      · rw [hrun]
        exact .wrote hp hdown hall
      · rw [hrun]
        exact .broke hp

/-- A new file has an entry with an empty spool file. -/
theorem create_effect (path : Str) (fs : Fs σ) :
    Effect R fs (.create path) ((Call.create path).number fs).1
      ((Call.create path).number fs).2 := by
  rw [Call.number, Proc.bind_run]
  rcases opCreate_cases h.toChains h.list path fs with ⟨rc, fs₁, hrun, hkeeps⟩ | ⟨parent, fs₁, hrun, hkeeps⟩
  · rw [hrun]
    exact .keeps hkeeps
  · rw [hrun]
    exact .created hkeeps

/-- An open for writing makes an entry where there is none. -/
theorem opens_effect (path : Str) (flags : Nat) (fs : Fs σ) :
    Effect R fs (.opens path flags) ((Call.opens path flags).number fs).1
      ((Call.opens path flags).number fs).2 := by
  rw [Call.number, Proc.bind_run]
  rcases opOpen_cases h.toChains h.list path flags fs with ⟨hkeeps, -⟩ |
    ⟨handle, entry, fs₁, hwrites, hreaches, hrun⟩
  · rcases hrun : opOpen path flags fs with ⟨rc | fh, fs'⟩
    · rw [hrun] at hkeeps
      exact .keeps hkeeps
    · rw [hrun] at hkeeps
      exact .keeps hkeeps
  · have hadopt := adoptForWrite_cases h.toChains h.read hreaches.free_still handle entry
      (flags &&& Oflag.TRUNC = 0)
    rw [hrun]
    generalize adoptForWrite path handle entry (flags &&& Oflag.TRUNC = 0) fs₁ = result at hadopt
    cases hadopt with
    | refused hkeeps => exact .keeps (hreaches.keeps.trans h.toChains hkeeps)
    | stray hcopy hfills => exact .openStray hwrites hreaches hcopy hfills
    | made hfills hdisk hempty =>
        exact .opened hwrites hreaches hfills hdisk fun hno => hempty (by simpa using hno)

/-- A truncation changes the spool file of an entry, or adopts, sends and drops a file. -/
theorem truncate_effect (path : Str) (size : Nat) (fs : Fs σ) :
    Effect R fs (.truncate path size) (opTruncate path size fs).1 (opTruncate path size fs).2 := by
  cases hp : fs.pending path with
  | some p =>
      rw [opTruncate_entry hp]
      by_cases hresizes : fs.host.resizes = true
      · rw [if_pos hresizes]
        exact .resized hp
      · rw [if_neg hresizes]
        exact .keeps (.refl h.toChains fs)
  | none =>
      rcases opTruncate_free h.toChains h.list h.read hp size with hkeeps |
        ⟨handle, entry, fs₁, hreaches, hmore⟩
      · exact .keeps hkeeps
      have hadopt := adoptForWrite_cases h.toChains h.read hreaches.free_still handle entry (size > 0)
      rcases hmore with ⟨rc, fs₂, hadopts, hrun⟩ | ⟨p, fs₂, hadopts, hp₂, hmore⟩
      · rw [hadopts] at hadopt
        rw [hrun]
        cases hadopt with
        | refused hkeeps => exact .keeps (hreaches.keeps.trans h.toChains hkeeps)
        | stray hcopy hfills => exact .truncateStray hreaches hcopy hfills
      · rw [hadopts] at hadopt
        cases hadopt with
        | @made bytes fs₂ hfills hdisk hempty =>
            cases (Function.update_self path _ fs₂.pending).symm.trans hp₂
            have hhost : fs₂.host = fs.host := hfills.host.trans hreaches.keeps.host
            rcases hmore with ⟨hresizes, hrun⟩ | ⟨hresizes, rc, q, fs₃, hsend, hrun⟩
            · rw [hrun]
              exact .truncateLeft hreaches hadopts hfills hdisk (hhost ▸ hresizes)
            · have hnone : fs₂.pending path = none := hfills.pending ▸ hreaches.free_still
              have hbytes : (fs₂.withEntry path (adopted handle entry fs₁.spoolCount
                  bytes.length)).spoolBytes fs₁.spoolCount = bytes := by
                rw [spoolBytes, withEntry, hdisk, Option.getD_some]
              have hstate : ((fs₂.withEntry path (adopted handle entry fs₁.spoolCount
                  bytes.length)).edited path (adopted handle entry fs₁.spoolCount size)
                  (resize bytes size)).without path = { fs₂ with
                    disk := Function.update fs₂.disk fs₁.spoolCount (some (resize bytes size)) } :=
                edited_without hnone _ _
              have hsend' := hsend
              simp only [adopted] at hbytes
              simp only [adopted, hbytes] at hsend'
              have hsent := sendPending_respects h (adopted handle entry fs₁.spoolCount size) { fs₂ with
                disk := Function.update fs₂.disk fs₁.spoolCount (some (resize bytes size)) }
              obtain ⟨a, s, ha, hsame⟩ := @sendPending_returns σ Int _
                (adopted handle entry fs₁.spoolCount size) { fs₂ with
                  disk := Function.update fs₂.disk fs₁.spoolCount (some (resize bytes size)) }
              rw [← hstate] at hsent ha
              simp only [adopted] at hsent ha
              rw [hsend'] at hsent ha
              cases ha
              rw [hrun]
              refine .truncated hreaches hadopts hfills hdisk (hhost ▸ hresizes) ?_ ?_ hsame
              · rw [← hstate]
                exact hsend'
              · rw [← hstate]
                exact hsent

/-- **There is nothing else that a call can do.** -/
theorem number_effect (c : Call) (fs : Fs σ) :
    Effect R fs c (c.number fs).1 (c.number fs).2 := by
  have hR := h.toChains
  cases c with
  | getattr path => exact effect_of_keeps ((walks_keeps hR h.list).looks.opGetattr path) rfl fs
  | readdir path => exact effect_of_keeps ((walks_keeps hR h.list).looks.opReaddir path) rfl fs
  | statfs => exact effect_of_keeps (opStatfs_keeps hR h.info) rfl fs
  | opens path flags => exact opens_effect h path flags fs
  | create path => exact create_effect h path fs
  | read path size offset fi =>
      exact effect_of_keeps (opRead_keeps hR h.list h.read path size offset fi) rfl fs
  | write path bytes offset => exact write_effect h path bytes offset fs
  | truncate path size => exact truncate_effect h path size fs
  | flush path fi => exact flush_effect h path fi fs
  | release path fi => exact release_effect h path fi fs
  | rename source target =>
      exact .keeps (opRename_keeps hR h.list h.rename h.move h.delete source target fs)
  | unlink path => exact .keeps (removeObject_keeps hR h.list h.delete path false fs)
  | rmdir path => exact .keeps (removeObject_keeps hR h.list h.delete path true fs)
  | mkdir path => exact .keeps (opMkdir_keeps hR h.list h.send path fs)

end

/-! ## The calls that send nothing -/

/-- A call that can send an object. -/
def Call.sends : Call → Bool
  | .truncate _ _ => true
  | .flush _ _ => true
  | .release _ _ => true
  | .mkdir _ => true
  | _ => false

section

variable {fs fs' : Fs σ} {path : Str} {p : Pending}

omit [Link σ]

theorem mtp_dropped : (fs.dropped p).mtp = fs.mtp := by
  rw [dropped]
  split <;> rfl

theorem mtp_replaced : (fs.replaced path p).mtp = fs.mtp := by
  rw [replaced]
  split
  · exact mtp_dropped
  · rfl

end

/-- A call that asks the device, and changes nothing there. -/
def Call.asks : Call → Bool
  | .getattr _ => true
  | .readdir _ => true
  | .statfs => true
  | .opens _ _ => true
  | .create _ => true
  | .read _ _ _ _ => true
  | .write _ _ _ => true
  | _ => false

/-- A call that asks needs the questions alone. -/
theorem asking_device {R : Mtp σ → Mtp σ → Prop} (hR : Chains R)
    (hlist : ∀ parent, Proc.Steps R (Mtp.list parent))
    (hread : ∀ h offset want size, Proc.Steps R (Mtp.readAt h offset want size))
    (hinfo : Proc.Steps R (Mtp.storageInfo : Proc Error (Mtp σ) (Nat × Nat))) {c : Call}
    (hc : c.asks = true) (fs : Fs σ) : R fs.mtp (c.number fs).2.mtp := by
  cases c with
  | getattr path =>
      rw [Call.number, Proc.bind_pure_state]
      exact ((walks_keeps hR hlist).looks.opGetattr path fs).device
  | readdir path =>
      rw [Call.number, Proc.bind_pure_state]
      exact ((walks_keeps hR hlist).looks.opReaddir path fs).device
  | statfs =>
      rw [Call.number, Proc.bind_pure_state]
      exact (opStatfs_keeps hR hinfo fs).device
  | opens path flags =>
      rw [Call.number, Proc.bind_pure_state]
      rcases opOpen_cases hR hlist path flags fs with ⟨hkeeps, -⟩ |
        ⟨handle, entry, fs₁, -, hreaches, hrun⟩
      · exact hkeeps.device
      · have hadopt := adoptForWrite_cases hR hread hreaches.free_still handle entry
          (flags &&& Oflag.TRUNC = 0)
        rw [hrun]
        refine hR.trans hreaches.keeps.device ?_
        generalize adoptForWrite path handle entry (flags &&& Oflag.TRUNC = 0) fs₁ = result at hadopt
        cases hadopt with
        | refused hkeeps => exact hkeeps.device
        | stray hcopy hfills => exact hfills.device
        | made hfills hdisk hempty => exact hfills.device
  | create path =>
      rw [Call.number, Proc.bind_pure_state]
      rcases opCreate_cases hR hlist path fs with ⟨rc, fs₁, hrun, hkeeps⟩ |
        ⟨parent, fs₁, hrun, hkeeps⟩
      · rw [hrun]
        exact hkeeps.device
      · rw [hrun, mtp_replaced]
        exact hkeeps.device
  | read path size offset fi =>
      rw [Call.number, Proc.bind_pure_state]
      exact (opRead_keeps hR hlist hread path size offset fi fs).device
  | write path bytes offset =>
      rw [Call.number, Proc.bind_pure_state, opWrite_mtp]
      exact hR.refl _
  | _ => cases hc

/-- A call that sends nothing needs less of the session. -/
theorem number_device {R : Mtp σ → Mtp σ → Prop} (h : Respects R) {c : Call}
    (hc : c.sends = false) (fs : Fs σ) : R fs.mtp (c.number fs).2.mtp := by
  have hR := h.toChains
  cases hasks : c.asks with
  | true => exact asking_device hR h.list h.read h.info hasks fs
  | false =>
      cases c with
      | rename source target =>
          exact (opRename_keeps hR h.list h.rename h.move h.delete source target fs).device
      | unlink path => exact (removeObject_keeps hR h.list h.delete path false fs).device
      | rmdir path => exact (removeObject_keeps hR h.list h.delete path true fs).device
      | truncate path size => cases hc
      | flush path fi => cases hc
      | release path fi => cases hc
      | mkdir path => cases hc
      | _ => cases hasks

/-- **A call does to the session what its operations do.** -/
theorem Effect.device {R : Mtp σ → Mtp σ → Prop} (hR : Chains R) {fs fs' : Fs σ} {c : Call}
    {answer : Except Int Int} (heffect : Effect R fs c answer fs') : R fs.mtp fs'.mtp := by
  cases heffect with
  | keeps hkeeps => exact hkeeps.device
  | wrote hp hdown hall => exact hR.refl _
  | broke hp => exact hR.refl _
  | resized hp => exact hR.refl _
  | flushed hfi hp hsent hsend hkeeps hsame => exact hkeeps.device
  | released hfi hp hsend hkeeps hsame =>
      rw [mtp_dropped]
      exact hkeeps.device
  | created hkeeps =>
      rw [mtp_replaced]
      exact hkeeps.device
  | opened hwrites hreaches hfills hdisk hempty =>
      exact hR.trans hreaches.keeps.device hfills.device
  | openStray hwrites hreaches hcopy hfills =>
      exact hR.trans hreaches.keeps.device hfills.device
  | truncateStray hreaches hcopy hfills =>
      exact hR.trans hreaches.keeps.device hfills.device
  | truncateLeft hreaches hadopts hfills hdisk hresizes =>
      exact hR.trans hreaches.keeps.device hfills.device
  | truncated hreaches hadopts hfills hdisk hresizes hsend hkeeps hsame =>
      rw [mtp_dropped]
      exact hR.trans (hR.trans hreaches.keeps.device hfills.device) hkeeps.device

/-! ## The other paths -/

/-- The path whose entry a call can touch. -/
def Call.touches : Call → Option Str
  | .opens path _ => some path
  | .create path => some path
  | .write path _ _ => some path
  | .truncate path _ => some path
  | .flush path _ => some path
  | .release path _ => some path
  | _ => none

section

variable {fs : Fs σ} {path path' : Str} {p : Pending}

omit [Link σ]

theorem edited_other (hne : path' ≠ path) (file : Bytes) :
    (fs.edited path p file).pending path' = fs.pending path' :=
  Function.update_of_ne hne _ _

theorem withEntry_other (hne : path' ≠ path) :
    (fs.withEntry path p).pending path' = fs.pending path' :=
  Function.update_of_ne hne _ _

theorem without_other (hne : path' ≠ path) : (fs.without path).pending path' = fs.pending path' :=
  Function.update_of_ne hne _ _

theorem pending_dropped : (fs.dropped p).pending = fs.pending := by
  rw [dropped]
  split <;> rfl

theorem pending_replaced : (fs.replaced path p).pending = (fs.withEntry path p).pending := by
  rw [replaced]
  split
  · exact pending_dropped
  · rfl

end

/-- **A call leaves the entries of the other paths alone.** -/
theorem Effect.other {R : Mtp σ → Mtp σ → Prop} {fs fs' : Fs σ} {c : Call}
    {answer : Except Int Int} (heffect : Effect R fs c answer fs') {path : Str}
    (hpath : c.touches ≠ some path) : fs'.pending path = fs.pending path := by
  have hne : ∀ {path'}, c.touches = some path' → path ≠ path' := by
    rintro path' htouches rfl
    exact hpath htouches
  cases heffect with
  | keeps hkeeps => rw [hkeeps.pending]
  | wrote hp hdown hall => exact edited_other (hne rfl) _
  | broke hp => exact edited_other (hne rfl) _
  | resized hp => exact edited_other (hne rfl) _
  | flushed hfi hp hsent hsend hkeeps hsame =>
      rw [withEntry_other (hne rfl), hkeeps.pending, without_other (hne rfl)]
  | released hfi hp hsend hkeeps hsame =>
      rw [pending_dropped, hkeeps.pending, without_other (hne rfl)]
  | created hkeeps =>
      rw [pending_replaced, withEntry_other (hne rfl)]
      exact congrFun hkeeps.pending _
  | opened hwrites hreaches hfills hdisk hempty =>
      rw [withEntry_other (hne rfl), hfills.pending]
      exact congrFun hreaches.keeps.pending _
  | openStray hwrites hreaches hcopy hfills =>
      rw [hfills.pending]
      exact congrFun hreaches.keeps.pending _
  | truncateStray hreaches hcopy hfills =>
      rw [hfills.pending]
      exact congrFun hreaches.keeps.pending _
  | truncateLeft hreaches hadopts hfills hdisk hresizes =>
      rw [withEntry_other (hne rfl), hfills.pending]
      exact congrFun hreaches.keeps.pending _
  | truncated hreaches hadopts hfills hdisk hresizes hsend hkeeps hsame =>
      rw [pending_dropped, hkeeps.pending, hfills.pending]
      exact congrFun hreaches.keeps.pending _

/-! ## Each entry has a spool file of its own -/

/-- The entries name spool files that are on the disk, and no two name the same. -/
structure Tidy (fs : Fs σ) : Prop where
  counted : ∀ path p, fs.pending path = some p → p.spool < fs.spoolCount
  apart : ∀ path path' p p', fs.pending path = some p → fs.pending path' = some p' →
    p.spool = p'.spool → path = path'
  there : ∀ path p, fs.pending path = some p → (fs.disk p.spool).isSome
  made : ∀ n, (fs.disk n).isSome → n < fs.spoolCount

namespace Tidy

variable {R : Mtp σ → Mtp σ → Prop} {fs fs' : Fs σ} {path : Str} {p q : Pending}

omit [Link σ]

theorem keeps (h : Tidy fs) (hkeeps : Keeps R fs fs') : Tidy fs' where
  counted path p hp := Nat.lt_of_lt_of_le (h.counted path p (hkeeps.pending ▸ hp)) hkeeps.count
  apart path path' p p' hp hp' :=
    h.apart path path' p p' (hkeeps.pending ▸ hp) (hkeeps.pending ▸ hp')
  there path p hp := by
    rw [hkeeps.disk]
    exact h.there path p (hkeeps.pending ▸ hp)
  made n hn := Nat.lt_of_lt_of_le (h.made n (hkeeps.disk ▸ hn)) hkeeps.count

/-- No entry of another path names the spool file of an entry. -/
theorem own (h : Tidy fs) (hp : fs.pending path = some p) {path' : Str} {p' : Pending}
    (hp' : (fs.without path).pending path' = some p') : p'.spool ≠ p.spool := by
  obtain ⟨hne, hp'⟩ := pending_without.mp hp'
  exact fun hsame => hne (h.apart path' path p' p hp' hp hsame)

theorem without (h : Tidy fs) (path : Str) : Tidy (fs.without path) where
  counted _ _ hp := h.counted _ _ (pending_without.mp hp).2
  apart _ _ _ _ hp hp' := h.apart _ _ _ _ (pending_without.mp hp).2 (pending_without.mp hp').2
  there _ _ hp := h.there _ _ (pending_without.mp hp).2
  made := h.made

/-- An entry goes into a free place, with a spool file no other entry names. -/
theorem withEntry (h : Tidy fs) (hown : ∀ path' p', path' ≠ path → fs.pending path' = some p' →
    p'.spool ≠ q.spool) (hthere : (fs.disk q.spool).isSome) : Tidy (fs.withEntry path q) := by
  refine ⟨fun path' p' hp' => ?_, fun a b p p' ha hb hsame => ?_, fun path' p' hp' => ?_, h.made⟩
  · rcases pending_withEntry.mp hp' with ⟨-, rfl⟩ | ⟨-, hp'⟩
    · exact h.made _ hthere
    · exact h.counted _ _ hp'
  · rcases pending_withEntry.mp ha with ⟨hpa, hqa⟩ | ⟨hne, ha⟩
    · rcases pending_withEntry.mp hb with ⟨hpb, -⟩ | ⟨hne', hb⟩
      · exact hpa.trans hpb.symm
      · exact absurd (hsame.symm.trans (congrArg Pending.spool hqa)) (hown b p' hne' hb)
    · rcases pending_withEntry.mp hb with ⟨-, hqb⟩ | ⟨-, hb⟩
      · exact absurd (hsame.trans (congrArg Pending.spool hqb)) (hown a p hne ha)
      · exact h.apart a b p p' ha hb hsame
  · rcases pending_withEntry.mp hp' with ⟨-, rfl⟩ | ⟨-, hp'⟩
    · exact hthere
    · exact h.there _ _ hp'

/-- The spool file of an entry changes its bytes. -/
theorem put (h : Tidy fs) {spool : Nat} (file : Bytes) (hspool : spool < fs.spoolCount) :
    Tidy { fs with disk := Function.update fs.disk spool (some file) } where
  counted := h.counted
  apart := h.apart
  there path p hp := by
    dsimp only
    rw [Function.update_apply]
    split
    · rfl
    · exact h.there path p hp
  made n hn := by
    dsimp only at hn
    rw [Function.update_apply] at hn
    split at hn
    · rename_i hn'
      exact hn' ▸ hspool
    · exact h.made n hn

theorem edited (h : Tidy fs) (hp : fs.pending path = some p) (q : Pending)
    (hspool : q.spool = p.spool) (file : Bytes) : Tidy (fs.edited path q file) := by
  have hput := h.put file (hspool ▸ h.counted path p hp)
  refine hput.withEntry (fun path' p' hne hp' hsame => hne ?_) ?_
  · exact h.apart path' path p' p hp' hp (hsame.trans hspool)
  · dsimp only
    rw [Function.update_self]
    rfl

/-- An entry that no path names is dropped. -/
theorem dropped (h : Tidy fs)
    (hown : ∀ path' p', fs.pending path' = some p' → p'.spool ≠ q.spool) :
    Tidy (fs.dropped q) := by
  rw [Fs.dropped]
  split
  · exact h
  · refine ⟨h.counted, h.apart, fun path' p' hp' => ?_, fun n hn => ?_⟩
    · dsimp only
      rw [Function.update_of_ne (hown path' p' hp')]
      exact h.there path' p' hp'
    · dsimp only at hn
      rw [Function.update_apply] at hn
      split at hn
      · cases hn
      · exact h.made n hn

theorem withSpool (h : Tidy fs) : Tidy fs.withSpool where
  counted path p hp := Nat.lt_succ_of_lt (h.counted path p hp)
  apart := h.apart
  there path p hp := by
    rw [Fs.withSpool]
    dsimp only
    rw [Function.update_of_ne (Nat.ne_of_lt (h.counted path p hp))]
    exact h.there path p hp
  made n hn := by
    rw [Fs.withSpool] at hn ⊢
    dsimp only at hn ⊢
    rw [Function.update_apply] at hn
    split at hn
    · omega
    · exact Nat.lt_succ_of_lt (h.made n hn)

theorem fills {spool : Nat} (h : Tidy fs) (hspool : (fs.disk spool).isSome)
    (hfills : Fills R spool fs fs') : Tidy fs' where
  counted path p hp := hfills.count ▸ h.counted path p (hfills.pending ▸ hp)
  apart path path' p p' hp hp' :=
    h.apart path path' p p' (hfills.pending ▸ hp) (hfills.pending ▸ hp')
  there path p hp := by
    by_cases hsame : p.spool = spool
    · exact hsame ▸ hfills.there hspool
    · rw [hfills.others _ hsame]
      exact h.there path p (hfills.pending ▸ hp)
  made n hn := by
    rw [hfills.count]
    by_cases hsame : n = spool
    · exact hsame ▸ h.made spool hspool
    · exact h.made n (hfills.others _ hsame ▸ hn)

/-- A spool file that was filled for an adoption. -/
theorem copied (h : Tidy fs) (hfills : Fills R fs.spoolCount fs.withSpool fs') : Tidy fs' :=
  h.withSpool.fills (by rw [Fs.withSpool]; simp only [Function.update_self, Option.isSome_some])
    hfills

/-- An entry with the newest spool file. -/
theorem adopts (h : Tidy fs) (hfills : Fills R fs.spoolCount fs.withSpool fs') {file : Bytes}
    (hdisk : fs'.disk fs.spoolCount = some file) (hq : q.spool = fs.spoolCount) :
    Tidy (fs'.withEntry path q) := by
  refine (h.copied hfills).withEntry (fun path' p' _ hp' => ?_) ?_
  · rw [hq]
    exact Nat.ne_of_lt (h.counted path' p' (hfills.pending ▸ hp'))
  · rw [hq, hdisk]
    rfl

end Tidy

/-- **One call keeps the entries tidy.** -/
theorem Effect.tidy {R : Mtp σ → Mtp σ → Prop} {fs fs' : Fs σ} {c : Call}
    {answer : Except Int Int} (heffect : Effect R fs c answer fs') (h : Tidy fs) : Tidy fs' := by
  cases heffect with
  | keeps hkeeps => exact h.keeps hkeeps
  | wrote hp hdown hall =>
      refine h.edited hp _ ?_ _
      rfl
  | broke hp =>
      refine h.edited hp _ ?_ _
      rfl
  | resized hp =>
      refine h.edited hp _ ?_ _
      rfl
  | @flushed path fi p q rc fs₁ hfi hp hsent hsend hkeeps hsame =>
      refine ((h.without path).keeps hkeeps).withEntry (fun path' p' _ hp' => ?_) ?_
      · exact hsame.spool ▸ h.own hp (hkeeps.pending ▸ hp')
      · dsimp only
        rw [hkeeps.disk, hsame.spool]
        exact h.there path p hp
  | @released path fi p q fs₁ hfi hp hsend hkeeps hsame =>
      refine ((h.without path).keeps hkeeps).dropped fun path' p' hp' => ?_
      exact hsame.spool ▸ h.own hp (hkeeps.pending ▸ hp')
  | @created path parent fs₁ hkeeps =>
      have h₁ := h.keeps hkeeps
      have hempty : fs₁.withSpool.disk fs₁.spoolCount = some [] := Function.update_self ..
      have hentry : Tidy (fs₁.withSpool.withEntry path
          (Fs.created parent (splitParent path).2 fs₁.spoolCount)) :=
        h₁.adopts (.refl chains_anything _ _) hempty rfl
      rw [replaced]
      cases hp : fs₁.withSpool.pending path with
      | none => exact hentry
      | some old =>
          have hold : old.spool < fs₁.spoolCount := h₁.counted path old hp
          refine hentry.dropped fun path' p' hp' => ?_
          rcases pending_withEntry.mp hp' with ⟨-, rfl⟩ | ⟨hne, hp'⟩
          · exact Nat.ne_of_gt hold
          · exact fun hsame => hne (h₁.apart path' path p' old hp' hp hsame)
  | opened hwrites hreaches hfills hdisk hempty =>
      exact (h.keeps hreaches.keeps).adopts hfills hdisk rfl
  | openStray hwrites hreaches hcopy hfills => exact (h.keeps hreaches.keeps).copied hfills
  | truncateStray hreaches hcopy hfills => exact (h.keeps hreaches.keeps).copied hfills
  | truncateLeft hreaches hadopts hfills hdisk hresizes =>
      exact (h.keeps hreaches.keeps).adopts hfills hdisk rfl
  | @truncated path size handle entry bytes q rc fs₁ fs₂ fs₃ hreaches hadopts hfills hdisk hresizes
      hsend hkeeps hsame =>
      have h₁ := h.keeps hreaches.keeps
      have h₂ := h₁.copied hfills
      have hspool : fs₁.spoolCount < fs₂.spoolCount := h₂.made _ (by rw [hdisk]; rfl)
      refine ((h₂.put (resize bytes size) hspool).keeps hkeeps).dropped fun path' p' hp' => ?_
      rw [hsame.spool]
      have hp₁ : fs₁.pending path' = some p' := by
        rw [hkeeps.pending] at hp'
        exact hfills.pending ▸ hp'
      exact Nat.ne_of_lt (h₁.counted path' p' hp₁)

/-! ## Runs -/

/-- One call, with what the disk of the host does in it. -/
def call (fs : Fs σ) (e : Host × Call) : Except Int Int × Fs σ := e.2.number { fs with host := e.1 }

/-- The state after one call. -/
def step (fs : Fs σ) (e : Host × Call) : Fs σ := (fs.call e).2

/-- The state a run of calls leads to. -/
def run (fs : Fs σ) (calls : List (Host × Call)) : Fs σ := Run.after step fs calls

/-- **Every call has its effect**, on the host it finds. -/
theorem call_effect {R : Mtp σ → Mtp σ → Prop} (h : RespectsSends R) (fs : Fs σ)
    (e : Host × Call) : Effect R { fs with host := e.1 } e.2 (fs.call e).1 (fs.call e).2 :=
  number_effect h e.2 _

/-- A relation that the operations respect holds from the start of a run to its end. -/
theorem run_device {R : Mtp σ → Mtp σ → Prop} (h : RespectsSends R) (fs : Fs σ)
    (calls : List (Host × Call)) : R fs.mtp (fs.run calls).mtp := by
  induction calls generalizing fs with
  | nil => exact h.refl _
  | cons e calls ih => exact h.trans ((call_effect h fs e).device h.toChains) (ih (fs.step e))

omit [Link σ] in
theorem tidy_start (mtp : Mtp σ) (host : Host) : Tidy (start mtp host) where
  counted _ _ hp := nomatch hp
  apart _ _ _ _ hp := nomatch hp
  there _ _ hp := nomatch hp
  made _ hn := nomatch hn

/-- Every call leaves the entries tidy. -/
theorem Tidy.step {fs : Fs σ} (h : Tidy fs) (e : Host × Call) : Tidy (fs.step e) :=
  (call_effect respects_anything fs e).tidy ⟨h.counted, h.apart, h.there, h.made⟩

/-- **Each entry has a spool file of its own** in every state a mount reaches. -/
theorem Tidy.run {fs : Fs σ} (h : Tidy fs) (calls : List (Host × Call)) : Tidy (fs.run calls) := by
  induction calls generalizing fs with
  | nil => exact h
  | cons e calls ih => exact ih (h.step e)

end Fs

end Bsdroid
