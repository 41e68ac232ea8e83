import Bsdroid.Mtpfs.Requests

/-!
# The spool file is the file

A program writes, resizes and reads a file through the entry of its path.  The
file it means is a `SparseFile`, and `Fs.Holds` says that the entry stands for
it: the spool file has its bytes, and the entry knows its size.  Each call that
works keeps the two in step, and a write that fails breaks the entry
(`Fs.tracks_edit`).  A send of an entry that holds a file sends that file
(`Fs.sends_the_file`), and a broken entry is never sent (`Fs.broken_is_never_sent`).
-/

namespace Bsdroid

/-- One call on the file of an entry. -/
inductive Edit where
  | write (bytes : Bytes) (offset : Nat)
  | truncate (size : Nat)
  | read (size offset : Nat) (fi : Option Nat)
deriving DecidableEq, Repr

namespace Edit

/-- The call, for the file of a path. -/
def call (path : Str) : Edit → Fs.Call
  | write bytes offset => .write path bytes offset
  | truncate size => .truncate path size
  | read size offset fi => .read path size offset fi

/-- A write brings at least one byte. -/
def HasBytes : Edit → Prop
  | write bytes _ => bytes ≠ []
  | _ => True

/-- The file after a call with an answer.  No file is left once a write failed. -/
def apply : Edit → Except Int Int → Option (SparseFile UInt8) → Option (SparseFile UInt8)
  | write bytes offset, .ok _, file => file.map fun f => f.write offset bytes
  | write _ _, .error _, _ => none
  | truncate size, .ok _, file => file.map fun f => f.truncate size
  | _, _, file => file

end Edit

namespace Fs

variable {σ : Type} [Logged σ]

/-- One call on the mount and on the file. -/
def edit (path : Str) (s : Fs σ × Option (SparseFile UInt8)) (e : Host × Edit) :
    Fs σ × Option (SparseFile UInt8) :=
  ((s.1.call (e.1, e.2.call path)).2, e.2.apply (s.1.call (e.1, e.2.call path)).1 s.2)

/-- The entry of a path stands for a file. -/
def Holds (fs : Fs σ) (path : Str) (f : SparseFile UInt8) : Prop :=
  ∃ p bytes, fs.pending path = some p ∧ p.broken = none ∧ fs.disk p.spool = some bytes ∧
    SparseFile.of bytes = f ∧ p.size = bytes.length

/-- The entry of a path met a write that failed. -/
def Broken (fs : Fs σ) (path : Str) : Prop :=
  ∃ p rc, fs.pending path = some p ∧ p.broken = some rc

/-- The entry stands for the file, or a write failed. -/
def Tracks (path : Str) (s : Fs σ × Option (SparseFile UInt8)) : Prop :=
  match s.2 with
  | some f => Holds s.1 path f
  | none => Broken s.1 path

section

variable {fs fs' : Fs σ} {path : Str} {p : Pending} {f : SparseFile UInt8}

omit [Logged σ] in
theorem holds_edited {q : Pending} {file : Bytes} (hbroken : q.broken = none)
    (hsize : q.size = file.length) : Holds (fs.edited path q file) path (.of file) :=
  ⟨q, file, Function.update_self .., hbroken, Function.update_self .., rfl, hsize⟩

omit [Logged σ] in
/-- The entry of a file that is tracked. -/
theorem Tracks.entry {file : Option (SparseFile UInt8)} (h : Tracks path (fs, file)) (host : Host) :
    ∃ p, ({ fs with host := host } : Fs σ).pending path = some p ∧
      match file with
      | some f => p.broken = none ∧ SparseFile.of (fs.spoolBytes p.spool) = f ∧
          p.size = (fs.spoolBytes p.spool).length
      | none => ∃ rc, p.broken = some rc := by
  cases file with
  | none =>
      obtain ⟨p, rc, hp, hrc⟩ := h
      exact ⟨p, hp, rc, hrc⟩
  | some f =>
      obtain ⟨p, bytes, hp, hbroken, hdisk, hfile, hsize⟩ := h
      have hbytes : fs.spoolBytes p.spool = bytes := by rw [spoolBytes, hdisk, Option.getD_some]
      exact ⟨p, hp, hbroken, hbytes ▸ hfile, hbytes ▸ hsize⟩

theorem tracks_write {file : Option (SparseFile UInt8)} {bytes : Bytes}
    (h : Tracks path (fs, file)) (hbytes : bytes ≠ []) (host : Host) (offset : Nat) :
    Tracks path (edit path (fs, file) (host, .write bytes offset)) := by
  obtain ⟨p, hp, hentry⟩ := h.entry host
  have hcall : fs.call (host, (Edit.write bytes offset).call path) =
      (opWrite path bytes offset >>= fun count => pure (count : Int))
        { fs with host := host } := rfl
  rcases opWrite_entry hp bytes offset with ⟨done, down, hdown, hall, hrun⟩ | ⟨rc, down, hrun⟩
  · rw [Proc.bind_ok hrun] at hcall
    rw [edit, hcall]
    cases file with
    | none =>
        obtain ⟨rc, hrc⟩ := hentry
        exact ⟨_, rc, Function.update_self .., hrc⟩
    | some f =>
        obtain ⟨hbroken, rfl, hsize⟩ := hentry
        have hwrite : SparseFile.of down =
            (SparseFile.of (fs.spoolBytes p.spool)).write offset bytes :=
          of_writeAt hbytes hdown hall
        have hlength := congrArg SparseFile.size hwrite
        simp only [SparseFile.size_of, SparseFile.size_write] at hlength
        show Holds _ path ((SparseFile.of (fs.spoolBytes p.spool)).write offset bytes)
        rw [← hwrite]
        exact holds_edited hbroken (by rw [hlength, hsize])
  · rw [Proc.bind_error hrun] at hcall
    rw [edit, hcall]
    exact ⟨_, rc, Function.update_self .., rfl⟩

theorem tracks_truncate {file : Option (SparseFile UInt8)} (h : Tracks path (fs, file))
    (host : Host) (size : Nat) :
    Tracks path (edit path (fs, file) (host, .truncate size)) := by
  obtain ⟨p, hp, hentry⟩ := h.entry host
  have hcall : fs.call (host, (Edit.truncate size).call path) =
      opTruncate path size { fs with host := host } := rfl
  rw [opTruncate_entry hp] at hcall
  rw [edit, hcall]
  by_cases hresizes : host.resizes = true
  · rw [if_pos hresizes]
    cases file with
    | none =>
        obtain ⟨rc, hrc⟩ := hentry
        exact ⟨_, rc, Function.update_self .., hrc⟩
    | some f =>
        obtain ⟨hbroken, rfl, hsize⟩ := hentry
        have hlength := congrArg SparseFile.size (of_resize (fs.spoolBytes p.spool) size)
        simp only [SparseFile.size_of, SparseFile.size_truncate] at hlength
        show Holds _ path ((SparseFile.of (fs.spoolBytes p.spool)).truncate size)
        rw [← of_resize]
        exact holds_edited hbroken hlength.symm
  · rw [if_neg hresizes]
    exact h

theorem tracks_read {file : Option (SparseFile UInt8)} (h : Tracks path (fs, file))
    (host : Host) (size offset : Nat) (fi : Option Nat) :
    Tracks path (edit path (fs, file) (host, .read size offset fi)) := by
  obtain ⟨p, hp, -⟩ := h.entry host
  have hcall : (fs.call (host, (Edit.read size offset fi).call path)).2 =
      { fs with host := host } := by
    show ((opRead path size offset fi >>= fun bytes => pure (bytes.length : Int))
      { fs with host := host }).2 = _
    rw [Proc.bind_pure_state, opRead_entry hp]
  rw [edit, hcall]
  cases file with
  | none => exact h
  | some f => exact h

/-- **One call keeps the entry and the file in step.** -/
theorem tracks_edit {s : Fs σ × Option (SparseFile UInt8)} (h : Tracks path s) (e : Host × Edit)
    (hbytes : e.2.HasBytes) : Tracks path (edit path s e) := by
  obtain ⟨host, e⟩ := e
  cases e with
  | write bytes offset => exact tracks_write h hbytes host offset
  | truncate size => exact tracks_truncate h host size
  | read size offset fi => exact tracks_read h host size offset fi

end

/-! ## How a file starts -/

/-- A call made the entry of a path, and the file starts with these contents: none for
a new file and for an open that empties the file, and else the bytes of the copy. -/
inductive Starts (path : Str) (fs fs' : Fs σ) : SparseFile UInt8 → Prop
  | created {host : Host} {n : Int} (hcall : fs.call (host, .create path) = (.ok n, fs')) :
      Starts path fs fs' (.of [])
  | emptied {host : Host} {flags : Nat} {n : Int} (hfree : fs.pending path = none)
      (hwrites : Oflag.writes flags = true) (htrunc : flags &&& Oflag.TRUNC ≠ 0)
      (hcall : fs.call (host, .opens path flags) = (.ok n, fs')) : Starts path fs fs' (.of [])
  | copied {host : Host} {flags : Nat} {n : Int} {p : Pending} (hfree : fs.pending path = none)
      (hwrites : Oflag.writes flags = true) (hkeep : flags &&& Oflag.TRUNC = 0)
      (hcall : fs.call (host, .opens path flags) = (.ok n, fs'))
      (hp : fs'.pending path = some p) : Starts path fs fs' (.of (fs'.spoolBytes p.spool))
  | left {host : Host} {size : Nat} {rc : Int} {p : Pending} (hfree : fs.pending path = none)
      (hcall : fs.call (host, .truncate path size) = (.error rc, fs'))
      (hp : fs'.pending path = some p) : Starts path fs fs' (.of (fs'.spoolBytes p.spool))

section

variable {fs fs' : Fs σ} {path : Str} {f : SparseFile UInt8}

/-- An open that makes an entry, and what the entry stands for. -/
theorem opens_holds {host : Host} {flags : Nat} {n : Int} (hfree : fs.pending path = none)
    (hwrites : Oflag.writes flags = true)
    (hcall : fs.call (host, .opens path flags) = (.ok n, fs')) :
    ∃ p bytes, fs'.pending path = some p ∧ fs'.spoolBytes p.spool = bytes ∧
      (flags &&& Oflag.TRUNC ≠ 0 → bytes = []) ∧ Holds fs' path (.of bytes) := by
  have hopen : ∃ fh, opOpen path flags { fs with host := host } = (.ok fh, fs') := by
    obtain ⟨fh, fs₁, hopen, hpure⟩ := Proc.bind_eq_ok (show (opOpen path flags >>= fun _ =>
      pure (0 : Int)) { fs with host := host } = (.ok n, fs') from hcall)
    cases hpure
    exact ⟨fh, hopen⟩
  obtain ⟨fh, hopen⟩ := hopen
  rcases opOpen_cases chains_anything (fun _ => steps_anything _) path flags
      ({ fs with host := host } : Fs σ) with ⟨-, herror⟩ | ⟨handle, entry, fs₁, -, hreaches, hrun⟩
  · obtain ⟨rc, hrc⟩ := herror hwrites hfree
    rw [hopen] at hrc
    cases hrc
  · have hadopt := adoptForWrite_cases chains_anything (fun _ _ _ _ => steps_anything _)
      hreaches.free_still handle entry (flags &&& Oflag.TRUNC = 0)
    rw [hopen] at hrun
    generalize adoptForWrite path handle entry (flags &&& Oflag.TRUNC = 0) fs₁ = result
      at hadopt hrun
    cases hadopt with
    | refused hkeeps => cases hrun
    | stray hcopy hfills => cases hrun
    | @made bytes fs₂ hfills hdisk hempty =>
        cases hrun
        refine ⟨adopted handle entry fs₁.spoolCount bytes.length, bytes, Function.update_self ..,
          ?_, fun htrunc => hempty fun h => htrunc (by simpa using h.1),
          adopted handle entry fs₁.spoolCount bytes.length, bytes, Function.update_self .., rfl,
          hdisk, rfl, rfl⟩
        show (fs₂.disk fs₁.spoolCount).getD [] = bytes
        rw [hdisk, Option.getD_some]

theorem Starts.holds (htidy : Tidy fs) (h : Starts path fs fs' f) : Holds fs' path f := by
  cases h with
  | @created host n hcall =>
      rcases opCreate_cases chains_anything (fun _ => steps_anything _) path
        ({ fs with host := host } : Fs σ) with ⟨rc, fs₁, hrun, -⟩ | ⟨parent, fs₁, hrun, hkeeps⟩
      · rw [call, Call.number, Proc.bind_error hrun] at hcall
        cases hcall
      · rw [call, Call.number, Proc.bind_ok hrun] at hcall
        cases hcall
        have hhost : Tidy ({ fs with host := host } : Fs σ) :=
          ⟨htidy.counted, htidy.apart, htidy.there, htidy.made⟩
        have htidy₁ : Tidy fs₁ := hhost.keeps hkeeps
        refine ⟨_, [], (congrFun pending_replaced path).trans (Function.update_self ..), rfl, ?_,
          rfl, rfl⟩
        rw [disk_replaced fun old hold => ?_]
        · exact Function.update_self ..
        · exact Nat.ne_of_gt (htidy₁.counted path old hold)
  | emptied hfree hwrites htrunc hcall =>
      obtain ⟨p, bytes, -, -, hempty, hholds⟩ := opens_holds hfree hwrites hcall
      exact hempty htrunc ▸ hholds
  | copied hfree hwrites hkeep hcall hp =>
      obtain ⟨p, bytes, hp', hbytes, -, hholds⟩ := opens_holds hfree hwrites hcall
      cases hp.symm.trans hp'
      exact hbytes ▸ hholds
  | @left host size rc p hfree hcall hp =>
      have heffect := call_effect respects_anything fs (host, .truncate path size)
      have hfree' : ({ fs with host := host } : Fs σ).pending path = none := hfree
      rw [hcall] at heffect
      cases heffect with
      | keeps hkeeps => cases (congrFun hkeeps.pending path).symm.trans hp |>.symm.trans hfree'
      | truncateStray hreaches hcopy hfills =>
          have hsame := congrFun (hfills.pending.trans hreaches.keeps.pending) path
          cases (hsame.symm.trans hp).symm.trans hfree'
      | @truncateLeft path size handle entry bytes fs₁ fs₂ hreaches hadopts hfills hdisk hresizes =>
          cases (Function.update_self ..).symm.trans hp
          have hholds : Holds (fs₂.withEntry path (adopted handle entry fs₁.spoolCount
              bytes.length)) path (.of bytes) :=
            ⟨_, bytes, Function.update_self .., rfl, hdisk, rfl, rfl⟩
          have hbytes : bytes = (fs₂.disk fs₁.spoolCount).getD [] := by
            rw [hdisk, Option.getD_some]
          exact hbytes ▸ hholds

end

/-! ## What a send carries -/

/-- A call that closes a handle on a path. -/
def Call.Closes (path : Str) (c : Call) : Prop := ∃ fi, c = .flush path fi ∨ c = .release path fi

/-- A close of an entry leaves the session alone, or it sends the entry. -/
theorem closes_device {fs : Fs σ} {path : Str} {p : Pending} (hp : fs.pending path = some p)
    {c : Call} (hc : c.Closes path) (host : Host) :
    (fs.step (host, c)).mtp = fs.mtp ∨ (fs.step (host, c)).mtp =
      ((sendPending p : Proc Int (Fs σ) _) (({ fs with host := host } : Fs σ).without path)).2.mtp := by
  have hp' : ({ fs with host := host } : Fs σ).pending path = some p := hp
  obtain ⟨fi, rfl | rfl⟩ := hc
  · show (opFlush path fi { fs with host := host }).2.mtp = _ ∨
      (opFlush path fi { fs with host := host }).2.mtp = _
    cases hfi : fhWrites fi with
    | false => exact .inl (by rw [opFlush_reader hfi])
    | true =>
        cases hsent : p.sent with
        | some rc => exact .inl (by rw [opFlush_sent hfi hp' hsent])
        | none =>
            obtain ⟨rc, q, fs₁, hsend, hrun⟩ := opFlush_unsent hfi hp' hsent
            exact .inr (by rw [hrun, hsend]; rfl)
  · show (opRelease path fi { fs with host := host }).2.mtp = _ ∨
      (opRelease path fi { fs with host := host }).2.mtp = _
    cases hfi : fhWrites fi with
    | false => exact .inl (by rw [opRelease_reader hfi])
    | true =>
        cases hsent : p.sent with
        | some rc => exact .inl (by rw [opRelease_sent hfi hp' hsent, mtp_dropped]; rfl)
        | none =>
            obtain ⟨rc, q, fs₁, hsend, hrun⟩ := opRelease_unsent hfi hp' hsent
            exact .inr (by rw [hrun, hsend, mtp_dropped])

/-- A request that announces a file announces this file, and a request that carries a
payload for it carries the contents of this file: whenever the reader gives as many
bytes as were announced, they are the contents. -/
structure Carries (parent : UInt32) (name : Str) (f : SparseFile UInt8) (r : Request) : Prop where
  announces : r.code = Op.sendObjectInfo → f.size ≤ maxPayloadLen ∧ ∃ storage,
    r.params = [storage, Mtp.parentArg parent] ∧
    r.payload = some ((fileInfo storage parent name f.size).length,
      [.bytes (fileInfo storage parent name f.size)])
  streams : r.code = Op.sendObject → ∃ reader, r.payload = some (f.size, reader) ∧
    ∀ step payload, (readExactOrShort step f.size [] reader).1 = .ok payload → payload = f.contents

omit [Logged σ] in
theorem carries_of_ofFile {parent : UInt32} {name : Str} {bytes : Bytes} {plan : List ReadStep}
    {r : Request} (h : OfFile parent name bytes.length (readerOf plan bytes) r) :
    Carries parent name (.of bytes) r where
  announces := h.announces
  streams hcode := by
    refine ⟨_, h.streams hcode, fun step payload hrun => ?_⟩
    obtain ⟨-, hpayload⟩ := readExactOrShort_readerOf (Nat.zero_le _) hrun
    rw [hpayload, List.nil_append, SparseFile.contents_of, SparseFile.size_of, List.take_length]

section

variable {fs fs' : Fs σ} {path : Str} {f : SparseFile UInt8}

/-- The requests between two states. -/
def issued (fs fs' : Fs σ) : List Request :=
  (Logged.log fs'.mtp.session).drop (Logged.log fs.mtp.session).length

theorem forall_issued {Q : Request → Prop} (h : Mtp.Issues Q fs.mtp fs'.mtp) :
    ∀ r ∈ issued fs fs', Q r := by
  obtain ⟨new, hnew, hall⟩ := h
  rw [issued, hnew, List.drop_left]
  exact hall

/-- A close of an entry announces the entry and streams its spool file, or asks the
device for nothing. -/
theorem closes_issues {p : Pending} (hp : fs.pending path = some p) {c : Call}
    (hc : c.Closes path) (host : Host) :
    Mtp.Issues (OfFile p.parent p.name p.size (readerOf host.reading (fs.spoolBytes p.spool)))
      fs.mtp (fs.step (host, c)).mtp := by
  rcases closes_device hp hc host with hsame | hsend
  · exact .of_same (by rw [hsame])
  · rw [hsend]
    exact (sendPending_issues (E := Int) p (({ fs with host := host } : Fs σ).without path)).device

/-- **A send carries the file.** -/
theorem sends_the_file (h : Holds fs path f) {c : Call} (hc : c.Closes path) (host : Host) :
    ∃ p, fs.pending path = some p ∧
      ∀ r ∈ issued fs (fs.step (host, c)), Carries p.parent p.name f r := by
  obtain ⟨p, bytes, hp, -, hdisk, rfl, hsize⟩ := h
  have hissues := closes_issues hp hc host
  rw [hsize, spoolBytes, hdisk, Option.getD_some] at hissues
  exact ⟨p, hp, fun r hr => carries_of_ofFile (forall_issued hissues r hr)⟩

end

/-! ## An entry that a write broke -/

/-- A call that ends the life of the entry of a path: a new file takes its place, or
the handle that writes it is released. -/
def Call.Ends (path : Str) (c : Call) : Prop :=
  c = .create path ∨ ∃ fi, fhWrites fi = true ∧ c = .release path fi

/-- **A broken entry stays broken for the rest of its life.** -/
theorem Broken.step {fs : Fs σ} {path : Str} (h : Broken fs path) {e : Host × Call}
    (hlives : ¬ e.2.Ends path) : Broken (fs.step e) path := by
  obtain ⟨p, rc, hp, hrc⟩ := h
  have heffect := call_effect respects_anything fs e
  have hother := fun hpath : e.2.touches ≠ some path => heffect.other hpath
  by_cases htouches : e.2.touches = some path
  swap
  · exact ⟨p, rc, (hother htouches).trans hp, hrc⟩
  have hp' : ({ fs with host := e.1 } : Fs σ).pending path = some p := hp
  obtain ⟨host, c⟩ := e
  rw [Fs.step]
  clear hother
  generalize fs.call (host, c) = result at heffect ⊢
  obtain ⟨answer, fs'⟩ := result
  cases heffect with
  | keeps hkeeps => exact ⟨p, rc, (congrFun hkeeps.pending path).trans hp, hrc⟩
  | wrote hq hdown hall =>
      cases htouches
      cases hp'.symm.trans hq
      exact ⟨_, rc, Function.update_self .., hrc⟩
  | broke hq =>
      cases htouches
      exact ⟨_, _, Function.update_self .., rfl⟩
  | resized hq =>
      cases htouches
      cases hp'.symm.trans hq
      exact ⟨_, rc, Function.update_self .., hrc⟩
  | flushed hfi hq hsent hsend hkeeps hsame =>
      cases htouches
      cases hp'.symm.trans hq
      exact ⟨_, rc, Function.update_self .., hsame.broken.trans hrc⟩
  | released hfi hq hsend hkeeps hsame =>
      cases htouches
      exact absurd (.inr ⟨_, hfi, rfl⟩) hlives
  | created hkeeps =>
      cases htouches
      exact absurd (.inl rfl) hlives
  | opened hwrites hreaches hfills hdisk hempty =>
      cases htouches
      exact absurd (hp'.symm.trans hreaches.free) (Option.some_ne_none p)
  | openStray hwrites hreaches hcopy hfills =>
      cases htouches
      exact absurd (hp'.symm.trans hreaches.free) (Option.some_ne_none p)
  | truncateStray hreaches hcopy hfills =>
      cases htouches
      exact absurd (hp'.symm.trans hreaches.free) (Option.some_ne_none p)
  | truncateLeft hreaches hadopts hfills hdisk hresizes =>
      cases htouches
      exact absurd (hp'.symm.trans hreaches.free) (Option.some_ne_none p)
  | truncated hreaches hadopts hfills hdisk hresizes hsend hkeeps hsame =>
      cases htouches
      exact absurd (hp'.symm.trans hreaches.free) (Option.some_ne_none p)

theorem Broken.run {fs : Fs σ} {path : Str} (h : Broken fs path) {later : List (Host × Call)}
    (hlives : ∀ e ∈ later, ¬ e.2.Ends path) : Broken (fs.run later) path := by
  induction later generalizing fs with
  | nil => exact h
  | cons e later ih =>
      exact ih (h.step (hlives e List.mem_cons_self)) fun e' he' =>
        hlives e' (List.mem_cons_of_mem _ he')

/-- A call that can announce another object than the file of a path. -/
def Call.SendsOther (path : Str) : Call → Prop
  | .truncate other _ => other ≠ path
  | .flush other _ => other ≠ path
  | .release other _ => other ≠ path
  | .mkdir _ => True
  | _ => False

/-- **A broken entry is never announced.** -/
theorem Broken.quiet {fs : Fs σ} {path : Str} (h : Broken fs path) {e : Host × Call}
    (hother : ¬ e.2.SendsOther path) : ∀ r ∈ issued fs (fs.step e), r.Quiet := by
  refine forall_issued ?_
  obtain ⟨host, c⟩ := e
  obtain ⟨p, rc, hp, hrc⟩ := h
  have hclose : c.Closes path → (fs.step (host, c)).mtp = fs.mtp := by
    intro hc
    rcases closes_device hp hc host with hsame | hsend
    · exact hsame
    · rw [hsend, sendPending_broken hrc]
      rfl
  cases hsends : c.sends with
  | false => exact number_device respects_quiet hsends { fs with host := host }
  | true =>
      refine .of_same (congrArg Mtp.session ?_)
      cases c with
      | truncate other size =>
          have hpath : other = path := not_not.mp hother
          subst hpath
          show (opTruncate other size { fs with host := host }).2.mtp = fs.mtp
          rw [@opTruncate_entry _ _ { fs with host := host } _ _ hp]
          split <;> rfl
      | flush other fi =>
          have hpath : other = path := not_not.mp hother
          exact hclose ⟨fi, .inl (hpath ▸ rfl)⟩
      | release other fi =>
          have hpath : other = path := not_not.mp hother
          exact hclose ⟨fi, .inr (hpath ▸ rfl)⟩
      | mkdir other => exact absurd trivial hother
      | _ => cases hsends

/-! ## A whole run -/

/-- What the callbacks give of a file that no write failed on. -/
structure Serves (fs : Fs σ) (path : Str) (f : SparseFile UInt8) : Prop where
  spool : ∃ p, fs.pending path = some p ∧ fs.disk p.spool = some f.contents ∧
    f.contents.length = p.size
  reads : ∀ host size offset fi, (opRead path size offset fi { fs with host := host }).1 =
    match host.readsAt with
    | some count => .ok ((f.read offset size).take count)
    | none => if f.size ≤ offset then .ok [] else .error (-Libc.EIO)
  sends : ∀ host c, c.Closes path → ∀ p, fs.pending path = some p →
    ∀ r ∈ issued fs (fs.step (host, c)), Carries p.parent p.name f r

theorem Holds.serves {fs : Fs σ} {path : Str} {f : SparseFile UInt8}
    (h : Holds fs path f) : Serves fs path f := by
  have hsends := fun host c (hc : Call.Closes path c) => sends_the_file h hc host
  obtain ⟨p, bytes, hp, hbroken, hdisk, rfl, hsize⟩ := h
  refine ⟨⟨p, hp, ?_, ?_⟩, fun host size offset fi => ?_, fun host c hc q hq => ?_⟩
  · rw [SparseFile.contents_of]
    exact hdisk
  · rw [SparseFile.contents_of]
    exact hsize.symm
  · have hbytes : ({ fs with host := host } : Fs σ).spoolBytes p.spool = bytes := by
      rw [spoolBytes, show ({ fs with host := host } : Fs σ).disk p.spool = some bytes
        from hdisk, Option.getD_some]
    rw [@opRead_entry _ _ { fs with host := host } _ _ hp, hbytes, hsize, SparseFile.read_of]
    cases hreads : host.readsAt with
    | none => rfl
    | some count =>
        dsimp only
        by_cases hpast : offset ≥ bytes.length
        · rw [if_pos hpast, List.drop_eq_nil_of_le hpast, List.take_nil, List.take_nil]
        · rw [if_neg hpast, List.take_take]
          congr 1
          rw [List.take_eq_take_iff, List.length_drop]
          omega
  · obtain ⟨p', hp', hall⟩ := hsends host c hc
    cases hq.symm.trans hp'
    exact hall

/-- **The spool file is the file.**  An entry starts with some contents in any state a
mount reaches.  After any writes, changes of size and reads the callbacks give the file
those calls made, as long as no write failed.  Once a write failed the entry is never
announced again. -/
theorem spool_file_is_the_file (mtp : Mtp σ) (host : Host) (calls : List (Host × Call))
    {path : Str} {fs' : Fs σ} {f₀ : SparseFile UInt8}
    (hstart : Starts path ((start mtp host).run calls) fs' f₀) (edits : List (Host × Edit))
    (hbytes : ∀ e ∈ edits, e.2.HasBytes) :
    match Run.after (edit path) (fs', some f₀) edits with
    | (fs, some f) => Serves fs path f
    | (fs, none) => ∀ later : List (Host × Call), (∀ e ∈ later, ¬ e.2.Ends path) →
        ∀ e : Host × Call, ¬ e.2.SendsOther path →
          ∀ r ∈ issued (fs.run later) ((fs.run later).step e), r.Quiet := by
  have htidy : Tidy ((start mtp host).run calls) := (tidy_start mtp host).run calls
  have htracks : Tracks path (Run.after (edit path) (fs', some f₀) edits) :=
    @Run.Meets.invariant _ _ (edit path) _ (Tracks path) (fun _ e h hbytes => tracks_edit h e hbytes)
      _ edits (hstart.holds htidy) (Run.Meets.of_forall hbytes)
  generalize Run.after (edit path) (fs', some f₀) edits = s at htracks
  obtain ⟨fs, f | f⟩ := s
  · intro later hlives e hother
    exact (Broken.run htracks hlives).quiet hother
  · exact Holds.serves htracks

/-- A mount on an empty cellphone. -/
def emptyMount : Mtp Phone := Mtp.standard (Phone.holding Store.empty Policy.obliging)

/-- A new file that is written past a hole, cut, and written once more. -/
def holed : List (Host × Edit) :=
  [(Host.obliging, .write [1, 2, 3] 2), (Host.obliging, .truncate 4),
    (Host.obliging, .write [9] 6), (Host.obliging, .read 16 0 none)]

theorem spool_file_is_the_file_holed :
    match Run.after (edit ['/', 'a'])
      (((start emptyMount Host.obliging).call (Host.obliging, .create ['/', 'a'])).2,
        some (.of [])) holed with
    | (fs, some f) => Serves fs ['/', 'a'] f
    | (fs, none) => ∀ later : List (Host × Call), (∀ e ∈ later, ¬ e.2.Ends ['/', 'a']) →
        ∀ e : Host × Call, ¬ e.2.SendsOther ['/', 'a'] →
          ∀ r ∈ issued (fs.run later) ((fs.run later).step e), r.Quiet := by
  have hcreate : ((start emptyMount Host.obliging).call (Host.obliging, .create ['/', 'a'])).1 =
      .ok 0 := by decide +kernel
  refine spool_file_is_the_file emptyMount Host.obliging [] (.created (Prod.ext hcreate rfl)) holed ?_
  simp [holed, Edit.HasBytes]

end Fs

end Bsdroid
