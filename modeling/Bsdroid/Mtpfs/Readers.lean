import Bsdroid.Mtpfs.Listing
import Bsdroid.Mtpfs.Reading
import Bsdroid.Mtpfs.SpoolRuns

/-!
# A reader never disturbs a writer

An open that asks for no write access, a read, and the close of a handle that
only reads leave the entries, the spool files and the objects of the device as
they are (`Fs.reader_leaves_all`).

Two runs follow from it.  In one a writer writes while readers come and go, and
in the other the readers stay away.  Both come to a flush with the same entry and
the same bytes.
-/

namespace Bsdroid

namespace Mtp

variable {σ : Type} [Link σ]

/-- What a mount knows about its device since it started. -/
structure SameFacts (m m' : Mtp σ) : Prop where
  storage : m'.storage = m.storage
  partialRead : m'.partialRead = m.partialRead
  packet : m'.packet = m.packet
  info : m'.info = m.info

/-- No operation changes what the mount learnt of the device when it opened it. -/
theorem takes_facts : Takes (fun _ => True) (SameFacts : Mtp σ → Mtp σ → Prop) where
  refl _ := ⟨rfl, rfl, rfl, rfl⟩
  trans h h' := ⟨h'.storage.trans h.storage, h'.partialRead.trans h.partialRead,
    h'.packet.trans h.packet, h'.info.trans h.info⟩
  exec _ _ _ := ⟨rfl, rfl, rfl, rfl⟩
  cache _ _ := ⟨rfl, rfl, rfl, rfl⟩

theorem firstStorageIn_facts (attempts : Nat) :
    Proc.Steps SameFacts (firstStorageIn attempts : Proc Error (Mtp σ) UInt32) := by
  have h := takes_facts (σ := σ)
  induction attempts with
  | zero => exact .fail h.refl _
  | succ attempts ih =>
      refine .bind (R := SameFacts) h.trans (h.operation trivial) fun data => ?_
      split
      · exact .pure h.refl _
      · exact ih

/-- A mount finds one of the two operations for a partial read, or it does not start. -/
theorem readCapabilities_partialRead {noProplist : Bool} {m m' : Mtp σ}
    (h : readCapabilities noProplist m = (.ok (), m')) : m'.partialRead ∈ readsOnly := by
  obtain ⟨raw, m₁, -, h⟩ := Proc.bind_eq_ok h
  obtain ⟨info, m₂, -, h⟩ := Proc.bind_eq_ok h
  obtain ⟨⟨⟩, m₃, -, h⟩ := Proc.bind_eq_ok h
  have hrest : ∀ {m₄ : Mtp σ}, m₄.partialRead ∈ readsOnly → (do
      let storage ← firstStorage
      Proc.modify fun m => { m with storage := storage } : Proc Error (Mtp σ) Unit) m₄ =
        (.ok (), m') → m'.partialRead ∈ readsOnly := by
    intro m₄ hread hrun
    obtain ⟨storage, m₅, hstorage, hlast⟩ := Proc.bind_eq_ok hrun
    have hfacts := firstStorageIn_facts (σ := σ) 10 m₄
    rw [show firstStorageIn 10 m₄ = _ from hstorage] at hfacts
    cases hlast
    exact hfacts.partialRead ▸ hread
  by_cases h64 : info.supports Op.getPartialObject64
  · rw [if_pos h64] at h
    obtain ⟨⟨⟩, m₄, hm, h⟩ := Proc.bind_eq_ok h
    cases hm
    exact hrest (show Op.getPartialObject64 ∈ readsOnly by decide) h
  · rw [if_neg h64] at h
    by_cases h32 : info.supports Op.getPartialObject
    · rw [if_pos h32] at h
      obtain ⟨⟨⟩, m₄, hm, h⟩ := Proc.bind_eq_ok h
      cases hm
      exact hrest (show Op.getPartialObject ∈ readsOnly by decide) h
    · rw [if_neg h32] at h
      obtain ⟨a, m₄, hm, -⟩ := Proc.bind_eq_ok h
      cases hm

/-- Questions leave the device alone, on a mount that started. -/
def Unmoved (m m' : Mtp Phone) : Prop := m.partialRead ∈ readsOnly → SameDevice m m'

/-- A read of a file leaves the device as it is. -/
theorem reads_unmoved : Reads Unmoved where
  refl m _ := .refl m
  trans h h' hread := (h hread).trans (h' (by rw [(h hread).partialRead]; exact hread))
  operation step params _ hcode m _ := operation_steps step params hcode m
  slow m _ := sameDevice_slow m
  partialRead m step params hread := operation_steps step params hread m
  cache m c _ := sameDevice_cache m c

end Mtp

namespace Fs

/-- A call of a program that only reads: an open without write access, a read, and the
close of a handle without the mark of a writer. -/
def Call.reads : Call → Bool
  | .opens _ flags => !Oflag.writes flags
  | .read _ _ _ _ => true
  | .flush _ fi => !fhWrites fi
  | .release _ fi => !fhWrites fi
  | _ => false

/-- What two states of a mount have in common when only readers came between them. -/
structure Undisturbed (fs fs' : Fs Phone) : Prop where
  pending : fs'.pending = fs.pending
  disk : fs'.disk = fs.disk
  count : fs'.spoolCount = fs.spoolCount
  device : Mtp.SameDevice fs.mtp fs'.mtp

/-! ## One call -/

section Count

variable {σ : Type} [Link σ]

/-- No number for a spool file or an aside name was taken. -/
def SameCount (fs fs' : Fs σ) : Prop := fs'.spoolCount = fs.spoolCount

omit [Link σ] in
theorem sameCount_trans {a b c : Fs σ} (h : SameCount a b) (h' : SameCount b c) :
    SameCount a c := Eq.trans h' h

/-- A walk makes no spool file and gives no aside name. -/
theorem walks_count : Walks (SameCount : Fs σ → Fs σ → Prop) where
  refl _ := rfl
  trans := sameCount_trans
  lists _ _ := rfl
  records _ _ _ := rfl

end Count

/-- **A reader leaves all as it is**: the entries, the spool files and the device. -/
theorem reader_leaves_all {fs : Fs Phone} (hread : fs.mtp.partialRead ∈ Mtp.readsOnly)
    {e : Host × Call} (hreader : e.2.reads = true) : Undisturbed fs (fs.step e) := by
  obtain ⟨host, c⟩ := e
  have hchains := Mtp.reads_unmoved.toChains
  have hwalks := walks_keeps hchains Mtp.reads_unmoved.list
  have hkeeps : ∀ {α : Type} {x : Proc Int (Fs Phone) α}, Proc.Steps (Keeps Mtp.Unmoved) x →
      Proc.Steps SameCount x → Undisturbed fs (x { fs with host := host }).2 := by
    intro α x hx hcount
    have h := hx { fs with host := host }
    exact ⟨h.pending, h.disk, hcount { fs with host := host }, h.device hread⟩
  have hsame : Undisturbed fs { fs with host := host } := ⟨rfl, rfl, rfl, .refl _⟩
  rw [step, call]
  cases c with
  | opens path flags =>
      have hreads : Oflag.writes flags = false := Bool.not_eq_true' _ ▸ hreader
      rw [Call.number, Proc.bind_pure_state]
      exact hkeeps (hwalks.looks.opOpen hreads path) (walks_count.looks.opOpen hreads path)
  | read path size offset fi =>
      rw [Call.number, Proc.bind_pure_state]
      exact hkeeps (opRead_keeps hchains Mtp.reads_unmoved.list Mtp.reads_unmoved.readAt path size
        offset fi) (walks_count.looks.opRead (fun _ _ _ _ _ => rfl) path size offset fi)
  | flush path fi =>
      have hfi : fhWrites fi = false := Bool.not_eq_true' _ ▸ hreader
      rw [Call.number, opFlush_reader hfi]
      exact hsame
  | release path fi =>
      have hfi : fhWrites fi = false := Bool.not_eq_true' _ ▸ hreader
      rw [Call.number, opRelease_reader hfi]
      exact hsame
  | _ => cases hreader

end Fs

/-! ## Two devices that answer alike -/

/-- A device that answers without looking back at the requests before. -/
structure Policy.Blind (policy : Policy) : Prop where
  fault : ∀ l l' s r, policy.fault l s r = policy.fault l' s r
  alloc : ∀ l l' s, policy.alloc l s = policy.alloc l' s
  given : ∀ l l' s, policy.given l s = policy.given l' s
  capacity : ∀ l l' s, policy.capacity l s = policy.capacity l' s
  free : ∀ l l' s, policy.free l s = policy.free l' s

namespace Phone

/-- Two cellphones that differ in what they noted of the requests, and in nothing
else. -/
structure Alike (p q : Phone) : Prop where
  store : q.store = p.store
  announced : q.announced = p.announced
  storage : q.storage = p.storage
  policy : q.policy = p.policy

theorem Alike.refl (p : Phone) : Alike p p := ⟨rfl, rfl, rfl, rfl⟩

theorem Alike.trans {p q r : Phone} (h : Alike p q) (h' : Alike q r) : Alike p r :=
  ⟨h'.store.trans h.store, h'.announced.trans h.announced, h'.storage.trans h.storage,
    h'.policy.trans h.policy⟩

theorem Alike.symm {p q : Phone} (h : Alike p q) : Alike q p :=
  ⟨h.store.symm, h.announced.symm, h.storage.symm, h.policy.symm⟩

/-- What a cellphone noted changes neither its answer nor what it holds after it. -/
theorem serve_alike {p q : Phone} (h : Alike p q) (hblind : p.policy.Blind) (code : UInt16)
    (params : List UInt32) (payload : Bytes) :
    (p.serve code params payload).1 = (q.serve code params payload).1 ∧
      Alike (p.serve code params payload).2 (q.serve code params payload).2 := by
  obtain ⟨store, announced, storage, policy, log, trace⟩ := p
  obtain ⟨store', announced', storage', policy', log', trace'⟩ := q
  obtain ⟨rfl, rfl, rfl, rfl⟩ := h
  dsimp only at hblind
  have hif : ∀ {c : Prop} [Decidable c] {a b a' b' : Outcome × Phone},
      (a.1 = a'.1 ∧ Alike a.2 a'.2) → (b.1 = b'.1 ∧ Alike b.2 b'.2) →
        (if c then a else b).1 = (if c then a' else b').1 ∧
          Alike (if c then a else b).2 (if c then a' else b').2 := by
    intro c _ a b a' b' ha hb
    split
    · exact ha
    · exact hb
  have hsame : ∀ {out out' : Outcome}, out = out' →
      out = out' ∧ Alike (⟨store', announced', storage', policy', log, trace⟩ : Phone)
        ⟨store', announced', storage', policy', log', trace'⟩ :=
    fun hout => ⟨hout, rfl, rfl, rfl, rfl⟩
  have hgives : ∀ h offset want,
      partialObject ⟨store', announced', storage', policy', log, trace⟩ h offset want =
        partialObject ⟨store', announced', storage', policy', log', trace'⟩ h offset want := by
    intro h offset want
    simp only [partialObject, hblind.given log log']
  unfold serve
  refine hif (hsame rfl) (hif (hsame rfl) (hif (hsame rfl) (hif ?_ (hif ?_ (hif ?_ (hif ?_ (hif ?_
    (hif ?_ (hif ?_ (hif ?_ (hsame rfl)))))))))))
  · split
    · exact hsame (hgives _ _ _)
    · exact hsame rfl
  · split
    · exact hsame (hgives _ _ _)
    · exact hsame rfl
  · refine hsame ?_
    simp only [Phone.storageInfo, hblind.capacity log log', hblind.free log log']
  · unfold deleteObject
    split
    · exact hif ⟨rfl, rfl, rfl, rfl, rfl⟩ (hsame rfl)
    · exact hsame rfl
  · unfold moveObject
    split
    · dsimp only
      split
      · exact ⟨rfl, rfl, rfl, rfl, rfl⟩
      · exact hsame rfl
    · exact hsame rfl
  · unfold setObjectName
    split
    · split
      · exact hif ⟨rfl, rfl, rfl, rfl, rfl⟩ (hsame rfl)
      · exact hsame rfl
    · exact hsame rfl
  · unfold sendObjectInfo
    split
    · split
      · exact hsame rfl
      · dsimp only
        rw [hblind.alloc log log']
        split
        · exact hsame rfl
        · exact hif ⟨rfl, rfl, rfl, rfl, rfl⟩ (hif ⟨rfl, rfl, rfl, rfl, rfl⟩
            ⟨rfl, rfl, rfl, rfl, rfl⟩)
    · exact hsame rfl
  · unfold sendObject
    dsimp only
    split
    · exact hsame rfl
    · split
      · exact ⟨rfl, rfl, rfl, rfl, rfl⟩
      · exact hsame rfl

/-- A device that decides without its log answers two logs in the same way. -/
theorem exec_alike {p q : Phone} (h : Alike p q) (hblind : p.policy.Blind) (r : Request) :
    (exec r p).1 = (exec r q).1 ∧ Alike (exec r p).2 (exec r q).2 := by
  have hperform : (p.perform r).1 = (q.perform r).1 ∧ Alike (p.perform r).2 (q.perform r).2 := by
    unfold perform
    split
    · exact ⟨rfl, h⟩
    · rename_i payload _
      have hserve := serve_alike h hblind r.code r.params payload
      exact ⟨congrArg Except.ok hserve.1, hserve.2⟩
  have hrecord : ∀ {a b : Phone}, Alike a b → Alike (a.record r) (b.record r) :=
    fun hab => ⟨hab.store, hab.announced, hab.storage, hab.policy⟩
  have hfault : q.policy.fault q.log q.store r = p.policy.fault p.log p.store r := by
    rw [h.policy, h.store]
    exact hblind.fault _ _ _ _
  rw [exec, exec, hfault]
  cases p.policy.fault p.log p.store r with
  | none => exact ⟨hperform.1, hrecord hperform.2⟩
  | some fault =>
      cases fault with
      | code c hc => exact ⟨rfl, hrecord h⟩
      | transport e => exact ⟨rfl, hrecord h⟩
      | lost e => exact ⟨rfl, hrecord hperform.2⟩

end Phone

namespace Mtp

/-- Two mounts that differ in what was asked, and in what was read in advance. -/
structure Alike (m m' : Mtp Phone) : Prop where
  device : Phone.Alike m.session m'.session
  facts : SameFacts m m'

theorem Alike.refl (m : Mtp Phone) : Alike m m := ⟨.refl _, takes_facts.refl m⟩

theorem Alike.trans {a b c : Mtp Phone} (h : Alike a b) (h' : Alike b c) : Alike a c :=
  ⟨h.device.trans h'.device, takes_facts.trans h.facts h'.facts⟩

theorem Alike.symm {m m' : Mtp Phone} (h : Alike m m') : Alike m' m :=
  ⟨h.device.symm, h.facts.storage.symm, h.facts.partialRead.symm, h.facts.packet.symm,
    h.facts.info.symm⟩

/-- The same device with a longer log is alike. -/
theorem SameDevice.alike {m m' : Mtp Phone} (h : SameDevice m m') : Alike m m' :=
  ⟨⟨h.store, h.announced, h.device, h.policy⟩, h.storage, h.partialRead, h.packet, h.info⟩

/-- Two mounts on alike devices, which were asked the same since two moments. -/
structure InStep (l l' : List Request) (m m' : Mtp Phone) : Prop where
  alike : Alike m m'
  blind : m.session.policy.Blind
  logs : ∃ new, m.session.log = l ++ new ∧ m'.session.log = l' ++ new

section InStep

variable {l l' : List Request}

/-- One operation on two devices that are alike. -/
theorem exec_agree (r : Request) :
    Proc.Agree (InStep l l') (exec r : Proc Error (Mtp Phone) Outcome) := by
  intro m m' h
  obtain ⟨hanswer, hdevice⟩ := Phone.exec_alike h.alike.device h.blind r
  obtain ⟨new, hlog, hlog'⟩ := h.logs
  refine ⟨congrArg (Except.mapError Error.session) hanswer, ⟨hdevice, ?_⟩, ?_, new ++ [r], ?_, ?_⟩
  · exact ⟨h.alike.facts.storage, h.alike.facts.partialRead, h.alike.facts.packet,
      h.alike.facts.info⟩
  · exact (Phone.exec_served m.session r).policy ▸ h.blind
  · show (Phone.exec r m.session).2.log = _
    rw [Phone.exec_log, hlog, List.append_assoc]
  · show (Phone.exec r m'.session).2.log = _
    rw [Phone.exec_log, hlog', List.append_assoc]

theorem dropCache_agree :
    Proc.Agree (InStep l l') (dropCache : Proc Error (Mtp Phone) Unit) :=
  .modify fun _ _ h => ⟨⟨h.alike.device, h.alike.facts.storage, h.alike.facts.partialRead,
    h.alike.facts.packet, h.alike.facts.info⟩, h.blind, h.logs⟩

theorem checked_agree (step : String) (out : Outcome) :
    Proc.Agree (InStep l l') (checked step out : Proc Error (Mtp Phone) Outcome) := by
  unfold checked
  split
  · exact .pure _
  · exact .fail _

/-- The question for the room on the device, before a send. -/
theorem storageInfo_agree :
    Proc.Agree (InStep l l') (storageInfo : Proc Error (Mtp Phone) (Nat × Nat)) := by
  refine .get_bind (fun m m' h => by rw [h.alike.facts.storage]) fun m => ?_
  refine .bind (.bind (exec_agree _) fun out => .bind (checked_agree _ _) fun out => .pure _)
    fun data => ?_
  exact .bind (.mapError (.ofExcept _)) fun info => .pure _

/-- An operation with a payload is the same payload on both sides. -/
theorem sendingData_agree (step : String) (code : UInt16) (params : List UInt32)
    (payload : Bytes) : Proc.Agree (InStep l l')
      (sendingData step code params payload : Proc Error (Mtp Phone) (List UInt32)) :=
  .bind (exec_agree _) fun _ => .bind dropCache_agree fun _ =>
    .bind (checked_agree _ _) fun _ => .pure _

/-- A rename sends the same name on both sides. -/
theorem renameObject_agree (h : UInt32) (name : Str) :
    Proc.Agree (InStep l l') (renameObject h name : Proc Error (Mtp Phone) Unit) :=
  .bind (sendingData_agree _ _ _ _) fun _ => .pure _

theorem deleteObject_agree (h : UInt32) :
    Proc.Agree (InStep l l') (deleteObject h : Proc Error (Mtp Phone) Unit) :=
  .bind (.bind (exec_agree _) fun _ => .bind dropCache_agree fun _ =>
    .bind (checked_agree _ _) fun _ => .pure _) fun _ => .pure _

/-- An announcement is the same dataset on both sides. -/
theorem announceObject_agree (info : Bytes) (arg : UInt32) :
    Proc.Agree (InStep l l') (announceObject info arg : Proc Error (Mtp Phone) UInt32) := by
  refine .get_bind (fun m m' h => by rw [h.alike.facts.storage]) fun m => ?_
  refine .bind (sendingData_agree _ _ _ _) fun params => ?_
  split
  · exact .pure _
  · exact .fail _

/-- A stream reads the same spool file on both sides. -/
theorem sendObjectStream_agree (parent : UInt32) (name : Str) (reader : List ReadAnswer)
    (size : Nat) : Proc.Agree (InStep l l')
      (sendObjectStream parent name reader size : Proc Error (Mtp Phone) UInt32) := by
  unfold sendObjectStream
  split
  · exact .fail _
  · refine .get_bind (fun m m' h => by rw [h.alike.facts.storage]) fun m => ?_
    refine .bind (announceObject_agree _ _) fun handle => ?_
    refine .bind (exec_agree _) fun out => .bind dropCache_agree fun _ => ?_
    exact .bind (checked_agree _ _) fun _ => .pure _

end InStep

end Mtp

namespace Fs

/-! ## Two runs -/

/-- Two states of a mount that a writer cannot tell apart. -/
structure Alike (fs fs' : Fs Phone) : Prop where
  pending : fs'.pending = fs.pending
  disk : fs'.disk = fs.disk
  count : fs'.spoolCount = fs.spoolCount
  device : Mtp.Alike fs.mtp fs'.mtp

theorem Alike.refl (fs : Fs Phone) : Alike fs fs := ⟨rfl, rfl, rfl, .refl _⟩

theorem Alike.trans {a b c : Fs Phone} (h : Alike a b) (h' : Alike b c) : Alike a c :=
  ⟨h'.pending.trans h.pending, h'.disk.trans h.disk, h'.count.trans h.count,
    h.device.trans h'.device⟩

theorem Alike.symm {fs fs' : Fs Phone} (h : Alike fs fs') : Alike fs' fs :=
  ⟨h.pending.symm, h.disk.symm, h.count.symm, h.device.symm⟩

/-- The path whose spool file a call changes. -/
def Call.edits : Call → Option Str
  | .write path _ _ => some path
  | .truncate path _ => some path
  | _ => none

/-- A write looks at the entries and the spool files alone. -/
theorem opWrite_elsewhere {σ : Type} (fs : Fs σ) (m : Mtp σ) (t : Tree) (path : Str)
    (bytes : Bytes) (offset : Nat) :
    opWrite path bytes offset { fs with mtp := m, tree := t } =
      ((opWrite path bytes offset fs).1,
        { (opWrite path bytes offset fs).2 with mtp := m, tree := t }) := by
  rw [opWrite, Proc.bind_ok (Proc.get_run _), Proc.bind_ok (Proc.get_run _)]
  dsimp only
  cases fs.pending path with
  | none => rfl
  | some p =>
      dsimp only [spoolBytes]
      rcases writeAt offset bytes fs.host.writes 0 ((fs.disk p.spool).getD [])
        with ⟨rc | done, file⟩
      · rfl
      · dsimp only
        rw [Proc.bind_ok (putSpool_run _ _ _), Proc.bind_ok (putSpool_run _ _ _)]
        split
        · rfl
        · rfl

/-- One call of a writer on an entry takes alike states to alike states. -/
theorem alike_step {fs fs' : Fs Phone} (h : Alike fs fs') {e : Host × Call} {path : Str}
    (hedits : e.2.edits = some path) (hp : fs.pending path ≠ none) :
    Alike (fs.step e) (fs'.step e) := by
  obtain ⟨host, c⟩ := e
  have hstate : ({ fs' with host := host } : Fs Phone) =
      { ({ fs with host := host } : Fs Phone) with mtp := fs'.mtp, tree := fs'.tree } := by
    rw [← h.pending, ← h.disk, ← h.count]
  rw [step, step, call, call]
  dsimp only
  rw [hstate]
  cases c with
  | write path bytes offset =>
      rw [Call.number, Proc.bind_pure_state, Proc.bind_pure_state, opWrite_elsewhere]
      have hmtp := opWrite_mtp path bytes offset { fs with host := host }
      exact ⟨rfl, rfl, rfl, by rw [hmtp]; exact h.device⟩
  | truncate path size =>
      cases hedits
      obtain ⟨p, hp⟩ := Option.ne_none_iff_exists'.mp hp
      rw [Call.number, @opTruncate_entry _ _ { fs with host := host } _ _ hp,
        @opTruncate_entry _ _ { ({ fs with host := host } : Fs Phone) with
          mtp := fs'.mtp, tree := fs'.tree } _ _ hp]
      dsimp only
      split
      · exact ⟨rfl, rfl, rfl, h.device⟩
      · exact ⟨rfl, rfl, rfl, h.device⟩
  | _ => cases hedits

/-- What comes between the open and the flush of a writer: calls of readers, and writes
and changes of size on files a program writes. -/
def Between (fs : Fs Phone) (e : Host × Call) : Prop :=
  e.2.reads = true ∨ ∃ path, e.2.edits = some path ∧ fs.pending path ≠ none

/-- A change of the spool file of an entry tells the device nothing. -/
theorem edits_mtp {fs : Fs Phone} {e : Host × Call} {path : Str} (hedits : e.2.edits = some path)
    (hp : fs.pending path ≠ none) : (fs.step e).mtp = fs.mtp := by
  obtain ⟨host, c⟩ := e
  cases c with
  | write path bytes offset =>
      rw [step, call, Call.number, Proc.bind_pure_state, opWrite_mtp]
  | truncate path size =>
      cases hedits
      obtain ⟨p, hp⟩ := Option.ne_none_iff_exists'.mp hp
      rw [step, call, Call.number, @opTruncate_entry _ _ { fs with host := host } _ _ hp]
      split <;> rfl
  | _ => cases hedits

/-- **The readers make no difference** to the states a run of a writer goes through. -/
theorem alike_run {fs fs' : Fs Phone} (h : Alike fs fs')
    (hread : fs.mtp.partialRead ∈ Mtp.readsOnly) {calls : List (Host × Call)}
    (hcalls : Run.Meets step Between fs calls) :
    Alike (fs.run calls) (fs'.run (calls.filter fun e => !e.2.reads)) := by
  induction calls generalizing fs fs' with
  | nil => exact h
  | cons e calls ih =>
      obtain ⟨hbetween, hrest⟩ := hcalls
      cases hreads : e.2.reads with
      | true =>
          have hleaves := reader_leaves_all hread hreads
          have hstep : Alike (fs.step e) fs :=
            Alike.symm ⟨hleaves.pending, hleaves.disk, hleaves.count, hleaves.device.alike⟩
          rw [List.filter_cons_of_neg (by rw [hreads]; decide)]
          exact ih (hstep.trans h) (hleaves.device.partialRead ▸ hread) hrest
      | false =>
          obtain ⟨path, hedits, hp⟩ := hbetween.resolve_left (by rw [hreads]; decide)
          rw [List.filter_cons_of_pos (by rw [hreads]; decide)]
          refine ih (alike_step h hedits hp) ?_ hrest
          rw [edits_mtp hedits hp]
          exact hread

/-! ## The send of a flush -/

/-- Two mounts in step, with the same spool files, and the same size on record for the
object an entry replaces. -/
structure InStep (l l' : List Request) (replaces : Option UInt32) (fs fs' : Fs Phone) : Prop where
  pending : fs'.pending = fs.pending
  disk : fs'.disk = fs.disk
  count : fs'.spoolCount = fs.spoolCount
  host : fs'.host = fs.host
  recorded : ∀ old, replaces = some old →
    (fs'.tree.get old).map Entry.size = (fs.tree.get old).map Entry.size
  device : Mtp.InStep l l' fs.mtp fs'.mtp

section InStep

variable {l l' : List Request} {replaces : Option UInt32} {E : Type} {α : Type}

theorem tryMtp_agree {x : Proc Error (Mtp Phone) α} (hx : Proc.Agree (Mtp.InStep l l') x) :
    Proc.Agree (InStep l l' replaces) (tryMtp x : Proc E (Fs Phone) (Except Error α)) := by
  intro fs fs' h
  obtain ⟨hanswer, hdevice⟩ := hx fs.mtp fs'.mtp h.device
  exact ⟨congrArg Except.ok hanswer, h.pending, h.disk, h.count, h.host, h.recorded, hdevice⟩

theorem forgetListing_agree (parent : UInt32) :
    Proc.Agree (InStep l l' replaces) (forgetListing parent : Proc E (Fs Phone) Unit) :=
  fun _ _ h => ⟨rfl, h.pending, h.disk, h.count, h.host, h.recorded, h.device⟩

theorem asideName_agree (name : Str) :
    Proc.Agree (InStep l l' replaces) (asideName name : Proc E (Fs Phone) Str) := by
  intro fs fs' h
  refine ⟨?_, h.pending, h.disk, ?_, h.host, h.recorded, h.device⟩
  · exact congrArg (fun n => Except.ok (asideOf name n)) h.count.symm
  · exact congrArg (· + 1) h.count

/-- The size of the old object decides how a send makes room, and both trees tell the same of it. -/
theorem makeRoom_agree (p : Pending) :
    Proc.Agree (InStep l l' p.replaces) (makeRoom p : Proc Int (Fs Phone) (Pending × Bool)) := by
  unfold makeRoom
  split
  · exact .pure _
  · rename_i old hold
    refine .get_bind (fun fs fs' h => by rw [h.recorded old hold]) fun fs => ?_
    refine .bind (tryMtp_agree Mtp.storageInfo_agree) fun answer => ?_
    extract_lets free
    split
    · refine .bind (asideName_agree _) fun aside => ?_
      refine .bind (tryMtp_agree (Mtp.renameObject_agree _ _)) fun renamed => ?_
      split
      · exact .pure _
      · exact .fail _
    · split
      · refine .bind (tryMtp_agree (Mtp.deleteObject_agree _)) fun deleted => ?_
        split
        · exact .pure _
        · exact .fail _
      · exact .fail _

/-- The stream, and what becomes of the old object, are the same on both sides. -/
theorem deliver_agree (p : Pending) (oldCopyExists : Bool) :
    Proc.Agree (InStep l l' replaces)
      (deliver p oldCopyExists : Proc E (Fs Phone) (Int × Pending)) := by
  have hlast : ∀ a : Int × Pending, Proc.Agree (InStep l l' replaces) (do
      forgetListing p.parent
      pure a : Proc E (Fs Phone) (Int × Pending)) := fun a =>
    .bind (forgetListing_agree _) fun _ => .pure _
  refine .get_bind (fun fs fs' h => by rw [spoolBytes, spoolBytes, h.disk, h.host]) fun fs => ?_
  refine .bind (tryMtp_agree (Mtp.sendObjectStream_agree _ _ _ _)) fun answer => ?_
  split
  · split
    · exact .bind (tryMtp_agree (Mtp.deleteObject_agree _)) fun _ => hlast _
    · exact hlast _
  · split
    · exact .bind (tryMtp_agree (Mtp.renameObject_agree _ _)) fun _ => hlast _
    · exact hlast _

/-- **A send is the same** from two mounts that are alike. -/
theorem sendPending_agree (p : Pending) :
    Proc.Agree (InStep l l' p.replaces) (sendPending p : Proc E (Fs Phone) (Int × Pending)) := by
  have hready : Proc.Agree (InStep l l' p.replaces)
      (readyToSend p : Proc Int (Fs Phone) (Pending × Bool)) := by
    refine .get_bind (fun fs fs' h => by rw [h.host]) fun fs => ?_
    split
    · exact .fail _
    · split
      · exact makeRoom_agree p
      · exact .fail _
  refine .bind hready.attempt fun answer => ?_
  split
  · exact .pure _
  · exact deliver_agree _ _

/-- **A flush of alike states** gives the same answer, and asks the device for the
same. -/
theorem flush_agree {fs fs' : Fs Phone} {path : Str} {p : Pending}
    (hp : fs.pending path = some p) (h : InStep l l' p.replaces fs fs') (fi : Option Nat) :
    (opFlush path fi fs).1 = (opFlush path fi fs').1 ∧
      InStep l l' p.replaces (opFlush path fi fs).2 (opFlush path fi fs').2 := by
  have hp' : fs'.pending path = some p := h.pending ▸ hp
  cases hfi : fhWrites fi with
  | false =>
      rw [opFlush_reader hfi, opFlush_reader hfi]
      exact ⟨rfl, h⟩
  | true =>
      cases hsent : p.sent with
      | some rc =>
          rw [opFlush_sent hfi hp hsent, opFlush_sent hfi hp' hsent]
          exact ⟨rfl, h⟩
      | none =>
          obtain ⟨rc, q, fs₁, hsend, hrun⟩ := opFlush_unsent hfi hp hsent
          obtain ⟨rc', q', fs₁', hsend', hrun'⟩ := opFlush_unsent hfi hp' hsent
          have hwithout : InStep l l' p.replaces (fs.without path) (fs'.without path) :=
            ⟨by simp only [without, h.pending], h.disk, h.count, h.host, h.recorded,
              h.device⟩
          obtain ⟨hanswer, hstate⟩ := sendPending_agree (E := Int) p _ _ hwithout
          rw [hsend, hsend'] at hanswer hstate
          cases hanswer
          rw [hrun, hrun']
          have hpending : fs₁'.pending = fs₁.pending := hstate.pending
          exact ⟨rfl, by simp only [withEntry, hpending], hstate.disk,
            hstate.count, hstate.host, hstate.recorded, hstate.device⟩

end InStep

/-! ## Any readers between an open and a flush -/

/-- Two states whose flush of a path sends the same file: the same bytes, to the same
folder and name.  On a device that does not look back at the requests before, and with the
same size on record for the object to replace, it also asks for the same in the same
order and gives the same answer. -/
structure SameFlush (fs fs' : Fs Phone) (path : Str) (host : Host) (fi : Option Nat) : Prop where
  entry : fs'.pending path = fs.pending path
  bytes : ∀ p, fs.pending path = some p → fs'.spoolBytes p.spool = fs.spoolBytes p.spool
  file : ∀ p, fs.pending path = some p →
    ∀ r ∈ issued fs (fs.step (host, .flush path fi)) ++
        issued fs' (fs'.step (host, .flush path fi)),
      OfFile p.parent p.name p.size (readerOf host.reading (fs.spoolBytes p.spool)) r
  requests : fs.mtp.session.policy.Blind →
    (∀ p old, fs.pending path = some p → p.replaces = some old →
      (fs'.tree.get old).map Entry.size = (fs.tree.get old).map Entry.size) →
    (fs.call (host, .flush path fi)).1 = (fs'.call (host, .flush path fi)).1 ∧
      issued fs (fs.step (host, .flush path fi)) = issued fs' (fs'.step (host, .flush path fi))

/-- Mounts that are alike flush a path alike. -/
theorem Alike.sameFlush {fs fs' : Fs Phone} (h : Alike fs fs') (path : Str) (host : Host)
    (fi : Option Nat) : SameFlush fs fs' path host fi := by
  have hbytes : ∀ n, fs'.spoolBytes n = fs.spoolBytes n := fun n => by
    rw [spoolBytes, spoolBytes, h.disk]
  refine ⟨congrFun h.pending path, fun p _ => hbytes p.spool, ?_, ?_⟩
  · intro p hp r hr
    have hp' : fs'.pending path = some p := h.pending ▸ hp
    have hcloses : (Call.flush path fi).Closes path := ⟨fi, .inl rfl⟩
    rcases List.mem_append.mp hr with hr | hr
    · exact forall_issued (closes_issues hp hcloses host) r hr
    · have hissues := closes_issues hp' hcloses host
      rw [hbytes] at hissues
      exact forall_issued hissues r hr
  · intro hblind hrecorded
    cases hp : fs.pending path with
    | none =>
        have hp' : fs'.pending path = none := h.pending ▸ hp
        have hnothing : ∀ g : Fs Phone, g.pending path = none →
            g.call (host, .flush path fi) = (.ok 0, { g with host := host }) := by
          intro g hg
          rw [call, Call.number]
          cases hfi : fhWrites fi with
          | false => exact opFlush_reader hfi
          | true => exact @opFlush_none _ _ { g with host := host } _ _ hfi hg
        rw [step, step, hnothing fs hp, hnothing fs' hp']
        refine ⟨rfl, ?_⟩
        rw [issued, issued, List.drop_length, List.drop_length]
    | some p =>
        have hstart : InStep fs.mtp.session.log fs'.mtp.session.log p.replaces
            { fs with host := host } { fs' with host := host } :=
          ⟨h.pending, h.disk, h.count, rfl, fun old => hrecorded p old hp, h.device, hblind, [],
            (List.append_nil _).symm, (List.append_nil _).symm⟩
        obtain ⟨hanswer, hend⟩ := @flush_agree _ _ { fs with host := host } { fs' with host := host }
          _ _ hp hstart fi
        obtain ⟨new, hlog, hlog'⟩ := hend.device.logs
        refine ⟨hanswer, ?_⟩
        have hissued : issued fs (fs.step (host, .flush path fi)) = new := by
          rw [issued, step, call, Call.number]
          show (opFlush path fi { fs with host := host }).2.mtp.session.log.drop
            fs.mtp.session.log.length = new
          rw [hlog, List.drop_left]
        have hissued' : issued fs' (fs'.step (host, .flush path fi)) = new := by
          rw [issued, step, call, Call.number]
          show (opFlush path fi { fs' with host := host }).2.mtp.session.log.drop
            fs'.mtp.session.log.length = new
          rw [hlog', List.drop_left]
        rw [hissued, hissued']

/-- A callback leaves the operation that reads parts of objects. -/
theorem step_partialRead {fs : Fs Phone} (hread : fs.mtp.partialRead ∈ Mtp.readsOnly)
    (e : Host × Call) : (fs.step e).mtp.partialRead ∈ Mtp.readsOnly := by
  have hfacts := (call_effect (respects_of_takes Mtp.takes_facts fun _ => ⟨rfl, rfl, rfl, rfl⟩)
    fs e).device Mtp.takes_facts.toChains
  exact hfacts.partialRead ▸ hread

theorem run_partialRead {m : Mtp Phone} (hread : m.partialRead ∈ Mtp.readsOnly) (host : Host)
    (calls : List (Host × Call)) :
    ((start m host).run calls).mtp.partialRead ∈ Mtp.readsOnly := by
  have hmeets : Run.Meets (step (σ := Phone)) (fun _ _ => True) (start m host) calls :=
    Run.Meets.of_forall fun _ _ => trivial
  have hstep : ∀ (fs : Fs Phone) (e : Host × Call), fs.mtp.partialRead ∈ Mtp.readsOnly → True →
      (fs.step e).mtp.partialRead ∈ Mtp.readsOnly := fun fs e hfs _ => step_partialRead hfs e
  exact hmeets.invariant hstep hread

/-- **A reader never disturbs a writer.**  In every state a mount reaches, no call of a
reader changes an entry, a spool file or an object.  Between the open and the flush of a
writer, with any readers on any paths in between, the flush sends what it sends without
them. -/
theorem readers_never_disturb {m : Mtp Phone} (hread : m.partialRead ∈ Mtp.readsOnly)
    (host : Host) (calls : List (Host × Call)) :
    (∀ e : Host × Call, e.2.reads = true →
      Undisturbed ((start m host).run calls) (((start m host).run calls).step e)) ∧
    ∀ between : List (Host × Call), Run.Meets step Between ((start m host).run calls) between →
      ∀ path now fi, SameFlush (((start m host).run calls).run between)
        (((start m host).run calls).run (between.filter fun e => !e.2.reads)) path now fi := by
  have hreads := run_partialRead hread host calls
  refine ⟨fun e he => reader_leaves_all hreads he, fun between hbetween path now fi => ?_⟩
  exact (alike_run (.refl _) hreads hbetween).sameFlush path now fi

/-- A reader opens, reads and closes a file while a writer writes it. -/
def amid : List (Host × Call) :=
  [(Host.obliging, .opens ['/', 'a'] 0), (Host.obliging, .write ['/', 'a'] [1, 2, 3] 0),
    (Host.obliging, .read ['/', 'a'] 16 0 (some 0)), (Host.obliging, .flush ['/', 'a'] (some 0)),
    (Host.obliging, .truncate ['/', 'a'] 2), (Host.obliging, .release ['/', 'a'] (some 0))]

theorem readers_never_disturb_amid :
    SameFlush (((start emptyMount Host.obliging).run
        [(Host.obliging, .create ['/', 'a'])]).run amid)
      (((start emptyMount Host.obliging).run
        [(Host.obliging, .create ['/', 'a'])]).run (amid.filter fun e => !e.2.reads))
      ['/', 'a'] Host.obliging none := by
  refine (readers_never_disturb (by decide) Host.obliging _).2 amid ?_ _ _ _
  refine ⟨.inl rfl, .inr ⟨['/', 'a'], rfl, ?_⟩, .inl rfl, .inl rfl, .inr ⟨['/', 'a'], rfl, ?_⟩,
    .inl rfl, trivial⟩
  · decide +kernel
  · decide +kernel

end Fs

end Bsdroid
