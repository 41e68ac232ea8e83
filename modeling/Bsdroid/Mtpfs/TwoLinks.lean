import Bsdroid.Lib.Sim
import Bsdroid.Mtpfs.Calls

/-!
# One mount over two links

The mount reaches its device through a link, one operation at a time, and knows nothing else
of it.  So when a lower link does each operation as an upper one does, up to the count of
reads, a mount over the lower link gives every program the answers of a mount over the upper
one, call for call (`Fs.replies_sim`).
-/

namespace Bsdroid

open Proc

variable {σ σ' : Type} {E : Type} {α : Type}

/-- Two outcomes of one operation, when nobody counts the reads. -/
structure UpToReads (o o' : Outcome) : Prop where
  responseCode : o.responseCode = o'.responseCode
  data : o.data = o'.data
  responseParams : o.responseParams = o'.responseParams

/-- An outcome is itself, also when the reads are counted. -/
theorem UpToReads.refl (o : Outcome) : UpToReads o o := ⟨rfl, rfl, rfl⟩

/-- Whether an operation worked is in its response code alone. -/
theorem UpToReads.isOk {o o' : Outcome} (h : UpToReads o o') : o.isOk = o'.isOk := by
  unfold Outcome.isOk
  rw [h.responseCode]

namespace Mtp

/-- The facts of one mount over another link. -/
def linked (m : Mtp σ) (session : σ') : Mtp σ' where
  session := session
  storage := m.storage
  partialRead := m.partialRead
  fastList := m.fastList
  packet := m.packet
  cache := m.cache
  info := m.info

/-- Two mounts that know the same of the device, over links that belong together. -/
def coupling (c : Coupling σ σ') : Coupling (Mtp σ) (Mtp σ') where
  good m := c.good m.session
  rel m m' := c.rel m.session m'.session ∧ m' = m.linked m'.session
  total m' := by
    obtain ⟨s, hs⟩ := c.total m'.session
    exact ⟨m'.linked s, hs, rfl⟩

variable {c : Coupling σ σ'} {W : α → α → Prop}

/-- What the mount knows of the device is one on both sides. -/
theorem look {k : Mtp σ → Proc E (Mtp σ) α} {k' : Mtp σ' → Proc E (Mtp σ') α}
    (h : ∀ m l, Sim (coupling c) W (k m) (k' (m.linked l))) :
    Sim (coupling c) W (Proc.get >>= k) (Proc.get >>= k') := by
  apply Sim.look
  intro m m' hm
  rw [hm.2]
  exact h m m'.session

/-- A change of what the mount knows. -/
theorem change {f : Mtp σ → Mtp σ} {f' : Mtp σ' → Mtp σ'} (hf : ∀ m, (f m).session = m.session)
    (h : ∀ m l, f' (m.linked l) = (f m).linked l) :
    Sim (coupling c) Eq (Proc.modify f : Proc E (Mtp σ) Unit) (Proc.modify f') := by
  have hsession : ∀ m, (f' m).session = m.session := by
    intro m
    obtain ⟨s, -, hm⟩ := (coupling c).total m
    rw [hm, h]
    rfl
  apply Sim.modify
  · intro m hgood
    have hsame : c.good (f' m).session := hgood
    rw [hsession] at hsame
    exact hsame
  · intro m m' hm
    refine ⟨?_, ?_⟩
    · rw [hf, hsession]
      exact hm.1
    · rw [hsession]
      conv => lhs; rw [hm.2, h]

/-- The check of an answer sees the response code, which is one on both sides. -/
theorem checked_sim {step : String} {o o' : Outcome} (hsame : UpToReads o o') :
    Sim (coupling c) UpToReads (checked step o : Proc Error (Mtp σ) Outcome)
      (checked step o') := by
  unfold checked
  rw [hsame.isOk, hsame.responseCode]
  apply Sim.ite
  · intro _
    exact .pure hsame
  · intro _
    exact .fail _

/-- Both mounts forget what they read in advance. -/
theorem dropCache_sim :
    Sim (coupling c) Eq (dropCache : Proc Error (Mtp σ) Unit) dropCache :=
  change (fun _ => rfl) fun _ _ => rfl

/-- Both mounts read the same bytes in advance, so a look at them gives the same. -/
theorem cached_sim (handle : UInt32) (offset want : Nat) : Sim (coupling c) Eq
    (cached handle offset want : Proc Error (Mtp σ) (Option Bytes))
    (cached handle offset want) := by
  apply look
  intro m l
  cases m with
  | mk session storage partialRead fastList packet cache info =>
      cases cache with
      | none => exact .pure rfl
      | some cache => exact .ofExcept _

variable [Link σ] [Link σ']

/-- Each operation of the lower link is the operation of the upper one. -/
def Served (c : Coupling σ σ') : Prop :=
  ∀ r, Sim c UpToReads (Link.exec r : Proc SessionError σ Outcome) (Link.exec r)

variable (h : Served c) {step : String} {code : UInt16} {params : List UInt32}
include h

/-- One operation of the mount is one of its link. -/
theorem exec_sim (r : Request) :
    Sim (coupling c) UpToReads (exec r : Proc Error (Mtp σ) Outcome) (exec r) := by
  apply Sim.mapError
  apply (h r).onPart
  · intro m
    exact Iff.rfl
  · intro l m
    rfl
  · intro m m' hm
    exact hm.1
  · intro m m' l l' hm hl
    refine ⟨hl, ?_⟩
    conv => lhs; rw [hm.2]
    rfl

/-- An operation, and then what its answer is checked for. -/
theorem operation_sim : Sim (coupling c) Eq
    (operation step code params : Proc Error (Mtp σ) Bytes) (operation step code params) := by
  apply (exec_sim h _).bind .refl
  intro o o' hsame
  apply (checked_sim hsame).bind .refl
  intro o o' hsame
  exact .pure hsame.data

/-- An operation that changes the device, with the cache forgotten before the check. -/
theorem operationThatChanges_sim : Sim (coupling c) Eq
    (operationThatChanges step code params : Proc Error (Mtp σ) (List UInt32))
    (operationThatChanges step code params) := by
  apply (exec_sim h _).bind .refl
  intro o o' hsame
  apply dropCache_sim.step
  intro _
  apply (checked_sim hsame).bind .refl
  intro o o' hsame
  exact .pure hsame.responseParams

/-- An operation with a payload in memory.  The payload is part of the request, so both links get
the same. -/
theorem sendingData_sim {payload : Bytes} : Sim (coupling c) Eq
    (sendingData step code params payload : Proc Error (Mtp σ) (List UInt32))
    (sendingData step code params payload) := by
  apply (exec_sim h _).bind .refl
  intro o o' hsame
  apply dropCache_sim.step
  intro _
  apply (checked_sim hsame).bind .refl
  intro o o' hsame
  exact .pure hsame.responseParams

/-- The fast listing asks for one property after the other.  The induction is on the codes. -/
theorem propEntries_sim (arg : UInt32) (codes : List UInt16) : Sim (coupling c) Eq
    (propEntries arg codes : Proc Error (Mtp σ) (List PropEntry)) (propEntries arg codes) := by
  induction codes with
  | nil => exact .pure rfl
  | cons code rest ih =>
      apply (operation_sim h).step
      intro data
      apply (Sim.mapError _ (.ofExcept _)).step
      intro entries
      apply ih.step
      intro more
      exact .pure rfl

/-- The answers of the fast listing are folded on the host. -/
theorem listByProperties_sim (parent : UInt32) : Sim (coupling c) Eq
    (listByProperties parent : Proc Error (Mtp σ) (List Entry)) (listByProperties parent) := by
  apply (propEntries_sim h _ _).step
  intro entries
  exact .ofExcept _

/-- The slow listing asks for one object after the other, and drops the same datasets on both
sides. -/
theorem infoEntries_sim (parent : UInt32) (handles : List UInt32) : Sim (coupling c) Eq
    (infoEntries parent handles : Proc Error (Mtp σ) (List Entry))
    (infoEntries parent handles) := by
  induction handles with
  | nil => exact .pure rfl
  | cons handle rest ih =>
      apply (operation_sim h).step
      intro raw
      apply ih.step
      intro more
      cases ObjectInfo.parse raw with
      | error e => exact .pure rfl
      | ok info => exact .pure rfl

/-- The handles of a folder, and then each of its objects. -/
theorem listOneAtATime_sim (parent : UInt32) : Sim (coupling c) Eq
    (listOneAtATime parent : Proc Error (Mtp σ) (List Entry)) (listOneAtATime parent) := by
  apply look
  intro m l
  apply (operation_sim h).step
  intro data
  exact infoEntries_sim h _ _

/-- Both mounts try the fast listing, and both give it up at the same answer. -/
theorem list_sim (parent : UInt32) : Sim (coupling c) Eq
    (list parent : Proc Error (Mtp σ) (List Entry)) (list parent) := by
  apply look
  intro m l
  apply Sim.ite
  · intro _
    apply (listByProperties_sim h parent).attempt.step
    intro answer
    cases answer with
    | ok v => exact .pure rfl
    | error e =>
        refine .step (change ?_ ?_) fun _ => ?_
        · intro m
          rfl
        · intro m l
          rfl
        exact listOneAtATime_sim h parent
  · intro _
    exact listOneAtATime_sim h parent

/-- A range of an object, with the operation that both mounts chose at their start. -/
theorem partialReadAt_sim (handle : UInt32) (offset want : Nat) : Sim (coupling c) Eq
    (partialReadAt handle offset want : Proc Error (Mtp σ) Bytes)
    (partialReadAt handle offset want) := by
  apply look
  intro m l
  exact operation_sim h

/-- A range in one request or in two, as the length of the packet asks for on both sides. -/
theorem readFromDevice_sim (handle : UInt32) (offset want fileSize : Nat) : Sim (coupling c) Eq
    (readFromDevice handle offset want fileSize : Proc Error (Mtp σ) Bytes)
    (readFromDevice handle offset want fileSize) := by
  apply look
  intro m l
  apply (partialReadAt_sim h _ _ _).step
  intro data
  apply Sim.ite
  · intro _
    apply (Sim.ofExcept _).step
    intro last
    apply (partialReadAt_sim h _ _ _).step
    intro tail
    exact .pure rfl
  · intro _
    exact .pure rfl

/-- A read goes on until it has its bytes.  The induction is on the rounds that are left. -/
theorem fillFrom_sim (handle : UInt32) (offset want fileSize rounds : Nat) (out : Bytes) :
    Sim (coupling c) Eq
      (fillFrom handle offset want fileSize rounds out : Proc Error (Mtp σ) Bytes)
      (fillFrom handle offset want fileSize rounds out) := by
  induction rounds generalizing out with
  | zero => exact .pure rfl
  | succ rounds ih =>
      apply Sim.ite
      · intro _
        apply (Sim.ofExcept _).step
        intro position
        apply (Sim.ofExcept _).step
        intro need
        apply (cached_sim _ _ _).step
        intro answer
        cases answer with
        | some bytes => exact ih _
        | none =>
            apply (Sim.ofExcept _).step
            intro left
            apply (readFromDevice_sim h _ _ _ _).step
            intro data
            apply Sim.ite
            · intro _
              exact .pure rfl
            · intro _
              refine .step (change ?_ ?_) fun _ => ?_
              · intro m
                rfl
              · intro m l
                rfl
              exact ih _
      · intro _
        exact .pure rfl

/-- A read of the device, and of what was read in advance. -/
theorem readAt_sim (handle : UInt32) (offset want fileSize : Nat) : Sim (coupling c) Eq
    (readAt handle offset want fileSize : Proc Error (Mtp σ) Bytes)
    (readAt handle offset want fileSize) := by
  apply Sim.ite
  · intro _
    exact .pure rfl
  · intro _
    apply (Sim.ofExcept _).step
    intro left
    exact fillFrom_sim h _ _ _ _ _ _

/-- An announcement gives the handle of the new object, or fails on both sides. -/
theorem announceObject_sim (info : Bytes) (arg : UInt32) : Sim (coupling c) Eq
    (announceObject info arg : Proc Error (Mtp σ) UInt32) (announceObject info arg) := by
  apply look
  intro m l
  apply (sendingData_sim h).step
  intro params
  cases params[2]? with
  | some handle => exact .pure rfl
  | none => exact .fail _

/-- A payload in memory is announced and sent, and a folder only announced. -/
theorem sendObject_sim (parent : UInt32) (name : Str) (data : Bytes) (isFolder : Bool) :
    Sim (coupling c) Eq (sendObject parent name data isFolder : Proc Error (Mtp σ) UInt32)
      (sendObject parent name data isFolder) := by
  apply Sim.ite
  · intro _
    exact .fail _
  · intro _
    apply look
    intro m l
    apply (announceObject_sim h _ _).step
    intro handle
    apply Sim.ite
    · intro _
      exact .pure rfl
    · intro _
      apply (sendingData_sim h).step
      intro _
      exact .pure rfl

/-- A file is announced, and its bytes come from the same reader. -/
theorem sendObjectStream_sim (parent : UInt32) (name : Str) (reader : List ReadAnswer)
    (size : Nat) : Sim (coupling c) Eq
      (sendObjectStream parent name reader size : Proc Error (Mtp σ) UInt32)
      (sendObjectStream parent name reader size) := by
  apply Sim.ite
  · intro _
    exact .fail _
  · intro _
    apply look
    intro m l
    apply (announceObject_sim h _ _).step
    intro handle
    apply (exec_sim h _).bind .refl
    intro o o' hsame
    apply dropCache_sim.step
    intro _
    apply (checked_sim hsame).bind .refl
    intro _ _ _
    exact .pure rfl

/-- The room on the device. -/
theorem storageInfo_sim : Sim (coupling c) Eq
    (storageInfo : Proc Error (Mtp σ) (Nat × Nat)) storageInfo := by
  apply look
  intro m l
  apply (operation_sim h).step
  intro data
  apply (Sim.mapError _ (.ofExcept _)).step
  intro info
  exact .pure rfl

/-- A new name is the payload of one operation. -/
theorem renameObject_sim (handle : UInt32) (name : Str) : Sim (coupling c) Eq
    (renameObject handle name : Proc Error (Mtp σ) Unit) (renameObject handle name) := by
  apply (sendingData_sim h).step
  intro _
  exact .pure rfl

/-- A move is one operation. -/
theorem moveObject_sim (handle newParent : UInt32) : Sim (coupling c) Eq
    (moveObject handle newParent : Proc Error (Mtp σ) Unit) (moveObject handle newParent) := by
  apply look
  intro m l
  apply (operationThatChanges_sim h).step
  intro _
  exact .pure rfl

/-- A removal is one operation. -/
theorem deleteObject_sim (handle : UInt32) : Sim (coupling c) Eq
    (deleteObject handle : Proc Error (Mtp σ) Unit) (deleteObject handle) := by
  apply (operationThatChanges_sim h).step
  intro _
  exact .pure rfl

end Mtp

namespace Fs

/-- The state of a mount over another link. -/
def linked (fs : Fs σ) (session : σ') : Fs σ' where
  mtp := fs.mtp.linked session
  tree := fs.tree
  pending := fs.pending
  disk := fs.disk
  spoolCount := fs.spoolCount
  host := fs.host

@[simp] theorem linked_tree (fs : Fs σ) (l : σ') : (fs.linked l).tree = fs.tree := rfl

@[simp] theorem linked_pending (fs : Fs σ) (l : σ') : (fs.linked l).pending = fs.pending := rfl

@[simp] theorem linked_host (fs : Fs σ) (l : σ') : (fs.linked l).host = fs.host := rfl

@[simp] theorem linked_spoolBytes (fs : Fs σ) (l : σ') (spool : Nat) :
    (fs.linked l).spoolBytes spool = fs.spoolBytes spool := rfl

/-- Two mounts with one tree, one map of entries and one disk, over links that belong
together. -/
def coupling (c : Coupling σ σ') : Coupling (Fs σ) (Fs σ') where
  good fs := c.good fs.mtp.session
  rel fs fs' := c.rel fs.mtp.session fs'.mtp.session ∧ fs' = fs.linked fs'.mtp.session
  total fs' := by
    obtain ⟨s, hs⟩ := c.total fs'.mtp.session
    exact ⟨fs'.linked s, hs, rfl⟩

variable {c : Coupling σ σ'} {W : α → α → Prop}

theorem look {k : Fs σ → Proc E (Fs σ) α} {k' : Fs σ' → Proc E (Fs σ') α}
    (h : ∀ fs l, Sim (coupling c) W (k fs) (k' (fs.linked l))) :
    Sim (coupling c) W (Proc.get >>= k) (Proc.get >>= k') := by
  apply Sim.look
  intro fs fs' hfs
  rw [hfs.2]
  exact h fs fs'.mtp.session

/-- A step that leaves the session alone and reads nothing of it. -/
theorem aside_sim {x : Proc E (Fs σ) α} {y : Proc E (Fs σ') α}
    (hkeeps : ∀ fs, (x fs).2.mtp.session = fs.mtp.session)
    (h : ∀ fs l, y (fs.linked l) = ((x fs).1, (x fs).2.linked l)) : Sim (coupling c) Eq x y := by
  have hsession : ∀ fs, (y fs).2.mtp.session = fs.mtp.session := by
    intro fs
    obtain ⟨s, -, hfs⟩ := (coupling c).total fs
    rw [hfs, h]
    rfl
  constructor
  · intro fs hgood
    have hsame : c.good (y fs).2.mtp.session := hgood
    rw [hsession] at hsame
    exact hsame
  · intro fs fs' hfs _
    have hrun := h fs fs'.mtp.session
    rw [← hfs.2] at hrun
    refine ⟨?_, ?_, ?_⟩
    · rw [hrun]
      exact answers_eq.mpr rfl
    · rw [hkeeps, hsession]
      exact hfs.1
    · rw [hsession, hrun]

/-- A listing goes into both trees. -/
theorem setChildren_sim (parent : UInt32) (entries : List Entry) : Sim (coupling c) Eq
    (setChildren parent entries : Proc E (Fs σ) Unit) (setChildren parent entries) :=
  aside_sim (fun _ => rfl) fun _ _ => rfl

/-- A listing is forgotten in both trees. -/
theorem forgetListing_sim (parent : UInt32) : Sim (coupling c) Eq
    (forgetListing parent : Proc E (Fs σ) Unit) (forgetListing parent) :=
  aside_sim (fun _ => rfl) fun _ _ => rfl

/-- Both mounts give out the same number. -/
theorem nextCount_sim :
    Sim (coupling c) Eq (nextCount : Proc E (Fs σ) Nat) nextCount :=
  aside_sim (fun _ => rfl) fun _ _ => rfl

/-- Both disks get the same spool file. -/
theorem putSpool_sim (spool : Nat) (bytes : Bytes) : Sim (coupling c) Eq
    (putSpool spool bytes : Proc E (Fs σ) Unit) (putSpool spool bytes) :=
  aside_sim (fun _ => rfl) fun _ _ => rfl

/-- Both maps get the same entry. -/
theorem setPending_sim (path : Str) (p : Pending) : Sim (coupling c) Eq
    (setPending path p : Proc E (Fs σ) Unit) (setPending path p) :=
  aside_sim (fun _ => rfl) fun _ _ => rfl

/-- The entry of a path comes out of both maps. -/
theorem takePending_sim (path : Str) : Sim (coupling c) Eq
    (takePending path : Proc E (Fs σ) (Option Pending)) (takePending path) :=
  aside_sim (fun _ => rfl) fun _ _ => rfl

/-- An entry is dropped, with its spool file unless a person is to find it. -/
theorem dropPending_sim (p : Pending) : Sim (coupling c) Eq
    (dropPending p : Proc E (Fs σ) Unit) (dropPending p) := by
  cases hkeep : p.keepSpool with
  | true =>
      apply aside_sim
      · intro fs
        simp only [dropPending, Proc.modify, hkeep, if_true]
      · intro fs l
        simp only [dropPending, Proc.modify, hkeep, if_true]
  | false =>
      apply aside_sim
      · intro fs
        simp only [dropPending, Proc.modify, hkeep, if_false, Bool.false_eq_true]
      · intro fs l
        simp only [dropPending, Proc.modify, hkeep, if_false, Bool.false_eq_true]
        rfl

/-- An entry goes into both maps, and the one before it is dropped from both. -/
theorem insertPending_sim (path : Str) (p : Pending) : Sim (coupling c) Eq
    (insertPending path p : Proc E (Fs σ) Unit) (insertPending path p) := by
  apply (takePending_sim path).step
  intro old
  refine .step (aside_sim ?_ ?_) fun _ => ?_
  · intro fs
    rfl
  · intro fs l
    rfl
  cases old with
  | some old => exact dropPending_sim old
  | none => exact .pure rfl

/-- Both hosts make the spool file, or both refuse. -/
theorem makeSpool_sim :
    Sim (coupling c) Eq (makeSpool : Proc Int (Fs σ) Nat) makeSpool := by
  apply nextCount_sim.step
  intro n
  apply look
  intro fs l
  apply Sim.ite
  · intro _
    refine .step (aside_sim ?_ ?_) fun _ => ?_
    · intro fs
      rfl
    · intro fs l
      rfl
    exact .pure rfl
  · intro _
    exact .fail _

/-- The name of an object that moves aside has the next number in it. -/
theorem asideName_sim (name : Str) : Sim (coupling c) Eq
    (asideName name : Proc E (Fs σ) Str) (asideName name) := by
  apply nextCount_sim.step
  intro n
  exact .pure rfl

/-- Both hosts have the same room for a copy. -/
theorem checkRoom_sim (size : Nat) (keep : Bool) : Sim (coupling c) Eq
    (checkRoom size keep : Proc Int (Fs σ) Unit) (checkRoom size keep) := by
  apply look
  intro fs l
  apply Sim.ite
  · intro _
    rw [linked_host]
    cases fs.host.free with
    | some free =>
        apply Sim.ite
        · intro _
          exact .fail _
        · intro _
          exact .pure rfl
    | none => exact .pure rfl
  · intro _
    exact .pure rfl

/-- A step on the session. -/
theorem tryMtp_sim {x : Proc Error (Mtp σ) α} {y : Proc Error (Mtp σ') α}
    (h : Sim (Mtp.coupling c) Eq x y) : Sim (coupling c) Eq
      (tryMtp x : Proc E (Fs σ) (Except Error α)) (tryMtp y) := by
  apply Sim.attempt
  apply h.onPart
  · intro fs
    exact Iff.rfl
  · intro m fs
    rfl
  · intro fs fs' hfs
    refine ⟨hfs.1, ?_⟩
    conv => lhs; rw [hfs.2]
    rfl
  · intro fs fs' m m' hfs hm
    refine ⟨hm.1, ?_⟩
    conv => lhs; rw [hfs.2, hm.2]
    rfl

variable [Link σ] [Link σ'] (h : Mtp.Served c)
include h

/-- A walk looks at the tree and reads one folder, again and again.  The induction is on the
rounds that are left. -/
theorem resolveIn_sim (path : Str) (rounds : Nat) : Sim (coupling c) Eq
    (resolveIn path rounds : Proc E (Fs σ) (Option UInt32)) (resolveIn path rounds) := by
  induction rounds with
  | zero => exact .pure rfl
  | succ rounds ih =>
      apply look
      intro fs l
      rw [linked_tree]
      cases fs.tree.lookup path with
      | found handle => exact .pure rfl
      | notFound => exact .pure rfl
      | needListing parent =>
          apply (tryMtp_sim (Mtp.list_sim h parent)).step
          intro answer
          cases answer with
          | ok entries =>
              apply (setChildren_sim _ _).step
              intro _
              exact ih
          | error e => exact .pure rfl

/-- A walk has `maxWalk` rounds. -/
theorem resolve_sim (path : Str) : Sim (coupling c) Eq
    (resolve path : Proc E (Fs σ) (Option UInt32)) (resolve path) :=
  resolveIn_sim h path maxWalk

/-- A walk that has to find its object. -/
theorem resolved_sim (path : Str) : Sim (coupling c) Eq
    (resolved path : Proc Int (Fs σ) UInt32) (resolved path) := by
  apply (resolve_sim h path).step
  intro answer
  cases answer with
  | some handle => exact .pure rfl
  | none => exact .fail _

/-! ### Questions -/

/-- The attributes come from an entry, or from the tree after a walk. -/
theorem opGetattr_sim (path : Str) : Sim (coupling c) Eq
    (opGetattr path : Proc Int (Fs σ) Stat) (opGetattr path) := by
  apply look
  intro fs l
  dsimp only [linked]
  cases fs.pending path with
  | some p => exact .pure rfl
  | none =>
      apply (resolved_sim h path).step
      intro handle
      apply look
      intro fs l
      apply Sim.ite
      · intro _
        exact .pure rfl
      · intro _
        dsimp only [linked]
        cases fs.tree.get handle with
        | some e =>
            apply Sim.ite
            · intro _
              exact .pure rfl
            · intro _
              exact .pure rfl
        | none => exact .fail _

/-- A folder that the tree does not hold is read, and then its names are those of the tree. -/
theorem opReaddir_sim (path : Str) : Sim (coupling c) Eq
    (opReaddir path : Proc Int (Fs σ) (List Str)) (opReaddir path) := by
  apply (resolved_sim h path).step
  intro handle
  apply look
  intro fs l
  dsimp only [linked]
  apply Sim.ite
  · intro _
    apply look
    intro fs l
    rw [linked_tree]
    cases fs.tree.children handle with
    | some entries => exact .pure rfl
    | none => exact .fail _
  · intro _
    apply (tryMtp_sim (Mtp.list_sim h handle)).step
    intro answer
    cases answer with
    | ok entries =>
        apply (setChildren_sim _ _).step
        intro _
        apply look
        intro fs l
        rw [linked_tree]
        cases fs.tree.children handle with
        | some entries => exact .pure rfl
        | none => exact .fail _
    | error e =>
        refine Sim.step (Sim.fail _) fun _ => ?_
        apply look
        intro fs l
        rw [linked_tree]
        cases fs.tree.children handle with
        | some entries => exact .pure rfl
        | none => exact .fail _

/-- The blocks of the storage. -/
theorem opStatfs_sim : Sim (coupling c) Eq
    (opStatfs : Proc Int (Fs σ) (Nat × Nat)) opStatfs := by
  apply (tryMtp_sim (Mtp.storageInfo_sim h)).step
  intro answer
  cases answer with
  | ok room => exact .pure rfl
  | error e => exact .fail _

/-! ### Files a program writes -/

/-- A copy goes chunk by chunk, and stops on both sides at the same chunk.  The induction is on
the rounds that are left. -/
theorem copyFrom_sim (handle : UInt32) (size spool rounds pos : Nat) : Sim (coupling c) Eq
    (copyFrom handle size spool rounds pos : Proc Int (Fs σ) Nat)
    (copyFrom handle size spool rounds pos) := by
  induction rounds generalizing pos with
  | zero => exact .pure rfl
  | succ rounds ih =>
      apply Sim.ite
      · intro _
        apply (tryMtp_sim (Mtp.readAt_sim h _ _ _ _)).step
        intro answer
        cases answer with
        | error e => exact .fail _
        | ok data =>
            apply Sim.ite
            · intro _
              exact .pure rfl
            · intro _
              apply look
              intro fs l
              rw [linked_host]
              cases fs.host.fills pos with
              | some count =>
                  apply (putSpool_sim _ _).step
                  intro _
                  exact .fail _
              | none =>
                  apply (putSpool_sim _ _).step
                  intro _
                  exact ih _
      · intro _
        exact .pure rfl

/-- An adoption: the room, the spool file, the copy of the bytes when they are kept, and the
entry. -/
theorem adoptForWrite_sim (path : Str) (handle : UInt32) (entry : Entry) (keep : Bool) :
    Sim (coupling c) Eq (adoptForWrite path handle entry keep : Proc Int (Fs σ) Unit)
      (adoptForWrite path handle entry keep) := by
  apply (checkRoom_sim _ _).step
  intro _
  apply makeSpool_sim.step
  intro spool
  have hlast : ∀ size, Sim (coupling c) Eq (insertPending path {
      parent := entry.parent
      name := entry.name
      spool := spool
      size := size
      sent := none
      replaces := some handle
      broken := none
      keepSpool := false } : Proc Int (Fs σ) Unit) (insertPending path _) :=
    fun size => insertPending_sim _ _
  apply Sim.ite
  · intro _
    apply (copyFrom_sim h _ _ _ _ _).step
    intro size
    exact hlast size
  · intro _
    apply (Sim.pure rfl).step
    intro size
    exact hlast size

/-- An open for writing adopts its object, and one for reading only walks. -/
theorem opOpen_sim (path : Str) (flags : Nat) : Sim (coupling c) Eq
    (opOpen path flags : Proc Int (Fs σ) Nat) (opOpen path flags) := by
  apply (resolved_sim h path).step
  intro handle
  apply look
  intro fs l
  dsimp only [linked]
  cases fs.tree.get handle with
  | none => exact .fail _
  | some entry =>
      apply Sim.ite
      · intro _
        exact .fail _
      · intro _
        apply Sim.ite
        · intro _
          apply (adoptForWrite_sim h _ _ _ _).step
          intro _
          exact .pure rfl
        · intro _
          exact .pure rfl

/-- A new file is an entry on the host. -/
theorem opCreate_sim (path : Str) : Sim (coupling c) Eq
    (opCreate path : Proc Int (Fs σ) Nat) (opCreate path) := by
  unfold opCreate
  dsimp only
  apply Sim.ite
  · intro _
    exact .fail _
  · intro _
    apply (resolved_sim h _).step
    intro parent
    apply makeSpool_sim.step
    intro spool
    refine Sim.step (insertPending_sim _ _) fun _ => ?_
    exact .pure rfl

omit [Link σ] [Link σ'] h in
/-- A write goes to the spool file, and the device hears nothing of it. -/
theorem opWrite_sim (path : Str) (bytes : Bytes) (offset : Nat) : Sim (coupling c) Eq
    (opWrite path bytes offset : Proc Int (Fs σ) Nat) (opWrite path bytes offset) := by
  apply look
  intro fs l
  rw [linked_pending]
  cases fs.pending path with
  | none => exact .fail _
  | some p =>
      show Sim (coupling c) Eq (_ >>= fun _ => _) (_ >>= fun _ => _)
      rw [linked_host, linked_spoolBytes]
      apply (putSpool_sim _ _).step
      intro _
      cases (writeAt offset bytes fs.host.writes 0 (fs.spoolBytes p.spool)).1 with
      | error rc =>
          refine Sim.step (setPending_sim _ _) fun _ => ?_
          exact .fail _
      | ok done =>
          apply Sim.ite
          · intro _
            refine Sim.step (setPending_sim _ _) fun _ => ?_
            exact .fail _
          · intro _
            refine Sim.step (setPending_sim _ _) fun _ => ?_
            exact .pure rfl

/-! ### The send -/

/-- The old object moves aside or is removed, as the room on the device asks for. -/
theorem makeRoom_sim (p : Pending) : Sim (coupling c) Eq
    (makeRoom p : Proc Int (Fs σ) (Pending × Bool)) (makeRoom p) := by
  unfold makeRoom
  cases p.replaces with
  | none => exact .pure rfl
  | some old =>
      apply look
      intro fs l
      apply (tryMtp_sim (Mtp.storageInfo_sim h)).step
      intro answer
      dsimp only [linked]
      apply Sim.ite
      · intro _
        apply (asideName_sim _).step
        intro name
        apply (tryMtp_sim (Mtp.renameObject_sim h _ _)).step
        intro renamed
        cases renamed with
        | ok u => exact .pure rfl
        | error e => exact .fail _
      · intro _
        apply Sim.ite
        · intro _
          apply (tryMtp_sim (Mtp.deleteObject_sim h _)).step
          intro deleted
          cases deleted with
          | ok u => exact .pure rfl
          | error e => exact .fail _
        · intro _
          exact .fail _

/-- An entry that a write broke, or that the host cannot read, is refused on both sides. -/
theorem readyToSend_sim (p : Pending) : Sim (coupling c) Eq
    (readyToSend p : Proc Int (Fs σ) (Pending × Bool)) (readyToSend p) := by
  apply look
  intro fs l
  cases p.broken with
  | some rc => exact .fail _
  | none =>
      apply Sim.ite
      · intro _
        exact makeRoom_sim h p
      · intro _
        exact .fail _

/-- The stream, and what becomes of the old object after it. -/
theorem deliver_sim (p : Pending) (oldCopyExists : Bool) : Sim (coupling c) Eq
    (deliver p oldCopyExists : Proc E (Fs σ) (Int × Pending)) (deliver p oldCopyExists) := by
  apply look
  intro fs l
  apply (tryMtp_sim (Mtp.sendObjectStream_sim h _ _ _ _)).step
  intro sent
  cases sent with
  | ok handle =>
      dsimp only
      cases p.replaces with
      | some old =>
          apply (tryMtp_sim (Mtp.deleteObject_sim h _)).step
          intro _
          apply (forgetListing_sim _).step
          intro _
          exact .pure rfl
      | none =>
          apply (forgetListing_sim _).step
          intro _
          exact .pure rfl
  | error e =>
      dsimp only
      cases p.replaces with
      | some old =>
          apply (tryMtp_sim (Mtp.renameObject_sim h _ _)).step
          intro _
          apply (forgetListing_sim _).step
          intro _
          exact .pure rfl
      | none =>
          apply (forgetListing_sim _).step
          intro _
          exact .pure rfl

/-- A send, up to its answer.  Where it is refused the entry stays as it was. -/
theorem sendPending_sim (p : Pending) : Sim (coupling c) Eq
    (sendPending p : Proc E (Fs σ) (Int × Pending)) (sendPending p) := by
  apply (readyToSend_sim h p).attempt.step
  intro ready
  cases ready with
  | error rc => exact .pure rfl
  | ok ready => exact deliver_sim h _ _

/-- A flush sends an entry once, and later ones repeat its answer. -/
theorem opFlush_sim (path : Str) (fi : Option Nat) : Sim (coupling c) Eq
    (opFlush path fi : Proc Int (Fs σ) Int) (opFlush path fi) := by
  apply Sim.ite
  · intro _
    apply (takePending_sim path).step
    intro taken
    cases taken with
    | none => exact .pure rfl
    | some p =>
        dsimp only
        cases p.sent with
        | some earlier =>
            refine Sim.step (.pure rfl) fun kept => ?_
            refine Sim.step (insertPending_sim _ _) fun _ => ?_
            exact .pure rfl
        | none =>
            apply (sendPending_sim h p).step
            intro sent
            refine Sim.step (.pure rfl) fun kept => ?_
            refine Sim.step (insertPending_sim _ _) fun _ => ?_
            exact .pure rfl
  · intro _
    exact .pure rfl

/-- A release sends an entry that no flush sent, and drops it. -/
theorem opRelease_sim (path : Str) (fi : Option Nat) : Sim (coupling c) Eq
    (opRelease path fi : Proc Int (Fs σ) Int) (opRelease path fi) := by
  apply Sim.ite
  · intro _
    apply (takePending_sim path).step
    intro taken
    cases taken with
    | none => exact .pure rfl
    | some p =>
        dsimp only
        cases p.sent with
        | some earlier =>
            refine Sim.step (.pure rfl) fun kept => ?_
            refine Sim.step (dropPending_sim _) fun _ => ?_
            exact .pure rfl
        | none =>
            apply (sendPending_sim h p).step
            intro sent
            refine Sim.step (.pure rfl) fun kept => ?_
            refine Sim.step (dropPending_sim _) fun _ => ?_
            exact .pure rfl
  · intro _
    exact .pure rfl

omit [Link σ] [Link σ'] h in
/-- The spool file of an entry gets another size. -/
theorem resizePending_sim (path : Str) (p : Pending) (size : Nat) : Sim (coupling c) Eq
    (resizePending path p size : Proc Int (Fs σ) Pending) (resizePending path p size) := by
  apply look
  intro fs l
  apply Sim.ite
  · intro _
    apply (putSpool_sim _ _).step
    intro _
    apply (setPending_sim _ _).step
    intro _
    exact .pure rfl
  · intro _
    exact .fail _

/-- A truncation of an entry stays on the host; without one the object is adopted, resized and
sent. -/
theorem opTruncate_sim (path : Str) (size : Nat) : Sim (coupling c) Eq
    (opTruncate path size : Proc Int (Fs σ) Int) (opTruncate path size) := by
  apply look
  intro fs l
  dsimp only [linked]
  cases fs.pending path with
  | some p =>
      apply (resizePending_sim path p size).step
      intro _
      exact .pure rfl
  | none =>
      apply (resolved_sim h path).step
      intro handle
      apply look
      intro fs l
      dsimp only [linked]
      cases fs.tree.get handle with
      | none => exact .fail _
      | some entry =>
          apply Sim.ite
          · intro _
            exact .fail _
          · intro _
            apply (adoptForWrite_sim h _ _ _ _).step
            intro _
            apply look
            intro fs l
            dsimp only [linked]
            cases fs.pending path with
            | none => exact .fail _
            | some p =>
                apply (resizePending_sim path p size).step
                intro _
                apply (takePending_sim path).step
                intro taken
                cases taken with
                | none => exact .fail _
                | some taken =>
                    apply (sendPending_sim h taken).step
                    intro sent
                    apply (dropPending_sim _).step
                    intro _
                    exact .pure rfl

/-! ### Changes of the tree -/

/-- What has the new name moves aside. -/
theorem clearTarget_sim (target newName : Str) (handle newParent : UInt32) : Sim (coupling c) Eq
    (clearTarget target newName handle newParent : Proc Int (Fs σ) (Option (Option UInt32)))
    (clearTarget target newName handle newParent) := by
  apply (resolve_sim h target).step
  intro found
  cases found with
  | none => exact .pure rfl
  | some taken =>
      apply Sim.ite
      · intro _
        exact .pure rfl
      · intro _
        apply Sim.ite
        · intro _
          exact .fail _
        · intro _
          apply (asideName_sim _).step
          intro aside
          apply (tryMtp_sim (Mtp.renameObject_sim h _ _)).step
          intro renamed
          cases renamed with
          | error e => exact .fail _
          | ok u =>
              apply (forgetListing_sim _).step
              intro _
              exact .pure rfl

/-- The object goes to another folder, when the folders differ. -/
theorem moveAcross_sim (handle oldParent newParent : UInt32) : Sim (coupling c) Eq
    (moveAcross handle oldParent newParent : Proc Int (Fs σ) Unit)
    (moveAcross handle oldParent newParent) := by
  apply look
  intro fs l
  apply Sim.ite
  · intro _
    apply Sim.ite
    · intro _
      apply (tryMtp_sim (Mtp.moveObject_sim h _ _)).step
      intro moved
      cases moved with
      | ok u => exact .pure rfl
      | error e => exact .fail _
    · intro _
      exact .fail _
  · intro _
    exact .pure rfl

/-- The object gets its new name, or what moved aside gets its own back. -/
theorem renameInPlace_sim (handle newParent : UInt32) (newName : Str) (aside : Option UInt32) :
    Sim (coupling c) Eq
      (renameInPlace handle newParent newName aside : Proc Int (Fs σ) Unit)
      (renameInPlace handle newParent newName aside) := by
  apply look
  intro fs l
  apply Sim.ite
  · intro _
    apply Sim.ite
    · intro _
      apply (tryMtp_sim (Mtp.renameObject_sim h _ _)).step
      intro renamed
      cases renamed with
      | ok u => exact .pure rfl
      | error e =>
          cases aside with
          | some old =>
              apply (tryMtp_sim (Mtp.renameObject_sim h _ _)).step
              intro _
              apply (forgetListing_sim _).step
              intro _
              exact .fail _
          | none =>
              apply (forgetListing_sim _).step
              intro _
              exact .fail _
    · intro _
      exact .fail _
  · intro _
    exact .pure rfl

/-- What moved aside is removed. -/
theorem dropAside_sim (aside : Option UInt32) : Sim (coupling c) Eq
    (dropAside aside : Proc Int (Fs σ) Unit) (dropAside aside) := by
  cases aside with
  | some old =>
      apply (tryMtp_sim (Mtp.deleteObject_sim h _)).step
      intro _
      exact .pure rfl
  | none => exact .pure rfl

/-- A rename: four walks, and then three changes of the device. -/
theorem opRename_sim (source target : Str) : Sim (coupling c) Eq
    (opRename source target : Proc Int (Fs σ) Int) (opRename source target) := by
  apply (resolved_sim h source).step
  intro handle
  apply Sim.ite
  · intro _
    exact .fail _
  · intro _
    apply Sim.ite
    · intro _
      exact .fail _
    · intro _
      apply (resolved_sim h _).step
      intro oldParent
      apply (resolved_sim h _).step
      intro newParent
      apply (clearTarget_sim h _ _ _ _).step
      intro cleared
      cases cleared with
      | none => exact .pure rfl
      | some aside =>
          apply (moveAcross_sim h _ _ _).step
          intro _
          apply (renameInPlace_sim h _ _ _ _).step
          intro _
          apply (dropAside_sim h aside).step
          intro _
          apply (forgetListing_sim _).step
          intro _
          apply (forgetListing_sim _).step
          intro _
          exact .pure rfl

/-- A removal of an object of the kind that the caller asked for. -/
theorem removeObject_sim (path : Str) (wantDir : Bool) : Sim (coupling c) Eq
    (removeObject path wantDir : Proc Int (Fs σ) Int) (removeObject path wantDir) := by
  apply (resolved_sim h path).step
  intro handle
  apply Sim.ite
  · intro _
    exact .fail _
  · intro _
    apply look
    intro fs l
    dsimp only [linked]
    cases fs.tree.get handle with
    | none => exact .fail _
    | some e =>
        apply Sim.ite
        · intro _
          exact .fail _
        · intro _
          apply (tryMtp_sim (Mtp.deleteObject_sim h _)).step
          intro deleted
          cases deleted with
          | ok u =>
              apply (forgetListing_sim _).step
              intro _
              exact .pure rfl
          | error e => exact .fail _

/-- A new folder is announced, and the listing of its parent forgotten. -/
theorem opMkdir_sim (path : Str) : Sim (coupling c) Eq
    (opMkdir path : Proc Int (Fs σ) Int) (opMkdir path) := by
  unfold opMkdir
  dsimp only
  apply Sim.ite
  · intro _
    exact .fail _
  · intro _
    apply (resolved_sim h _).step
    intro parent
    apply (tryMtp_sim (Mtp.sendObject_sim h _ _ _ _)).step
    intro made
    cases made with
    | ok handle =>
        apply (forgetListing_sim _).step
        intro _
        exact .pure rfl
    | error e => exact .fail _

/-- A read of a spool file, or of the object on the device. -/
theorem opRead_sim (path : Str) (size offset : Nat) (fi : Option Nat) : Sim (coupling c) Eq
    (opRead path size offset fi : Proc Int (Fs σ) Bytes) (opRead path size offset fi) := by
  apply look
  intro fs l
  dsimp only [linked]
  cases fs.pending path with
  | some p =>
      apply Sim.ite
      · intro _
        exact .pure rfl
      · intro _
        cases fs.host.readsAt with
        | some count => exact .pure rfl
        | none => exact .fail _
  | none =>
      dsimp only
      cases fi with
      | none =>
          apply (resolved_sim h path).step
          intro handle
          apply look
          intro fs l
          rw [linked_tree]
          cases fs.tree.get handle with
          | none => exact .fail _
          | some e =>
              apply Sim.ite
              · intro _
                exact .pure rfl
              · intro _
                apply (tryMtp_sim (Mtp.readAt_sim h _ _ _ _)).step
                intro answer
                cases answer with
                | ok data => exact .pure rfl
                | error e => exact .fail _
      | some fh =>
          apply Sim.ite
          · intro _
            refine Sim.step (.pure rfl) fun handle => ?_
            apply look
            intro fs l
            rw [linked_tree]
            cases fs.tree.get handle with
            | none => exact .fail _
            | some e =>
                apply Sim.ite
                · intro _
                  exact .pure rfl
                · intro _
                  apply (tryMtp_sim (Mtp.readAt_sim h _ _ _ _)).step
                  intro answer
                  cases answer with
                  | ok data => exact .pure rfl
                  | error e => exact .fail _
          · intro _
            apply (resolved_sim h path).step
            intro handle
            apply look
            intro fs l
            rw [linked_tree]
            cases fs.tree.get handle with
            | none => exact .fail _
            | some e =>
                apply Sim.ite
                · intro _
                  exact .pure rfl
                · intro _
                  apply (tryMtp_sim (Mtp.readAt_sim h _ _ _ _)).step
                  intro answer
                  cases answer with
                  | ok data => exact .pure rfl
                  | error e => exact .fail _

end Fs

/-! ## Runs -/

/-- What a program gets for a call. -/
inductive Reply where
  | stat (stat : Stat)
  | names (names : List Str)
  | blocks (total free : Nat)
  | bytes (bytes : Bytes)
  | number (n : Int)
deriving DecidableEq, Repr

namespace Fs

/-- A call, with all it gives back. -/
def Call.reply [Link σ] : Call → Proc Int (Fs σ) Reply
  | .getattr path => do let stat ← opGetattr path; pure (.stat stat)
  | .readdir path => do let names ← opReaddir path; pure (.names names)
  | .statfs => do let blocks ← opStatfs; pure (.blocks blocks.1 blocks.2)
  | .opens path flags => do let fh ← opOpen path flags; pure (.number fh)
  | .create path => do let fh ← opCreate path; pure (.number fh)
  | .read path size offset fi => do let bytes ← opRead path size offset fi; pure (.bytes bytes)
  | .write path bytes offset => do let count ← opWrite path bytes offset; pure (.number count)
  | .truncate path size => do let rc ← opTruncate path size; pure (.number rc)
  | .flush path fi => do let rc ← opFlush path fi; pure (.number rc)
  | .release path fi => do let rc ← opRelease path fi; pure (.number rc)
  | .rename source target => do let rc ← opRename source target; pure (.number rc)
  | .unlink path => do let rc ← opUnlink path; pure (.number rc)
  | .rmdir path => do let rc ← opRmdir path; pure (.number rc)
  | .mkdir path => do let rc ← opMkdir path; pure (.number rc)

/-- What the programs get in a run of calls. -/
def replies [Link σ] : List (Host × Call) → Proc E (Fs σ) (List (Except Int Reply))
  | [] => pure []
  | e :: rest => do
      Proc.modify fun fs => { fs with host := e.1 }
      let reply ← (Call.reply e.2).attempt
      let more ← replies rest
      pure (reply :: more)

/-- A call leads to one state, however much of its answer is kept. -/
theorem reply_state [Link σ] (call : Call) (fs : Fs σ) :
    (call.reply fs).2 = (call.number fs).2 := by
  cases call with
  | getattr path => exact (bind_pure_state _ _ fs).trans (bind_pure_state _ _ fs).symm
  | readdir path => exact (bind_pure_state _ _ fs).trans (bind_pure_state _ _ fs).symm
  | statfs => exact (bind_pure_state _ _ fs).trans (bind_pure_state _ _ fs).symm
  | opens path flags => exact (bind_pure_state _ _ fs).trans (bind_pure_state _ _ fs).symm
  | create path => exact (bind_pure_state _ _ fs).trans (bind_pure_state _ _ fs).symm
  | read path size offset fi => exact (bind_pure_state _ _ fs).trans (bind_pure_state _ _ fs).symm
  | write path bytes offset => exact (bind_pure_state _ _ fs).trans (bind_pure_state _ _ fs).symm
  | truncate path size => exact bind_pure_state _ _ fs
  | flush path fi => exact bind_pure_state _ _ fs
  | release path fi => exact bind_pure_state _ _ fs
  | rename source target => exact bind_pure_state _ _ fs
  | unlink path => exact bind_pure_state _ _ fs
  | rmdir path => exact bind_pure_state _ _ fs
  | mkdir path => exact bind_pure_state _ _ fs

/-- The replies of a run come with its states. -/
theorem replies_state [Link σ] (calls : List (Host × Call)) (fs : Fs σ) :
    (replies calls fs : Except E _ × Fs σ).2 = fs.run calls := by
  induction calls generalizing fs with
  | nil => rfl
  | cons e rest ih =>
      have hstep : (e.2.reply { fs with host := e.1 }).2 = fs.step e := reply_state e.2 _
      show ((replies rest >>= fun more => pure (_ :: more) : Proc E (Fs σ) _)
        (e.2.reply { fs with host := e.1 }).2).2 = _
      rw [bind_pure_state, ih, hstep]
      rfl

section

variable {c : Coupling σ σ'} [Link σ] [Link σ'] (h : Mtp.Served c)
include h

/-- **A callback gives a program the same over both links.** -/
theorem reply_sim (call : Call) : Sim (coupling c) Eq
    (Call.reply call : Proc Int (Fs σ) Reply) (Call.reply call) := by
  cases call with
  | getattr path => exact (opGetattr_sim h path).step fun _ => .pure rfl
  | readdir path => exact (opReaddir_sim h path).step fun _ => .pure rfl
  | statfs => exact (opStatfs_sim h).step fun _ => .pure rfl
  | opens path flags => exact (opOpen_sim h path flags).step fun _ => .pure rfl
  | create path => exact (opCreate_sim h path).step fun _ => .pure rfl
  | read path size offset fi => exact (opRead_sim h path size offset fi).step fun _ => .pure rfl
  | write path bytes offset => exact (opWrite_sim path bytes offset).step fun _ => .pure rfl
  | truncate path size => exact (opTruncate_sim h path size).step fun _ => .pure rfl
  | flush path fi => exact (opFlush_sim h path fi).step fun _ => .pure rfl
  | release path fi => exact (opRelease_sim h path fi).step fun _ => .pure rfl
  | rename source target => exact (opRename_sim h source target).step fun _ => .pure rfl
  | unlink path => exact (removeObject_sim h path false).step fun _ => .pure rfl
  | rmdir path => exact (removeObject_sim h path true).step fun _ => .pure rfl
  | mkdir path => exact (opMkdir_sim h path).step fun _ => .pure rfl

/-- **One run over two links.**  When the lower link does what the upper one does, every run of
calls gives every program the same replies. -/
theorem replies_sim (calls : List (Host × Call)) : Sim (coupling c) Eq
    (replies calls : Proc E (Fs σ) (List (Except Int Reply))) (replies calls) := by
  induction calls with
  | nil => exact .pure rfl
  | cons e rest ih =>
      refine Sim.step (aside_sim ?_ ?_) fun _ => ?_
      · intro fs
        rfl
      · intro fs l
        rfl
      apply (reply_sim h e.2).attempt.step
      intro reply
      apply ih.step
      intro more
      exact .pure rfl

end

end Fs

end Bsdroid
