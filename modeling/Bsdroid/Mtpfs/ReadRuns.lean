import Bsdroid.Lib.Run
import Bsdroid.Mtpfs.Reading

/-!
# Reads between changes

A mount reads objects, and deletes, renames, moves and sends objects in between.
The bytes read in advance stay the bytes of their object: a change drops them or
leaves their object alone, and a new object never gets a handle that was in use.
So in every run each read gives the bytes of its object (`reads_exact`).
-/

namespace Bsdroid

namespace Mtp

/-- What a change leaves of a mount. -/
structure Onward (m m' : Mtp Phone) : Prop where
  later : Store.Later m.session.store m'.session.store
  policy : m'.session.policy = m.session.policy
  partialRead : m'.partialRead = m.partialRead
  cache : m'.cache = m.cache ∨ m'.cache = none

theorem Onward.refl (m : Mtp Phone) : Onward m m := ⟨.refl _, rfl, rfl, .inl rfl⟩

/-- The cache is the old one or empty over two steps, when it is over each of them. -/
theorem Onward.trans {a b c : Mtp Phone} (h : Onward a b) (h' : Onward b c) : Onward a c where
  later := h.later.trans h'.later
  policy := h'.policy.trans h.policy
  partialRead := h'.partialRead.trans h.partialRead
  cache := by
    rcases h'.cache with hc | hc
    · rw [hc]
      exact h.cache
    · exact .inr hc

/-- The bytes read in advance survive a change. -/
theorem CacheOk.onward {m m' : Mtp Phone} (h : m.CacheOk) (hstep : Onward m m') :
    m'.CacheOk := by
  intro c hc
  rcases hstep.cache with hsame | hnone
  · obtain ⟨hused, hdata⟩ := h c (hsame ▸ hc)
    refine ⟨hstep.later.used _ hused, ?_⟩
    intro y hy
    cases hx : m.session.store.find c.handle with
    | none =>
        rw [hstep.later.gone _ hused hx] at hy
        cases hy
    | some x =>
        obtain ⟨hwhole, hfront⟩ := hdata x hx
        rw [hstep.later.kept _ x y hx hwhole hy]
        exact ⟨hwhole, hfront⟩
  · rw [hnone] at hc
    cases hc

/-! ## The operations -/

/-- An operation of the session does not touch the cache. -/
theorem exec_onward (r : Request) :
    Proc.Steps Onward (exec r : Proc Error (Mtp Phone) Outcome) := by
  intro m
  have hserved := Phone.exec_served m.session r
  exact ⟨hserved.change.later, hserved.policy, rfl, .inl rfl⟩

theorem dropCache_onward : Proc.Steps Onward (dropCache : Proc Error (Mtp Phone) Unit) :=
  fun _ => ⟨.refl _, rfl, rfl, .inr rfl⟩

theorem checked_onward (step : String) (out : Outcome) :
    Proc.Steps Onward (checked step out : Proc Error (Mtp Phone) Outcome) := by
  unfold checked
  split
  · exact .pure Onward.refl _
  · exact .fail Onward.refl _

/-- An operation that changes the device forgets what was read in advance. -/
theorem operationThatChanges_onward (step : String) (code : UInt16) (params : List UInt32) :
    Proc.Steps Onward (operationThatChanges step code params : Proc Error (Mtp Phone) _) :=
  .bind (R := Onward) Onward.trans (exec_onward _) fun out =>
    .bind (R := Onward) Onward.trans dropCache_onward fun _ =>
      .bind (R := Onward) Onward.trans (checked_onward step out) fun _ =>
        .pure Onward.refl _

/-- So does an operation that sends a payload. -/
theorem sendingData_onward (step : String) (code : UInt16) (params : List UInt32)
    (payload : Bytes) :
    Proc.Steps Onward (sendingData step code params payload : Proc Error (Mtp Phone) _) :=
  .bind (R := Onward) Onward.trans (exec_onward _) fun out =>
    .bind (R := Onward) Onward.trans dropCache_onward fun _ =>
      .bind (R := Onward) Onward.trans (checked_onward step out) fun _ =>
        .pure Onward.refl _

theorem deleteObject_onward (h : UInt32) :
    Proc.Steps Onward (deleteObject h : Proc Error (Mtp Phone) Unit) :=
  .bind (R := Onward) Onward.trans (operationThatChanges_onward _ _ _) fun _ =>
    .pure Onward.refl _

theorem renameObject_onward (h : UInt32) (name : Str) :
    Proc.Steps Onward (renameObject h name : Proc Error (Mtp Phone) Unit) :=
  .bind (R := Onward) Onward.trans (sendingData_onward _ _ _ _) fun _ =>
    .pure Onward.refl _

theorem moveObject_onward (h newParent : UInt32) :
    Proc.Steps Onward (moveObject h newParent : Proc Error (Mtp Phone) Unit) :=
  .bind (R := Onward) Onward.trans (.get Onward.refl) fun _ =>
    .bind (R := Onward) Onward.trans (operationThatChanges_onward _ _ _) fun _ =>
      .pure Onward.refl _

/-- The announcement of an object is an operation that changes the device, with a look at its
answer. -/
theorem announceObject_onward (info : Bytes) (arg : UInt32) :
    Proc.Steps Onward (announceObject info arg : Proc Error (Mtp Phone) UInt32) := by
  refine .bind (R := Onward) Onward.trans (.get Onward.refl) fun m => ?_
  refine .bind (R := Onward) Onward.trans (sendingData_onward _ _ _ _) fun params => ?_
  split
  · exact .pure Onward.refl _
  · exact .fail Onward.refl _

/-- A new object is announced, and its bytes follow in a second operation. -/
theorem sendObject_onward (parent : UInt32) (name : Str) (data : Bytes) (isFolder : Bool) :
    Proc.Steps Onward (sendObject parent name data isFolder : Proc Error (Mtp Phone) _) := by
  unfold sendObject
  split
  · exact .fail Onward.refl _
  · refine .bind (R := Onward) Onward.trans (.get Onward.refl) fun m => ?_
    refine .bind (R := Onward) Onward.trans (announceObject_onward _ _) fun handle => ?_
    split
    · exact .pure Onward.refl _
    · exact .bind (R := Onward) Onward.trans (sendingData_onward _ _ _ _) fun _ =>
        .pure Onward.refl _

/-- A stream is announced in the same way, and the bytes come from a reader. -/
theorem sendObjectStream_onward (parent : UInt32) (name : Str) (reader : List ReadAnswer)
    (size : Nat) :
    Proc.Steps Onward
      (sendObjectStream parent name reader size : Proc Error (Mtp Phone) _) := by
  unfold sendObjectStream
  split
  · exact .fail Onward.refl _
  · refine .bind (R := Onward) Onward.trans (.get Onward.refl) fun m => ?_
    refine .bind (R := Onward) Onward.trans (announceObject_onward _ _) fun handle => ?_
    refine .bind (R := Onward) Onward.trans (exec_onward _) fun out => ?_
    refine .bind (R := Onward) Onward.trans dropCache_onward fun _ => ?_
    exact .bind (R := Onward) Onward.trans (checked_onward _ out) fun _ =>
      .pure Onward.refl _

/-! ## Runs -/

/-- One use of a mount.  A read is of an object the cellphone holds, with its
true size. -/
inductive Use where
  | read (handle : UInt32) (offset want : Nat)
  | delete (handle : UInt32)
  | rename (handle : UInt32) (name : Str)
  | move (handle newParent : UInt32)
  | send (parent : UInt32) (name : Str) (data : Bytes) (isFolder : Bool)
  | sendStream (parent : UInt32) (name : Str) (reader : List ReadAnswer) (size : Nat)

/-- The mount after one use. -/
def use (m : Mtp Phone) : Use → Mtp Phone
  | .read handle offset want =>
      match m.session.store.find handle with
      | some x => (readAt handle offset want x.size m).2
      | none => m
  | .delete handle => (deleteObject handle m).2
  | .rename handle name => (renameObject handle name m).2
  | .move handle newParent => (moveObject handle newParent m).2
  | .send parent name data isFolder => (sendObject parent name data isFolder m).2
  | .sendStream parent name reader size => (sendObjectStream parent name reader size m).2

/-- A count a read can have. -/
def Use.Counted : Use → Prop
  | .read _ _ want => want < 2 ^ 32
  | _ => True

/-- What holds between two uses of a mount on a generous device. -/
structure Ready (m : Mtp Phone) : Prop where
  generous : m.session.policy.Generous
  cache : m.CacheOk
  op : m.partialRead = Op.getPartialObject64

/-- What a read starts from is there still after a change. -/
theorem Ready.onward {m m' : Mtp Phone} (h : m.Ready) (hstep : Onward m m') : m'.Ready where
  generous := hstep.policy ▸ h.generous
  cache := h.cache.onward hstep
  op := hstep.partialRead.trans h.op

/-- One use leaves the mount ready. -/
theorem Ready.use {m : Mtp Phone} (h : m.Ready) {u : Use} (hu : u.Counted) :
    (m.use u).Ready := by
  cases u with
  | read handle offset want =>
      cases hx : m.session.store.find handle with
      | none =>
          have hsame : m.use (.read handle offset want) = m := by simp only [Mtp.use, hx]
          rw [hsame]
          exact h
      | some x =>
          have hsized := (m.session.store.sound x (Store.mem_of_find hx)).sized
          rcases hrun : readAt handle offset want x.size m with ⟨r, m'⟩
          have hexact := readAt_exact offset h.generous hx h.cache h.op hu
          rw [hrun] at hexact
          cases hexact
          obtain ⟨-, -, hsame, hcache⟩ := readAt_ok hx h.cache
            (.inl ⟨h.op, by omega⟩) hu hrun
          have huse : m.use (.read handle offset want) = m' := by
            simp only [Mtp.use, hx, hrun]
          rw [huse]
          exact ⟨hsame.policy ▸ h.generous, hcache, hsame.partialRead.trans h.op⟩
  | delete handle => exact h.onward (deleteObject_onward handle m)
  | rename handle name => exact h.onward (renameObject_onward handle name m)
  | move handle newParent => exact h.onward (moveObject_onward handle newParent m)
  | send parent name data isFolder =>
      exact h.onward (sendObject_onward parent name data isFolder m)
  | sendStream parent name reader size =>
      exact h.onward (sendObjectStream_onward parent name reader size m)

/-- **A read gives the bytes of the file.**  After any run of reads, deletes,
renames, moves and sends on a device that gives at least one byte of every range,
a read gives the range of the object, cut at its end. -/
theorem reads_exact (m : Mtp Phone) (uses : List Use) (hcold : m.cache = none)
    (hgenerous : m.session.policy.Generous) (hop : m.partialRead = Op.getPartialObject64)
    (hcounts : ∀ u ∈ uses, u.Counted) (handle : UInt32) (x : Object)
    (hx : (Run.after use m uses).session.store.find handle = some x) (offset want : Nat)
    (hwant : want < 2 ^ 32) :
    (readAt handle offset want x.size (Run.after use m uses)).1 =
      .ok ((x.content.bytes.take (min (offset + want) x.size)).drop offset) := by
  have hcache : m.CacheOk := by
    intro c hc
    rw [hcold] at hc
    cases hc
  have hstep : ∀ (m : Mtp Phone) (u : Use), m.Ready → u.Counted → (m.use u).Ready :=
    fun _ _ h hu => h.use hu
  have hready : (Run.after use m uses).Ready :=
    Run.Meets.invariant hstep ⟨hgenerous, hcache, hop⟩
      (Run.Meets.of_forall hcounts)
  exact readAt_exact _ hready.generous hx hready.cache hready.op hwant

theorem generous_obliging : Policy.obliging.Generous :=
  ⟨fun _ _ _ _ => rfl, fun _ _ => Nat.one_le_two_pow⟩

/-- The last two bytes of three, after the file got another name. -/
theorem reads_exact_renamed :
    (readAt 1 1 2 3 (Run.after use (standard (Phone.holding
        (storeOfZeros 3 (by decide)) Policy.obliging)) [.rename 1 ['b']])).1 =
      .ok (((zeros 1 ['b'] 3).content.bytes.take (min (1 + 2) 3)).drop 1) :=
  reads_exact _ _ rfl generous_obliging rfl (by simp [Use.Counted]) 1 (zeros 1 ['b'] 3)
    (by decide +kernel) 1 2 (by decide)

end Mtp

end Bsdroid
