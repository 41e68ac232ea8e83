import Bsdroid.Mtpfs.Announcing
import Bsdroid.Mtpfs.RenameWorks
import Bsdroid.Mtpfs.SpoolRuns

/-!
# A send that fails

A send that replaces a file moves the old object aside, announces the new one and sends its
bytes.  When the bytes fail, it gives the old object its name back.  On a device that refuses
names that are taken this works exactly when the failed send left no object behind
(`Fs.send_puts_back_iff`).
-/

namespace Bsdroid

/-- A device refuses exactly the renames onto a name that another object of the folder
holds. -/
structure Policy.GuardsRenames (policy : Policy) : Prop where
  refuses : ∀ log s h name x, s.find h = some x → s.Taken x.parent h (Utf16.fit 254 name) →
    policy.fault log s (Mtp.renameRequest h name) ≠ none
  works : ∀ log s h name f, policy.fault log s (Mtp.renameRequest h name) = some f →
    f.Idle ∧ ∃ x, s.find h = some x ∧ s.Taken x.parent h (Utf16.fit 254 name)

namespace Phone

/-- The bytes of an announced object put it into the store, or complete it there. -/
theorem find_of_fill {s s' : Store} {x : Object} {bytes : Bytes} (hfill : fill s x bytes = some s') :
    ∃ y, (s.find x.key = some y ∨ s.find x.key = none ∧ y = x) ∧
      s'.find x.key = some { y with content := Content.filled y.content bytes } := by
  unfold fill at hfill
  split at hfill
  · rename_i hnone
    refine ⟨x, .inr ⟨hnone, rfl⟩, ?_⟩
    rw [Store.find_insert hfill]
    exact if_pos rfl
  · rename_i y hy
    split at hfill
    · cases hfill
    · refine ⟨y, .inl hy, ?_⟩
      rw [Store.find_write hfill, hy, Option.map_some, if_pos rfl]

/-- They leave the other objects alone. -/
theorem find_of_fill_other {s s' : Store} {x : Object} {bytes : Bytes}
    (hfill : fill s x bytes = some s') {j : UInt32} (hj : j ≠ x.key) : s'.find j = s.find j := by
  unfold fill at hfill
  split at hfill
  · rw [Store.find_insert hfill, if_neg hj]
  · split at hfill
    · cases hfill
    · rw [Store.find_write hfill]
      simp [hj]

end Phone

/-- **The rollback** gives the old object its name, unless another object holds the name. -/
theorem Policy.GuardsRenames.rename {m : Mtp Phone} (hguards : m.session.policy.GuardsRenames)
    {h : UInt32} (name : Str) {w : Object} (hw : m.session.store.find h = some w) :
    ((Mtp.renameObject h name m).2.session.store = m.session.store.rename h name ∧
        ¬ m.session.store.Taken w.parent h (Utf16.fit 254 name)) ∨
      ((Mtp.renameObject h name m).2.session.store = m.session.store ∧
        m.session.store.Taken w.parent h (Utf16.fit 254 name)) := by
  cases hfault : m.session.policy.fault m.session.log m.session.store
      (Mtp.renameRequest h name) with
  | none =>
      left
      obtain ⟨m', hrun, hturned⟩ := Mtp.renameObject_ok hfault (by rw [hw]; rfl)
      rw [hrun]
      exact ⟨hturned.store, fun htaken => hguards.refuses _ _ _ _ _ hw htaken hfault⟩
  | some f =>
      right
      obtain ⟨hidle, w', hw', htaken⟩ := hguards.works _ _ _ _ _ hfault
      cases hw.symm.trans hw'
      obtain ⟨e, m', hrun, hturned⟩ := Mtp.renameObject_faulted hfault
      rw [hrun]
      exact ⟨(hturned hidle).store, htaken⟩

namespace Fs

variable {fs fs₁ fs' : Fs Phone} {p q : Pending} {old k : UInt32} {x y : Object}
  {m₂ : Mtp Phone}

/-- The three ways to make room: the old object moves aside, or goes, or there is no room. -/
theorem makeRoom_some (hold : p.replaces = some old) :
    ∃ free oldSize : Nat, makeRoom p fs =
      (if free ≥ p.size then do
        let aside ← asideName p.name
        match ← tryMtp (Mtp.renameObject old aside) with
        | .ok () => pure (p, true)
        | .error _ => Proc.fail (-Libc.EIO)
      else if min (free + oldSize) (wordSize - 1) ≥ p.size then do
        match ← tryMtp (Mtp.deleteObject old) with
        | .ok () => pure ({ p with replaces := none }, false)
        | .error _ => Proc.fail (-Libc.EIO)
      else Proc.fail (-Libc.ENOSPC)) { fs with mtp := (Mtp.storageInfo fs.mtp).2 } := by
  rw [makeRoom, hold]
  dsimp only
  rw [Proc.bind_ok (Proc.get_run _), Proc.bind_ok (tryMtp_run _ _)]
  exact ⟨_, _, rfl⟩

/-- When there is room for two copies, the old object moves aside before the send. -/
theorem readyToSend_moved (hold : p.replaces = some old)
    (hrun : readyToSend p fs = (.ok (q, true), fs₁)) :
    q = p ∧ Mtp.SamePhone fs.mtp fs₁.mtp ∧ fs₁.host = fs.host ∧ fs₁.disk = fs.disk ∧
      (∃ log, fs.mtp.session.policy.fault log fs.store
        (Mtp.renameRequest old (asideOf p.name fs.spoolCount)) = none) ∧
      fs₁.store = fs.store.rename old (asideOf p.name fs.spoolCount) := by
  have hmake : makeRoom p fs = (.ok (q, true), fs₁) := by
    rw [readyToSend, Proc.bind_ok (Proc.get_run _)] at hrun
    cases hbroken : p.broken with
    | some rc =>
        rw [hbroken] at hrun
        cases hrun
    | none =>
        rw [hbroken] at hrun
        dsimp only at hrun
        by_cases hseeks : fs.host.seeks = true
        · rwa [if_pos hseeks] at hrun
        · rw [if_neg hseeks] at hrun
          cases hrun
  have hinfo : Mtp.SameDevice fs.mtp (Mtp.storageInfo fs.mtp).2 := Mtp.storageInfo_same fs.mtp
  obtain ⟨free, oldSize, hroom⟩ := @makeRoom_some fs p old hold
  rw [hroom] at hmake
  split at hmake
  · obtain ⟨aside, fs₂, haside, hmake⟩ := Proc.bind_eq_ok hmake
    cases haside
    rw [Proc.bind_ok (tryMtp_run _ _)] at hmake
    rcases hrename : Mtp.renameObject old (asideOf p.name fs.spoolCount)
      (Mtp.storageInfo fs.mtp).2 with ⟨e | u, m⟩
    · rw [hrename] at hmake
      cases hmake
    · rw [hrename] at hmake
      cases hmake
      have hfault := Mtp.unfaulted_of_renameObject hrename
      obtain ⟨-, hturned⟩ := Mtp.renameObject_of_ok hrename
      rw [hinfo.policy, hinfo.store] at hfault
      have hstore := hturned.store
      rw [hinfo.store] at hstore
      exact ⟨rfl, hinfo.samePhone.trans hturned.toSamePhone, rfl, rfl, ⟨_, hfault⟩, hstore⟩
  · -- The old object goes first, and no second copy is left.
    split at hmake
    · rw [Proc.bind_ok (tryMtp_run _ _)] at hmake
      rcases hdelete : Mtp.deleteObject old (Mtp.storageInfo fs.mtp).2 with ⟨e | u, m⟩
      · rw [hdelete] at hmake
        cases hmake
      · rw [hdelete] at hmake
        cases hmake
    · cases hmake

/-- A send that failed gives the old object its name back. -/
theorem deliver_error {E : Type} {oldCopyExists : Bool} {e : Error} {m : Mtp Phone}
    (hold : p.replaces = some old)
    (hstream : Mtp.sendObjectStream p.parent p.name
      (readerOf fs.host.reading (fs.spoolBytes p.spool)) p.size fs.mtp = (.error e, m)) :
    (deliver p oldCopyExists : Proc E (Fs Phone) (Int × Pending)) fs =
      (.ok (-Libc.EIO, {
        p with
        replaces := none
        keepSpool := p.keepSpool || !oldCopyExists }), { fs with
          mtp := (Mtp.renameObject old p.name m).2
          tree := fs.tree.forgetListing p.parent }) := by
  rw [deliver, Proc.bind_ok (Proc.get_run _), Proc.bind_ok (tryMtp_run _ _), hstream]
  dsimp only
  rw [hold]
  rfl

/-- The request for the bytes of an entry. -/
def bytesRequest (fs : Fs Phone) (p : Pending) : Request :=
  Mtp.sendRequest p.size (readerOf fs.host.reading (fs.spoolBytes p.spool))

/-- A send that reached `SendObject`, and whose `SendObject` failed. -/
structure Breaks (fs fs₁ : Fs Phone) (p : Pending) (y : Object) (k : UInt32)
    (m₂ : Mtp Phone) : Prop where
  replaces : p.replaces = some y.key
  object : fs.store.find y.key = some y
  folder : y.parent = p.parent
  name : y.name = p.name
  room : readyToSend p fs = (.ok (p, true), fs₁)
  small : p.size ≤ maxPayloadLen
  announced : Mtp.announceObject
    (ObjectInfo.buildForSend fs₁.mtp.storage p.parent p.name (UInt32.ofNat p.size) false)
    (Mtp.parentArg p.parent) fs₁.mtp = (.ok k, m₂)
  fails : ∀ out, (Mtp.exec (bytesRequest fs₁ p) m₂).1 = .ok out → out.isOk = false

/-- The folder holds the old object as it was, and no object that was not there before. -/
structure PutBack (fs fs' : Fs Phone) (y : Object) : Prop where
  back : fs'.store.find y.key = some y
  nothing : ∀ z ∈ fs'.store.children y.parent, ∃ z' ∈ fs.store.children y.parent, z'.key = z.key

/-- The failed send left nothing: the device does not keep what was announced, it did not
take the bytes with a lost answer, and no other object of the folder holds the name. -/
structure LeavesNothing (fs fs₁ : Fs Phone) (p : Pending) (y : Object) (m₂ : Mtp Phone) : Prop where
  forgets : fs.mtp.session.policy.keeps = false
  unsent : ∀ x s, m₂.session.announced = some x → ¬ Mtp.Landed m₂ (bytesRequest fs₁ p) x s
  alone : ¬ fs.store.Taken p.parent y.key p.name

/-- What a send whose `SendObject` failed leaves: what the device holds before the rollback,
and what it holds after. -/
theorem sendPending_breaks (h : Breaks fs fs₁ p y k m₂) :
    ∃ x m₃ q fs', Mtp.Announced fs₁.mtp m₂ k p.parent p.name false x ∧
      (sendPending p : Proc Int (Fs Phone) _) fs = (.ok (-Libc.EIO, q), fs') ∧
      Mtp.SamePhone fs₁.mtp m₃ ∧
      ((m₃.session.store = m₂.session.store ∧ ∀ s, ¬ Mtp.Landed m₂ (bytesRequest fs₁ p) x s) ∨
        ∃ s, Mtp.Landed m₂ (bytesRequest fs₁ p) x s ∧ m₃.session.store = s) ∧
      fs'.store = (Mtp.renameObject y.key p.name m₃).2.session.store := by
  have hp : p.parent ≠ 0xffffffff := by
    rw [← h.folder]
    exact Mtp.Store.Lists.ne_all (Store.lists_of_houses (Store.houses_of_mem_children
      (Store.mem_children.mpr ⟨h.object, rfl⟩)))
  obtain ⟨x, hannounced⟩ := Mtp.announceObject_of_ok hp h.announced
  have hended : Mtp.SamePhone m₂ (Mtp.exec (bytesRequest fs₁ p) m₂).2 ∧
      (((Mtp.exec (bytesRequest fs₁ p) m₂).2.session.store = m₂.session.store ∧
          ∀ s, ¬ Mtp.Landed m₂ (bytesRequest fs₁ p) x s) ∨
        ∃ s, Mtp.Landed m₂ (bytesRequest fs₁ p) x s ∧
          (Mtp.exec (bytesRequest fs₁ p) m₂).2.session.store = s) := by
    have hends : Mtp.Ends m₂ (bytesRequest fs₁ p) x (Mtp.exec (bytesRequest fs₁ p) m₂) :=
      Mtp.exec_sendRequest hannounced.waits
    have hno := h.fails
    generalize Mtp.exec (bytesRequest fs₁ p) m₂ = ended at hends hno
    cases hends with
    | arrived hok hreceived hfill hsame hstore =>
        rw [hno _ rfl] at hok
        cases hok
    | failed hfails hsame hstore hnot => exact ⟨hsame, .inl ⟨hstore, hnot⟩⟩
    | lost hlanded hsame hstore => exact ⟨hsame, .inr ⟨_, hlanded, hstore⟩⟩
  rw [sendPending, Proc.bind_run, Proc.attempt, h.room]
  dsimp only
  rcases @Mtp.sendObjectStream_announced fs₁.mtp k p.parent p.name p.size
    (readerOf fs₁.host.reading (fs₁.spoolBytes p.spool)) m₂ h.small h.announced with
    ⟨out, m₃, hexec, hok, -⟩ | ⟨e, c, -, hstream⟩
  · have hno : out.isOk = false := h.fails out (congrArg Prod.fst hexec)
    rw [hok] at hno
    cases hno
  · refine ⟨x, { (Mtp.exec (bytesRequest fs₁ p) m₂).2 with cache := c }, _, _, hannounced,
      deliver_error h.replaces hstream, ?_, hended.2, rfl⟩
    exact (hannounced.toSamePhone.trans hended.1).trans ⟨rfl, rfl, rfl, rfl, rfl, rfl⟩

/-- What the device holds when the rollback begins. -/
structure Left (s s₃ : Store) (x : Object) (shown : Prop) : Prop where
  others : ∀ j, j ≠ x.key → s₃.find j = s.find j
  gone : ¬ shown → s₃ = s
  there : shown → ∃ z, s₃.find x.key = some z ∧ z.parent = x.parent

theorem left_of_breaks {m m₃ : Mtp Phone} {r : Request}
    (hannounced : Mtp.Announced m m₂ k p.parent p.name false x)
    (hleft : (m₃.session.store = m₂.session.store ∧ ∀ s, ¬ Mtp.Landed m₂ r x s) ∨
      ∃ s, Mtp.Landed m₂ r x s ∧ m₃.session.store = s) :
    Left m.session.store m₃.session.store x
      (m.session.policy.keeps = true ∨ ∃ s, Mtp.Landed m₂ r x s) := by
  obtain ⟨s, hins, hstore⟩ := hannounced.inserts
  have hothers : ∀ j, j ≠ x.key → m₂.session.store.find j = m.session.store.find j := by
    intro j hj
    rw [hstore]
    split
    · rw [Store.find_insert hins, if_neg hj]
    · rfl
  have hself : ∀ y, m₂.session.store.find x.key = some y → y.parent = x.parent := by
    intro y hy
    rw [hstore] at hy
    split at hy
    · rw [Store.find_insert hins, if_pos rfl] at hy
      cases hy
      rfl
    · have hused := (Store.insert_eq_some hins).1
      exact absurd (Store.mem_used_of_find hy) hused
  rcases hleft with ⟨hsame, hnot⟩ | ⟨s', hlanded, hsame⟩
  · refine ⟨fun j hj => by rw [hsame, hothers j hj], fun hno => ?_, fun hshown => ?_⟩
    · rw [hsame, hstore, if_neg]
      rintro (hfolder | hkeeps)
      · cases hfolder
      · exact hno (.inl hkeeps)
    · rcases hshown with hkeeps | ⟨s', hlanded⟩
      · rw [hsame, hstore, if_pos (.inr hkeeps), Store.find_insert hins, if_pos rfl]
        exact ⟨x, rfl, rfl⟩
      · exact absurd hlanded (hnot s')
  · obtain ⟨-, bytes, -, hfill⟩ := id hlanded
    refine ⟨fun j hj => ?_, fun hno => absurd (.inr ⟨s', hlanded⟩) hno, fun _ => ?_⟩
    · rw [hsame, Phone.find_of_fill_other hfill hj, hothers j hj]
    · obtain ⟨y, hy, hfind⟩ := Phone.find_of_fill hfill
      rw [hsame]
      refine ⟨_, hfind, ?_⟩
      rcases hy with hy | ⟨-, rfl⟩
      · exact hself y hy
      · rfl

/-! ## The rollback -/

/-- The name of an object does not matter to the other names of its folder. -/
theorem taken_rename {s : Store} {q h : UInt32} {aside name : Str} :
    (s.rename h aside).Taken q h name ↔ s.Taken q h name := by
  rw [Store.taken_iff, Store.taken_iff]
  constructor
  · rintro ⟨j, z, hz, hparent, hne, hname⟩
    rw [Store.find_rename] at hz
    simp only [if_neg hne, Option.map_id'] at hz
    exact ⟨j, z, hz, hparent, hne, hname⟩
  · rintro ⟨j, z, hz, hparent, hne, hname⟩
    refine ⟨j, z, ?_, hparent, hne, hname⟩
    rw [Store.find_rename]
    simp only [if_neg hne, Option.map_id', hz]

/-- The object a failed send left is in the folder after the rollback too. -/
theorem not_putBack_of_there {m₃ : Mtp Phone} {z : Object}
    (hguards : m₃.session.policy.GuardsRenames) (hfresh : x.key ∉ fs.store.used)
    (hold : m₃.session.store.find y.key = some z) (hfolder : x.parent = y.parent)
    (hthere : ∃ w, m₃.session.store.find x.key = some w ∧ w.parent = x.parent)
    (hstore : fs'.store = (Mtp.renameObject y.key p.name m₃).2.session.store) :
    ¬ PutBack fs fs' y := by
  intro hback
  obtain ⟨w, hw, hparent⟩ := hthere
  have hshown : ∃ w', fs'.store.find x.key = some w' ∧ w'.parent = x.parent := by
    rcases hguards.rename p.name hold with ⟨hsame, -⟩ | ⟨hsame, -⟩
    · rw [hstore, hsame, Store.find_rename, hw, Option.map_some]
      by_cases hkey : x.key = y.key
      · rw [if_pos hkey]
        exact ⟨_, rfl, hparent⟩
      · rw [if_neg hkey]
        exact ⟨w, rfl, hparent⟩
    · rw [hstore, hsame]
      exact ⟨w, hw, hparent⟩
  obtain ⟨w', hw', hparent'⟩ := hshown
  have hkey := Store.find_key hw'
  have hmem : w' ∈ fs'.store.children y.parent := by
    refine Store.mem_children.mpr ⟨?_, hparent'.trans hfolder⟩
    rw [hkey]
    exact hw'
  obtain ⟨z', hz', hsame⟩ := hback.nothing w' hmem
  have hused := Store.mem_used_of_find (Store.mem_children.mp hz').1
  rw [hsame, hkey] at hused
  exact hfresh hused

/-- The rollback of a send that left nothing. -/
theorem putBack_of_renamed {aside : Str} {m₃ : Mtp Phone}
    (hguards : m₃.session.policy.GuardsRenames) (hy : fs.store.find y.key = some y)
    (hname : y.name = p.name) (hm₃ : m₃.session.store = fs.store.rename y.key aside)
    (halone : ¬ fs.store.Taken y.parent y.key p.name)
    (hstore : fs'.store = (Mtp.renameObject y.key p.name m₃).2.session.store) :
    PutBack fs fs' y := by
  have hmoved : m₃.session.store.find y.key = some { y with name := Utf16.fit 254 aside } := by
    rw [hm₃, Store.find_rename, hy, Option.map_some, if_pos rfl]
  have hfits : Utf16.fit 254 p.name = p.name := by
    rw [← hname]
    exact Utf16.fit_eq_self (fs.store.sound y (Store.mem_of_find hy)).named
  rcases hguards.rename p.name hmoved with ⟨hsame, -⟩ | ⟨-, htaken⟩
  · rw [hsame, hm₃] at hstore
    constructor
    · rw [hstore, Store.find_rename, Store.find_rename, hy]
      simp only [Option.map_some, if_true]
      rw [hfits, ← hname]
    · intro z hz
      obtain ⟨hfind, hparent⟩ := Store.mem_children.mp hz
      rw [hstore, Store.find_rename, Store.find_rename] at hfind
      obtain ⟨w, hw, hwz⟩ := Option.map_eq_some_iff.mp hfind
      obtain ⟨v, hv, hvw⟩ := Option.map_eq_some_iff.mp hw
      have hv' := Store.find_key hv
      refine ⟨v, Store.mem_children.mpr ⟨hv'.symm ▸ hv, ?_⟩, hv'⟩
      rw [← hparent, ← hwz, ← hvw]
      split <;> rfl
  · rw [hm₃, hfits] at htaken
    exact absurd (taken_rename.mp htaken) halone

/-- The rollback onto a name that another object holds. -/
theorem alone_of_putBack {aside : Str} {m₃ : Mtp Phone} {log : List Request}
    (hguards : fs.mtp.session.policy.GuardsRenames)
    (hpolicy : m₃.session.policy = fs.mtp.session.policy) (hy : fs.store.find y.key = some y)
    (hname : y.name = p.name) (hm₃ : m₃.session.store = fs.store.rename y.key aside)
    (hfault : fs.mtp.session.policy.fault log fs.store (Mtp.renameRequest y.key aside) = none)
    (hstore : fs'.store = (Mtp.renameObject y.key p.name m₃).2.session.store)
    (hback : PutBack fs fs' y) : ¬ fs.store.Taken y.parent y.key p.name := by
  intro htaken
  have hmoved : m₃.session.store.find y.key = some { y with name := Utf16.fit 254 aside } := by
    rw [hm₃, Store.find_rename, hy, Option.map_some, if_pos rfl]
  have hfits : Utf16.fit 254 p.name = p.name := by
    rw [← hname]
    exact Utf16.fit_eq_self (fs.store.sound y (Store.mem_of_find hy)).named
  rcases (hpolicy ▸ hguards).rename p.name hmoved with ⟨-, hfree⟩ | ⟨hsame, -⟩
  · rw [hm₃, hfits] at hfree
    exact hfree (taken_rename.mpr htaken)
  · -- The rollback was refused, so the old object would have to have kept its name.
    have hkept := hback.back
    rw [hstore, hsame, hmoved] at hkept
    have haside : Utf16.fit 254 aside = p.name := by
      have hsome := congrArg Node.name (Option.some.inj hkept)
      exact hsome.trans hname
    exact hguards.refuses _ _ _ _ _ hy (haside.symm ▸ htaken) hfault

/-- **A send whose `SendObject` fails puts the folder back** exactly when the failed send left
nothing. -/
theorem send_puts_back_iff (hguards : fs.mtp.session.policy.GuardsRenames)
    (h : Breaks fs fs₁ p y k m₂) :
    ∃ q fs', (sendPending p : Proc Int (Fs Phone) _) fs = (.ok (-Libc.EIO, q), fs') ∧
      (PutBack fs fs' y ↔ LeavesNothing fs fs₁ p y m₂) := by
  obtain ⟨x, m₃, q, fs', hannounced, hrun, hphone, hended, hstore⟩ := sendPending_breaks h
  obtain ⟨-, hphone₁, -, -, ⟨log, hfault⟩, hstore₁⟩ := readyToSend_moved h.replaces h.room
  refine ⟨q, fs', hrun, ?_⟩
  have hpolicy : m₃.session.policy = fs.mtp.session.policy := hphone.policy.trans hphone₁.policy
  have hleft := left_of_breaks hannounced hended
  obtain ⟨s, hins, -⟩ := hannounced.inserts
  have hfresh : x.key ∉ fs.store.used := by
    have hused := (Store.insert_eq_some hins).1
    rwa [show fs₁.mtp.session.store = _ from hstore₁] at hused
  have hne : y.key ≠ x.key := fun hkey => hfresh (hkey ▸ Store.mem_used_of_find h.object)
  rw [hphone₁.policy, show fs₁.mtp.session.store = _ from hstore₁] at hleft
  generalize asideOf p.name fs.spoolCount = aside at hfault hleft
  have hmoved : m₃.session.store.find y.key = some { y with name := Utf16.fit 254 aside } := by
    rw [hleft.others _ hne, Store.find_rename, h.object, Option.map_some, if_pos rfl]
  constructor
  · intro hback
    have hnot : ¬ (fs.mtp.session.policy.keeps = true ∨
        ∃ s, Mtp.Landed m₂ (bytesRequest fs₁ p) x s) := fun hshown =>
      not_putBack_of_there (hpolicy ▸ hguards) hfresh hmoved
        (hannounced.parent.trans h.folder.symm) (hleft.there hshown) hstore hback
    refine ⟨?_, ?_, ?_⟩
    · exact Bool.eq_false_of_not_eq_true fun hkeeps => hnot (.inl hkeeps)
    · intro x' s' hwaits hlanded
      cases hannounced.waits.symm.trans hwaits
      exact hnot (.inr ⟨s', hlanded⟩)
    · rw [← h.folder]
      exact alone_of_putBack hguards hpolicy h.object h.name (hleft.gone hnot) hfault hstore hback
  · rintro ⟨hforgets, hunsent, halone⟩
    have hnot : ¬ (fs.mtp.session.policy.keeps = true ∨
        ∃ s, Mtp.Landed m₂ (bytesRequest fs₁ p) x s) := by
      rintro (hkeeps | ⟨s', hlanded⟩)
      · rw [hforgets] at hkeeps
        cases hkeeps
      · exact hunsent x s' hannounced.waits hlanded
    exact putBack_of_renamed (hpolicy ▸ hguards) h.object h.name (hleft.gone hnot)
      (h.folder ▸ halone) hstore

/-! ## A device that takes no bytes -/

end Fs

theorem storeFull_ne_ok : Resp.storeFull ≠ Resp.ok := by decide

/-- A device that guards its names and is full when the bytes of an object come. -/
def Policy.breaking (keeps : Bool) : Policy :=
  { Policy.guarding with
    fault := fun log s r =>
      if r.code = Op.sendObject then some (.code Resp.storeFull storeFull_ne_ok)
      else Policy.guarding.fault log s r
    keeps := keeps }

theorem Policy.breaking_guards (keeps : Bool) : (Policy.breaking keeps).GuardsRenames where
  refuses log s h name x hx htaken := by
    have hcollides : Phone.collides s (Mtp.renameRequest h name) = true :=
      Phone.collides_rename.mpr ⟨x, hx, htaken⟩
    show (if Phone.collides s (Mtp.renameRequest h name) then _ else none) ≠ none
    rw [if_pos hcollides]
    exact Option.some_ne_none _
  works log s h name f hf := by
    have hf' : Policy.guarding.fault log s (Mtp.renameRequest h name) = some f := hf
    exact (Policy.guarding_refuses hf').imp_right Phone.collides_rename.mp

namespace Fs

/-- A mount of such a device, which holds one file, after a program wrote three other bytes
into it. -/
def rewritten (keeps : Bool) : Fs Phone :=
  (start (Mtp.standard (Phone.holding (Mtp.storeOfZeros 3 Mtp.three_fits)
    (Policy.breaking keeps))) Host.obliging).run
      [(Host.obliging, .opens ['/', 'a'] (Oflag.WRONLY ||| Oflag.TRUNC)),
        (Host.obliging, .write ['/', 'a'] [1, 2, 3] 0)]

/-- The entry of the file. -/
def rewrite : Pending where
  parent := root
  name := ['a']
  spool := 0
  size := 3
  sent := none
  replaces := some 1
  broken := none
  keepSpool := false

/-- The old object of the file. -/
def rewrittenFile : Object := Mtp.zeros 1 ['a'] 3

theorem policy_rewritten (keeps : Bool) :
    (rewritten keeps).mtp.session.policy = Policy.breaking keeps := by
  cases keeps
  all_goals rfl

/-- The device answers the bytes with a fault. -/
theorem exec_bytesRequest {keeps : Bool} {m : Mtp Phone}
    (hpolicy : m.session.policy = Policy.breaking keeps) :
    (Mtp.exec (bytesRequest fs p) m).1 = .ok (Phone.refuse Resp.storeFull) := by
  have hfault : m.session.policy.fault m.session.log m.session.store (bytesRequest fs p) =
      some (.code Resp.storeFull storeFull_ne_ok) := by
    rw [hpolicy]
    rfl
  rw [Mtp.exec_run, Phone.exec, hfault]
  rfl

theorem breaks_rewritten (keeps : Bool) :
    ∃ fs₁ k m₂, Breaks (rewritten keeps) fs₁ rewrite rewrittenFile k m₂ := by
  have hroom : ∃ fs₁, readyToSend rewrite (rewritten keeps) = (.ok (rewrite, true), fs₁) := by
    refine ⟨(readyToSend rewrite (rewritten keeps)).2, Prod.ext ?_ rfl⟩
    cases keeps
    all_goals decide +kernel
  obtain ⟨fs₁, hroom⟩ := hroom
  have hfs₁ : fs₁ = (readyToSend rewrite (rewritten keeps)).2 := (congrArg Prod.snd hroom).symm
  have hannounced : ∃ m₂, Mtp.announceObject
      (ObjectInfo.buildForSend fs₁.mtp.storage root ['a'] (UInt32.ofNat 3) false)
      (Mtp.parentArg root) fs₁.mtp = (.ok 2, m₂) := by
    refine ⟨_, Prod.ext ?_ rfl⟩
    rw [hfs₁]
    cases keeps
    all_goals decide +kernel
  obtain ⟨m₂, hannounced⟩ := hannounced
  refine ⟨fs₁, 2, m₂, rfl, ?_, rfl, rfl, hroom, by decide, hannounced, ?_⟩
  · cases keeps
    all_goals decide +kernel
  · obtain ⟨x, hx⟩ := Mtp.announceObject_of_ok (by decide) hannounced
    obtain ⟨-, hphone, -⟩ := readyToSend_moved rfl hroom
    have hpolicy : m₂.session.policy = Policy.breaking keeps :=
      hx.policy.trans (hphone.policy.trans (policy_rewritten keeps))
    intro out hout
    rw [exec_bytesRequest hpolicy] at hout
    cases hout
    exact Phone.refuse_isOk storeFull_ne_ok

/-- On a device that forgets what it announced, the old file is back. -/
theorem send_puts_back_forgotten : ∃ q fs', (sendPending rewrite : Proc Int (Fs Phone) _)
    (rewritten false) = (.ok (-Libc.EIO, q), fs') ∧
      PutBack (rewritten false) fs' rewrittenFile := by
  obtain ⟨fs₁, k, m₂, hbreaks⟩ := breaks_rewritten false
  have hguards : (rewritten false).mtp.session.policy.GuardsRenames :=
    policy_rewritten false ▸ Policy.breaking_guards false
  obtain ⟨q, fs', hrun, hiff⟩ := send_puts_back_iff hguards hbreaks
  refine ⟨q, fs', hrun, hiff.mpr ⟨?_, ?_, ?_⟩⟩
  · rw [policy_rewritten]
    rfl
  · rintro x s - ⟨⟨e, hlost⟩, -⟩
    obtain ⟨-, hphone, -⟩ := readyToSend_moved hbreaks.replaces hbreaks.room
    obtain ⟨y, hy⟩ := Mtp.announceObject_of_ok (by decide) hbreaks.announced
    rw [hy.policy, hphone.policy, policy_rewritten] at hlost
    cases hlost
  · decide +kernel

/-- On a device that keeps what it announced, the old file keeps the name it moved aside
under. -/
theorem send_not_put_back : (rewritten true).mtp.session.policy.GuardsRenames ∧
    (∃ fs₁ k m₂, Breaks (rewritten true) fs₁ rewrite rewrittenFile k m₂) ∧
      ∀ q fs', (sendPending rewrite : Proc Int (Fs Phone) _) (rewritten true) =
        (.ok (-Libc.EIO, q), fs') → ¬ PutBack (rewritten true) fs' rewrittenFile := by
  refine ⟨policy_rewritten true ▸ Policy.breaking_guards true, breaks_rewritten true, ?_⟩
  intro q fs' hrun hback
  have hkept := hback.back
  have hfs' := congrArg Prod.snd hrun
  dsimp only at hfs'
  rw [← hfs'] at hkept
  revert hkept
  decide +kernel

end Fs

end Bsdroid
