import Bsdroid.Mtpfs.Changing
import Bsdroid.Cellphone.Names

/-!
# What the two operations of a send do on the cellphone

`SendObjectInfo` announces an object, and `SendObject` brings its bytes.  Between the two,
and after a `SendObject` that failed, some devices show the announced object.
-/

namespace Bsdroid

namespace Mtp

variable {m m' : Mtp Phone} {k p : UInt32} {name : Str} {size : UInt32} {isFolder : Bool}

/-- **An object was announced**: the device gave it a handle that was free, and shows it if
it is a folder or if the device keeps what is announced. -/
structure Announced (m m' : Mtp Phone) (k p : UInt32) (name : Str) (isFolder : Bool)
    (x : Object) : Prop extends SamePhone m m' where
  key : x.key = k
  parent : x.parent = p
  name : x.name = Utf16.fit 254 name
  folder : x.folder = isFolder
  bytes : x.content.bytes = []
  inserts : ∃ s, m.session.store.insert x = some s ∧
    m'.session.store = if isFolder ∨ m.session.policy.keeps then s else m.session.store
  waits : m'.session.announced = if isFolder then none else some x

/-- An announcement that worked, in the folder the device reads from its argument. -/
theorem announceObject_answered
    (hrun : announceObject (ObjectInfo.buildForSend m.storage p name size isFolder)
      (parentArg p) m = (.ok k, m')) :
    ∃ x, Announced m m' k (Phone.folderOf (parentArg p)) name isFolder x := by
  obtain ⟨info, hparse, -, -, hfolder, hname⟩ :=
    ObjectInfo.parse_buildForSend m.storage p name size isFolder
  rw [announceObject, Proc.bind_ok (Proc.get_run _)] at hrun
  obtain ⟨params, m₁, hsent, hlast⟩ := Proc.bind_eq_ok hrun
  have hsize := length_buildForSend_le m.storage p name size isFolder
  generalize ObjectInfo.buildForSend m.storage p name size isFolder = payload at *
  obtain ⟨hok, hparams, hstate⟩ := sendingData_of_ok hsize hsent
  have hserve : m.session.serve Op.sendObjectInfo [m.storage, parentArg p] payload =
      m.session.sendObjectInfo payload [m.storage, parentArg p] := rfl
  rw [hserve, Phone.sendObjectInfo, hparse] at hok hparams hstate
  dsimp only at hok hparams hstate
  generalize hx : Phone.announcement (m.session.policy.alloc m.session.log m.session.store)
    (Phone.folderOf (parentArg p)) info = x at hok hparams hstate
  have hfields : x.parent = Phone.folderOf (parentArg p) ∧ x.name = Utf16.fit 254 name ∧ x.folder = isFolder ∧
      x.content.bytes = [] := by
    rw [← hx]
    refine ⟨rfl, hname, hfolder, ?_⟩
    rw [Phone.announcement]
    dsimp only
    split <;> rfl
  cases hins : m.session.store.insert x with
  | none =>
      rw [hins] at hok
      cases hok
  | some s =>
      rw [hins] at hok hparams hstate
      dsimp only at hok hparams hstate
      have hkey : x.key = k := by
        have hthird : params[2]? = some x.key := by
          rw [hparams]
          split
          · rfl
          · split <;> rfl
        rw [hthird] at hlast
        cases hlast
        rfl
      have hm : m' = m₁ := by
        cases hget : params[2]? with
        | none =>
            rw [hget] at hlast
            cases hlast
        | some h =>
            rw [hget] at hlast
            cases hlast
            rfl
      obtain ⟨hparent, hname', rfl, hbytes⟩ := hfields
      rw [hm, hstate]
      refine ⟨x, ?_, hkey, hparent, hname', rfl, hbytes, ⟨s, hins, ?_⟩, ?_⟩
      · by_cases hdir : x.folder = true
        · rw [if_pos hdir]
          exact ⟨rfl, rfl, rfl, rfl, rfl, rfl⟩
        · rw [if_neg hdir]
          split
          · exact ⟨rfl, rfl, rfl, rfl, rfl, rfl⟩
          · exact ⟨rfl, rfl, rfl, rfl, rfl, rfl⟩
      · by_cases hdir : x.folder = true
        · rw [if_pos hdir, if_pos (.inl hdir)]
          rfl
        · rw [if_neg hdir]
          by_cases hkeeps : m.session.policy.keeps = true
          · rw [if_pos hkeeps, if_pos (.inr hkeeps)]
            rfl
          · rw [if_neg hkeeps, if_neg (not_or.mpr ⟨hdir, hkeeps⟩)]
            rfl
      · by_cases hdir : x.folder = true
        · rw [if_pos hdir, if_pos hdir]
          rfl
        · rw [if_neg hdir, if_neg hdir]
          split <;> rfl

theorem announceObject_of_ok (hp : p ≠ 0xffffffff)
    (hrun : announceObject (ObjectInfo.buildForSend m.storage p name size isFolder)
      (parentArg p) m = (.ok k, m')) : ∃ x, Announced m m' k p name isFolder x := by
  obtain ⟨x, hx⟩ := announceObject_answered hrun
  rw [folderOf_parentArg hp] at hx
  exact ⟨x, hx⟩

/-! ## The bytes -/

/-- The request that brings the bytes of an object. -/
def sendRequest (size : Nat) (reader : List ReadAnswer) : Request :=
  ⟨"SendObject", Op.sendObject, [], some (size, reader)⟩

/-- The device took all bytes of the announced object, and the answer was lost. -/
def Landed (m : Mtp Phone) (r : Request) (x : Object) (s : Store) : Prop :=
  (∃ e, m.session.policy.fault m.session.log m.session.store r = some (.lost e)) ∧
    ∃ bytes, Phone.received r = .ok bytes ∧ Phone.fill m.session.store x bytes = some s

/-- How a request for the bytes of the announced object ends. -/
inductive Ends (m : Mtp Phone) (r : Request) (x : Object) :
    Except Error Outcome × Mtp Phone → Prop
  | arrived {out : Outcome} {m' : Mtp Phone} {bytes : Bytes} {s : Store} (hok : out.isOk = true)
      (hreceived : Phone.received r = .ok bytes)
      (hfill : Phone.fill m.session.store x bytes = some s) (hsame : SamePhone m m')
      (hstore : m'.session.store = s) : Ends m r x (.ok out, m')
  | failed {answer : Except Error Outcome} {m' : Mtp Phone}
      (hno : ∀ out, answer = .ok out → out.isOk = false) (hsame : SamePhone m m')
      (hstore : m'.session.store = m.session.store) (hnot : ∀ s, ¬ Landed m r x s) :
      Ends m r x (answer, m')
  | lost {e : Error} {m' : Mtp Phone} {s : Store} (hlanded : Landed m r x s)
      (hsame : SamePhone m m') (hstore : m'.session.store = s) : Ends m r x (.error e, m')

variable {x : Object} {size : Nat} {reader : List ReadAnswer}

/-- **The bytes of an object**: they arrive and the device says so, or the operation fails and
the device holds what it held, or the answer is lost. -/
theorem exec_sendRequest (hx : m.session.announced = some x) :
    Ends m (sendRequest size reader) x (exec (sendRequest size reader) m) := by
  have hserve : ∀ payload, m.session.serve Op.sendObject [] payload =
      m.session.sendObject payload := fun _ => rfl
  have hrecord : ∀ q : Phone, q.policy = m.session.policy → q.storage = m.session.storage →
      SamePhone m { m with session := q.record (sendRequest size reader) } :=
    fun q hpolicy hstorage => ⟨hstorage, hpolicy, rfl, rfl, rfl, rfl⟩
  rw [exec_run, Phone.exec]
  -- What the device does when no fault comes in between.
  cases hreceived : Phone.received (sendRequest size reader) with
  | error e =>
      have hperform : m.session.perform (sendRequest size reader) = (.error e, m.session) := by
        rw [Phone.perform, hreceived]
      have hnot : ∀ s, ¬ Landed m (sendRequest size reader) x s := by
        rintro s ⟨-, bytes, hbytes, -⟩
        cases hreceived.symm.trans hbytes
      rw [hperform]
      split
      all_goals refine .failed ?_ (hrecord _ rfl rfl) rfl hnot
      · rintro out ⟨⟩
      · rename_i fails _
        rintro out ⟨⟩
        exact Phone.refuse_isOk fails
      · rintro out ⟨⟩
      · rintro out ⟨⟩
  | ok bytes =>
      cases hfill : Phone.fill m.session.store x bytes with
      | none =>
          have hperform : m.session.perform (sendRequest size reader) =
              (.ok (Phone.refuse Resp.storeFull), m.session) := by
            rw [Phone.perform, hreceived]
            dsimp only [sendRequest]
            rw [hserve, Phone.sendObject, hx]
            dsimp only
            rw [hfill]
          have hnot : ∀ s, ¬ Landed m (sendRequest size reader) x s := by
            rintro s ⟨-, bytes', hbytes, hfill'⟩
            cases hreceived.symm.trans hbytes
            cases hfill.symm.trans hfill'
          rw [hperform]
          split
          all_goals refine .failed ?_ (hrecord _ rfl rfl) rfl hnot
          · rintro out ⟨⟩
            rfl
          · rename_i fails _
            rintro out ⟨⟩
            exact Phone.refuse_isOk fails
          · rintro out ⟨⟩
          · rintro out ⟨⟩
      | some s =>
          have hperform : m.session.perform (sendRequest size reader) =
              (.ok (Phone.accept [] []), { m.session with store := s, announced := none }) := by
            rw [Phone.perform, hreceived]
            dsimp only [sendRequest]
            rw [hserve, Phone.sendObject, hx]
            dsimp only
            rw [hfill]
          rw [hperform]
          split
          · exact .arrived rfl hreceived hfill (hrecord _ rfl rfl) rfl
          · rename_i fails hfault
            refine .failed ?_ (hrecord _ rfl rfl) rfl ?_
            · rintro out ⟨⟩
              exact Phone.refuse_isOk fails
            · rintro s' ⟨⟨e, hlost⟩, -⟩
              cases hfault.symm.trans hlost
          · rename_i hfault
            refine .failed ?_ (hrecord _ rfl rfl) rfl ?_
            · rintro out ⟨⟩
            · rintro s' ⟨⟨e, hlost⟩, -⟩
              cases hfault.symm.trans hlost
          · rename_i hfault
            exact .lost ⟨⟨_, hfault⟩, bytes, hreceived, hfill⟩ (hrecord _ rfl rfl) rfl

/-- A send after its announcement. -/
theorem sendObjectStream_announced {m₂ : Mtp Phone} (hsize : size ≤ maxPayloadLen)
    (hannounce : announceObject
      (ObjectInfo.buildForSend m.storage p name (UInt32.ofNat size) false) (parentArg p) m =
        (.ok k, m₂)) :
    (∃ out m₃, exec (sendRequest size reader) m₂ = (.ok out, m₃) ∧ out.isOk = true ∧
      sendObjectStream p name reader size m = (.ok k, { m₃ with cache := none })) ∨
    ∃ e c, (∀ out, (exec (sendRequest size reader) m₂).1 = .ok out → out.isOk = false) ∧
      sendObjectStream p name reader size m =
        (.error e, { (exec (sendRequest size reader) m₂).2 with cache := c }) := by
  rw [sendObjectStream, if_neg (Nat.not_lt_of_le hsize), Proc.bind_ok (Proc.get_run _)]
  dsimp only
  rw [Proc.bind_ok hannounce]
  show (∃ out m₃, exec (sendRequest size reader) m₂ = (.ok out, m₃) ∧ out.isOk = true ∧
      (exec (sendRequest size reader) >>= _) m₂ = _) ∨
    ∃ e c, _ ∧ (exec (sendRequest size reader) >>= _) m₂ = _
  rcases hexec : exec (sendRequest size reader) m₂ with ⟨e | out, m₃⟩
  · exact .inr ⟨e, m₃.cache, nofun, Proc.bind_error hexec⟩
  · rw [Proc.bind_ok hexec, dropCache, Proc.bind_ok (Proc.modify_run _ _), checked]
    by_cases hok : out.isOk = true
    · rw [if_pos hok]
      exact .inl ⟨out, m₃, rfl, hok, rfl⟩
    · rw [if_neg hok]
      refine .inr ⟨_, none, ?_, rfl⟩
      rintro out' ⟨⟩
      exact Bool.not_eq_true _ ▸ hok

end Mtp

end Bsdroid
