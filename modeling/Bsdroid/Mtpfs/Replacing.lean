import Bsdroid.Mtpfs.AsideNames
import Bsdroid.Mtpfs.Contents
import Bsdroid.Mtpfs.PutBack
import Bsdroid.Mtpfs.SpoolSizes

/-!
# A replace

A send that replaces a file moves the old object aside when two copies fit, and removes it
first when they do not.  A rename onto a file moves that file aside.  At every point of
either the old bytes or the new ones are on the device, or the spool file holds the new
ones and stays (`Fs.replace_loses_nothing`), as long as the device still has the object that
the entry replaces, and the one that the rename moves.

An entry keeps the handle of the object that it replaces, and nothing tells it that the object
went.  A file that is renamed while it is open for writing, and opened again under its new
name, has two entries with one handle: the send of the first deletes the object, the send of
the second fails at once, and the drop of its entry removes the only copy of the bytes
(`Fs.second_send_loses`).
-/

namespace Bsdroid

namespace Store

/-- A whole file with this name and these bytes. -/
def Arrived (s : Store) (k : UInt32) (name : Str) (bytes : Bytes) : Prop :=
  ∃ x, s.find k = some x ∧ x.folder = false ∧ x.name = Utf16.fit 254 name ∧
    x.content.whole = true ∧ x.content.bytes = bytes

theorem Arrived.remove {s : Store} {k h : UInt32} {c : Content} {name : Str} {bytes : Bytes}
    (hk : s.Arrived k name bytes) (hh : s.HasFile h c) (hne : k ≠ h) :
    (s.remove h).Arrived k name bytes := by
  obtain ⟨x, hx, hrest⟩ := hk
  obtain ⟨y, hy, hfile, -⟩ := hh
  refine ⟨x, ?_, hrest⟩
  rw [find_remove_file hy hfile hne]
  exact hx

end Store

namespace Mtp

variable {m m' : Mtp Phone} {h old k parent : UInt32} {c : Content} {name : Str} {size : Nat}
  {reader : List ReadAnswer}

/-- From here on every fault of the device is without effect. -/
def Idles (m : Mtp Phone) : Prop := ∀ more s r f,
  m.session.policy.fault (m.session.log ++ more) s r = some f → f.Idle

theorem Idles.later (hidle : m.Idles) (hpolicy : m'.session.policy = m.session.policy)
    (hlog : Issues (fun _ => True) m m') : m'.Idles := by
  obtain ⟨new, hnew, -⟩ := hlog
  have hlog' : m'.session.log = m.session.log ++ new := hnew
  intro more s r f hfault
  rw [hpolicy, hlog', List.append_assoc] at hfault
  exact hidle _ s r f hfault

/-! ## A delete -/

theorem session_deleteObject (h : UInt32) (m : Mtp Phone) :
    (deleteObject h m).2.session = (Phone.exec (deleteRequest h) m.session).2 := by
  obtain ⟨m', hanswered, ⟨-, hrun⟩ | ⟨-, e, hrun⟩⟩ := deleteObject_ends h m
  · rw [hrun]
    exact hanswered.session
  · rw [hrun]
    exact hanswered.session

/-- A property of the store after a delete. -/
theorem within_deleteObject {P : Store → Prop} (hP : P (deleteObject h m).2.session.store) :
    Within P m (deleteObject h m).2 := by
  rw [session_deleteObject] at hP
  have hexec : Within P m (exec (deleteRequest h) m).2 := within_exec hP
  exact hexec.trans (.of_same (session_deleteObject h m) hexec.last)

/-- A delete without effect that fails leaves the object. -/
theorem deleteObject_failed (hidle : m.Idles) (hfind : (m.session.store.find h).isSome)
    {e : Error} (hrun : deleteObject h m = (.error e, m')) : m'.session.store = m.session.store := by
  cases hfault : m.session.policy.fault m.session.log m.session.store (deleteRequest h) with
  | none =>
      obtain ⟨m'', hrun', -⟩ := deleteObject_ok hfault hfind
      cases hrun.symm.trans hrun'
  | some f =>
      obtain ⟨e', m'', hrun', hturned⟩ := deleteObject_faulted hfault
      cases hrun.symm.trans hrun'
      have hnow : m.session.policy.fault (m.session.log ++ []) m.session.store (deleteRequest h) =
          some f := by
        rw [List.append_nil]
        exact hfault
      exact (hturned (hidle _ _ _ f hnow)).store

/-- A file takes the place of another: the delete of the old one leaves the new one. -/
theorem arrived_deleteObject {bytes : Bytes} (hk : m.session.store.Arrived k name bytes)
    (hold : m.session.store.HasFile old c) (hne : k ≠ old) :
    (deleteObject old m).2.session.store.Arrived k name bytes := by
  rw [session_deleteObject]
  rcases Phone.exec_delete m.session old with hsame | ⟨-, hgone⟩
  · rw [hsame]
    exact hk
  · rw [hgone]
    exact hk.remove hold hne

/-! ## The bytes of a file -/

theorem codes_of_question :
    ∀ code ∈ readsOnly, code ≠ Op.deleteObject ∧ code ≠ Op.sendObject := by
  intro code hcode
  simp only [readsOnly, List.mem_cons, List.not_mem_nil, or_false] at hcode
  rcases hcode with rfl | rfl | rfl | rfl | rfl | rfl
  all_goals decide

theorem codes_of_rename :
    Op.setObjectPropValue ≠ Op.deleteObject ∧ Op.setObjectPropValue ≠ Op.sendObject := by decide

theorem codes_of_move : Op.moveObject ≠ Op.deleteObject ∧ Op.moveObject ≠ Op.sendObject := by
  decide

theorem codes_of_info :
    Op.sendObjectInfo ≠ Op.deleteObject ∧ Op.sendObjectInfo ≠ Op.sendObject := by decide

theorem takes_hasFile (old : UInt32) (c : Content) :
    Takes (fun r => r.code ≠ Op.deleteObject ∧ r.code ≠ Op.sendObject)
      (Passes fun s => s.HasFile old c) :=
  takes_stays fun _ _ h hstays => hstays.hasFile h

/-- **A send of a file** leaves a file that was there, and when it works the device holds
the bytes it received, whole and under the name. -/
theorem sendObjectStream_ends (parent : UInt32) (name : Str) (size : Nat)
    (reader : List ReadAnswer) (m : Mtp Phone) :
    (∀ old c, m.session.store.HasFile old c → Within (fun s => s.HasFile old c) m
        (sendObjectStream parent name reader size m).2) ∧
      ∀ k, (sendObjectStream parent name reader size m).1 = .ok k → k ∉ m.session.store.used ∧
        ∃ bytes, Phone.received (sendRequest size reader) = .ok bytes ∧
          (sendObjectStream parent name reader size m).2.session.store.Arrived k name bytes := by
  by_cases hbig : size > maxPayloadLen
  · rw [sendObjectStream, if_pos hbig]
    refine ⟨fun old c hold => .of_same rfl hold, ?_⟩
    intro k hnothing
    cases hnothing
  have hannounces := fun old c => @Takes.announceObject _ _ _ _ (takes_hasFile old c)
    (ObjectInfo.buildForSend m.storage parent name (UInt32.ofNat size) false) (parentArg parent) m
    codes_of_info
  rcases hrun : announceObject
    (ObjectInfo.buildForSend m.storage parent name (UInt32.ofNat size) false) (parentArg parent) m
    with ⟨e | k, m₂⟩
  · rw [hrun] at hannounces
    have hstream : sendObjectStream parent name reader size m = (.error e, m₂) := by
      rw [sendObjectStream, if_neg hbig, Proc.bind_ok (Proc.get_run _)]
      exact Proc.bind_error hrun
    rw [hstream]
    refine ⟨fun old c hold => hannounces old c hold, ?_⟩
    intro k hnothing
    cases hnothing
  rw [hrun] at hannounces
  obtain ⟨x, hx⟩ := announceObject_answered hrun
  obtain ⟨s, hins, hstore⟩ := hx.inserts
  have hfresh : x.key ∉ m.session.store.used := (Store.insert_eq_some hins).1
  have hself : ∀ y, m₂.session.store.find x.key = some y → y = x := by
    intro y hy
    rw [hstore] at hy
    split at hy
    · rw [Store.find_insert hins, if_pos rfl] at hy
      exact (Option.some.inj hy).symm
    · exact absurd (Store.mem_used_of_find hy) hfresh
  have hends : Ends m₂ (sendRequest size reader) x (exec (sendRequest size reader) m₂) :=
    exec_sendRequest hx.waits
  have hfilled : ∀ {s : Store} {bytes : Bytes}, Phone.fill m₂.session.store x bytes = some s →
      ∀ old c, m.session.store.HasFile old c → m₂.session.store.HasFile old c → s.HasFile old c := by
    intro s bytes hfill old c hsome hthere
    obtain ⟨y, hy, -⟩ := hsome
    obtain ⟨z, hz, hrest⟩ := hthere
    refine ⟨z, ?_, hrest⟩
    rw [Phone.find_of_fill_other hfill]
    · exact hz
    · intro heq
      subst heq
      exact hfresh (Store.mem_used_of_find hy)
  have hexec : ∀ old c, m.session.store.HasFile old c →
      Within (fun s => s.HasFile old c) m (exec (sendRequest size reader) m₂).2 := by
    intro old c hold
    have h₂ := hannounces old c hold
    refine h₂.trans (within_exec ?_)
    generalize exec (sendRequest size reader) m₂ = ended at hends
    cases hends with
    | arrived hok hreceived hfill hsame hstore => exact hstore ▸ hfilled hfill old c hold h₂.last
    | failed hno hsame hstore hnot => exact hstore.symm ▸ h₂.last
    | lost hlanded hsame hstore =>
        obtain ⟨-, bytes, -, hfill⟩ := hlanded
        exact hstore ▸ hfilled hfill old c hold h₂.last
  rcases @sendObjectStream_announced m k parent name size reader m₂ (Nat.le_of_not_lt hbig) hrun with
    ⟨out, m₃, hsent, hok, hstream⟩ | ⟨e, cache, -, hstream⟩
  · rw [hstream]
    rw [hsent] at hends hexec
    refine ⟨fun old c hold => (hexec old c hold).trans (.of_same rfl (hexec old c hold).last), ?_⟩
    intro k' hnothing
    cases hnothing
    refine ⟨hx.key ▸ hfresh, ?_⟩
    cases hends with
    | @arrived _ _ bytes s _ hreceived hfill hsame hstore =>
        obtain ⟨y, hy, hfind⟩ := Phone.find_of_fill hfill
        have hyx : y = x := by
          rcases hy with hy | ⟨-, rfl⟩
          · exact hself y hy
          · rfl
        subst hyx
        refine ⟨bytes, hreceived, { y with content := Phone.Content.filled y.content bytes }, ?_,
          hx.folder, hx.name, rfl, rfl⟩
        rw [← hx.key]
        show m₃.session.store.find y.key = _
        rw [hstore]
        exact hfind
    | failed hno hsame hstore hnot =>
        rw [hno out rfl] at hok
        cases hok
  · rw [hstream]
    refine ⟨fun old c hold => (hexec old c hold).trans (.of_same rfl (hexec old c hold).last), ?_⟩
    intro k' hnothing
    cases hnothing

end Mtp

namespace Fs

variable {fs fs₁ fs' : Fs Phone} {p q : Pending} {old k : UInt32} {c : Content}

/-! ## A send that replaces a file -/

/-- The three ways to make room for a file: the old object moves aside, or the send ends here,
or the old object is gone. -/
theorem makeRoom_routes (hold : p.replaces = some old) (hidle : fs.mtp.Idles)
    (hhas : fs.store.HasFile old c) :
    (∃ fs₁, makeRoom p fs = (.ok (p, true), fs₁) ∧
      Mtp.Within (fun s => s.HasFile old c) fs.mtp fs₁.mtp) ∨
    (∃ rc fs₁, makeRoom p fs = (.error rc, fs₁) ∧
      Mtp.Within (fun s => s.HasFile old c) fs.mtp fs₁.mtp) ∨
    ∃ fs₁, makeRoom p fs = (.ok ({ p with replaces := none }, false), fs₁) := by
  have htakes := Mtp.takes_hasFile old c
  have hinfo : Mtp.Within (fun s => s.HasFile old c) fs.mtp (Mtp.storageInfo fs.mtp).2 :=
    htakes.storageInfo (fun _ _ => Mtp.codes_of_question Op.getStorageInfo (by decide))
      fs.mtp hhas
  obtain ⟨free, oldSize, hroom⟩ := @makeRoom_some fs p old hold
  rw [hroom]
  by_cases htwo : free ≥ p.size
  · rw [if_pos htwo, Proc.bind_ok asideName_run, Proc.bind_ok (tryMtp_run _ _)]
    have hrename := hinfo.trans (htakes.renameObject (fun _ _ _ => Mtp.codes_of_rename) old
      (asideOf p.name fs.spoolCount) _ hinfo.last)
    dsimp only
    rcases hrun : Mtp.renameObject old (asideOf p.name fs.spoolCount) (Mtp.storageInfo fs.mtp).2
      with ⟨e | u, m⟩
    · rw [hrun] at hrename
      exact .inr (.inl ⟨_, _, rfl, hrename⟩)
    · rw [hrun] at hrename
      exact .inl ⟨_, rfl, hrename⟩
  rw [if_neg htwo]
  by_cases hone : min (free + oldSize) (wordSize - 1) ≥ p.size
  · rw [if_pos hone, Proc.bind_ok (tryMtp_run _ _)]
    dsimp only
    rcases hrun : Mtp.deleteObject old (Mtp.storageInfo fs.mtp).2 with ⟨e | u, m⟩
    · refine .inr (.inl ⟨_, _, rfl, hinfo.trans ?_⟩)
      have hlater : (Mtp.storageInfo fs.mtp).2.Idles := hidle.later (Mtp.storageInfo_same _).policy
        ((Mtp.takes_issues fun _ => True).storageInfo (fun _ _ => trivial) fs.mtp)
      obtain ⟨y, hy, hrest⟩ := hinfo.last
      have hsame := Mtp.deleteObject_failed hlater (by rw [hy]; rfl) hrun
      have hkept : (Mtp.deleteObject old (Mtp.storageInfo fs.mtp).2).2.session.store.HasFile old c := by
        rw [hrun, hsame]
        exact hinfo.last
      have hdelete := @Mtp.within_deleteObject _ old (fun s => s.HasFile old c) hkept
      rw [hrun] at hdelete
      exact hdelete
    · exact .inr (.inr ⟨_, rfl⟩)
  · rw [if_neg hone]
    exact .inr (.inl ⟨_, _, rfl, hinfo⟩)

/-- A send that worked removes the old object. -/
theorem deliver_sent {E : Type} {oldCopyExists : Bool} {m : Mtp Phone}
    (hold : p.replaces = some old)
    (hstream : Mtp.sendObjectStream p.parent p.name
      (readerOf fs.host.reading (fs.spoolBytes p.spool)) p.size fs.mtp = (.ok k, m)) :
    (deliver p oldCopyExists : Proc E (Fs Phone) (Int × Pending)) fs =
      (.ok (0, { p with replaces := none }), { fs with
        mtp := (Mtp.deleteObject old m).2
        tree := fs.tree.forgetListing p.parent }) := by
  rw [deliver, Proc.bind_ok (Proc.get_run _), Proc.bind_ok (tryMtp_run _ _), hstream]
  dsimp only
  rw [hold]
  rfl

/-- The new file is on the device, with the bytes that the reader of the spool file gave. -/
def Delivered (fs : Fs Phone) (p : Pending) (s : Store) : Prop :=
  ∃ k bytes, Phone.received (bytesRequest fs p) = .ok bytes ∧ s.Arrived k p.name bytes

/-- A send with the old object aside: it stays until the new one is there. -/
theorem deliver_aside (hold : p.replaces = some old) (hhas : fs.store.HasFile old c) {rc : Int}
    (hrun : (deliver p true : Proc Int (Fs Phone) _) fs = (.ok (rc, q), fs')) :
    Mtp.Within (fun s => s.HasFile old c ∨ Delivered fs p s) fs.mtp fs'.mtp := by
  obtain ⟨hkeeps, harrives⟩ := Mtp.sendObjectStream_ends p.parent p.name p.size
    (readerOf fs.host.reading (fs.spoolBytes p.spool)) fs.mtp
  have hstays := hkeeps old c hhas
  obtain ⟨y, hy, -⟩ := id hhas
  rcases hstream : Mtp.sendObjectStream p.parent p.name
    (readerOf fs.host.reading (fs.spoolBytes p.spool)) p.size fs.mtp with ⟨e | k, m⟩
  · rw [hstream] at hstays
    rw [deliver_error hold hstream] at hrun
    cases hrun
    have hback := (Mtp.takes_hasFile old c).renameObject (fun _ _ _ => Mtp.codes_of_rename) old
      p.name m hstays.last
    exact (hstays.trans hback).mono fun s hs => .inl hs
  · rw [hstream] at hstays harrives
    rw [deliver_sent hold hstream] at hrun
    cases hrun
    obtain ⟨hfresh, bytes, hreceived, harrived⟩ := harrives k rfl
    have hne : k ≠ old := fun hsame => hfresh (hsame ▸ Store.mem_used_of_find hy)
    have hdelete := Mtp.within_deleteObject (P := Delivered fs p)
      ⟨k, bytes, hreceived, Mtp.arrived_deleteObject harrived hstays.last hne⟩
    exact (hstays.mono fun s hs => .inl hs).trans (hdelete.mono fun s hs => .inr hs)

/-- A send with the old object gone: the new one is there, or the spool file stays. -/
theorem deliver_first (hnone : p.replaces = none) {rc : Int}
    (hrun : (deliver p false : Proc Int (Fs Phone) _) fs = (.ok (rc, q), fs')) :
    q.keepSpool = true ∨ Delivered fs p fs'.store := by
  obtain ⟨-, harrives⟩ := Mtp.sendObjectStream_ends p.parent p.name p.size
    (readerOf fs.host.reading (fs.spoolBytes p.spool)) fs.mtp
  rw [deliver, Proc.bind_ok (Proc.get_run _), Proc.bind_ok (tryMtp_run _ _)] at hrun
  rcases hstream : Mtp.sendObjectStream p.parent p.name
    (readerOf fs.host.reading (fs.spoolBytes p.spool)) p.size fs.mtp with ⟨e | k, m⟩
  · rw [hstream] at hrun
    dsimp only at hrun
    rw [hnone] at hrun
    cases hrun
    exact .inl (Bool.or_true _)
  · rw [hstream] at hrun harrives
    dsimp only at hrun
    rw [hnone] at hrun
    cases hrun
    obtain ⟨-, bytes, hreceived, harrived⟩ := harrives k rfl
    exact .inr ⟨k, bytes, hreceived, harrived⟩

/-- **A send that replaces a file.**  The old object is there at every point until the new one
is, or the new one is there at the end, or the spool file stays. -/
theorem sendPending_replaces (hold : p.replaces = some old) (hidle : fs.mtp.Idles)
    (hhas : fs.store.HasFile old c) {rc : Int}
    (hrun : (sendPending p : Proc Int (Fs Phone) _) fs = (.ok (rc, q), fs')) :
    Mtp.Within (fun s => s.HasFile old c ∨ Delivered fs p s) fs.mtp fs'.mtp ∨
      q.keepSpool = true ∨ Delivered fs p fs'.store := by
  have hreader : ∀ {fs₁ : Fs Phone} {a : Pending}, Keeps Anything fs fs₁ → SameFile p a →
      bytesRequest fs₁ a = bytesRequest fs p := by
    intro fs₁ a hkeeps hsame
    rw [bytesRequest, bytesRequest, hkeeps.host, hsame.size, hsame.spool, spoolBytes, spoolBytes,
      hkeeps.disk]
  have hready := readyToSend_keeps chains_anything
    (steps_anything (Mtp.storageInfo : Proc Error (Mtp Phone) _))
    (fun _ _ => steps_anything _) p (fun _ _ => steps_anything _) fs
  rw [sendPending, Proc.bind_run, Proc.attempt] at hrun
  have hstarts : readyToSend p fs = makeRoom p fs ∨
      ∃ rc, readyToSend p fs = (.error rc, fs) := by
    rw [readyToSend, Proc.bind_ok (Proc.get_run _)]
    cases p.broken with
    | some rc => exact .inr ⟨_, rfl⟩
    | none =>
        dsimp only
        by_cases hseeks : fs.host.seeks = true
        · rw [if_pos hseeks]
          exact .inl rfl
        · rw [if_neg hseeks]
          exact .inr ⟨_, rfl⟩
  rcases hstarts with hmake | ⟨rc', hstop⟩
  · rcases makeRoom_routes hold hidle hhas with ⟨fs₁, hroom, hwithin⟩ | ⟨rc', fs₁, hroom, hwithin⟩ |
      ⟨fs₁, hroom⟩
    · rw [hmake, hroom] at hrun hready
      have hmore := deliver_aside hold hwithin.last hrun
      refine .inl ((hwithin.mono fun s hs => .inl hs).trans (hmore.mono ?_))
      intro s hcases
      rcases hcases with hs | ⟨k, bytes, hreceived, harrived⟩
      · exact .inl hs
      · rw [hreader hready (.refl p)] at hreceived
        exact .inr ⟨k, bytes, hreceived, harrived⟩
    · rw [hmake, hroom] at hrun
      cases hrun
      exact .inl (hwithin.mono fun s hs => .inl hs)
    · rw [hmake, hroom] at hrun hready
      rcases deliver_first rfl hrun with hkeep | ⟨k, bytes, hreceived, harrived⟩
      · exact .inr (.inl hkeep)
      · have hsame : SameFile p { p with replaces := none } := ⟨rfl, rfl, rfl, rfl, rfl, rfl⟩
        rw [hreader hready hsame] at hreceived
        exact .inr (.inr ⟨k, bytes, hreceived, harrived⟩)
  · rw [hstop] at hrun
    cases hrun
    exact .inl (.of_same rfl (.inl hhas))

/-! ## The calls that send an entry -/

section

variable {sender : Call}

/-- A call that sends an entry, with the state the send starts from and the entry and the state
it leaves. -/
inductive Sends (fs : Fs Phone) : Call → Pending → Fs Phone → Pending → Fs Phone → Prop
  | flush {path : Str} {fi : Option Nat} {p q : Pending} {rc : Int} {fs₁ : Fs Phone}
      (hfi : fhWrites fi = true) (hp : fs.pending path = some p) (hsent : p.sent = none)
      (hsend : (sendPending p : Proc Int (Fs Phone) _) (fs.without path) = (.ok (rc, q), fs₁)) :
      Sends fs (.flush path fi) p (fs.without path) q fs₁
  | release {path : Str} {fi : Option Nat} {p q : Pending} {rc : Int} {fs₁ : Fs Phone}
      (hfi : fhWrites fi = true) (hp : fs.pending path = some p) (hsent : p.sent = none)
      (hsend : (sendPending p : Proc Int (Fs Phone) _) (fs.without path) = (.ok (rc, q), fs₁)) :
      Sends fs (.release path fi) p (fs.without path) q fs₁
  | truncate {path : Str} {size : Nat} {handle : UInt32} {entry : Entry} {p q : Pending} {rc : Int}
      {fs₁ fs₂ fs₃ : Fs Phone} (hfree : fs.pending path = none)
      (hresolved : resolved path fs = (.ok handle, fs₁)) (hentry : fs₁.tree.get handle = some entry)
      (hdir : entry.isDir = false)
      (hadopts : adoptForWrite path handle entry (size > 0) fs₁ = (.ok (), fs₂))
      (hp : fs₂.pending path = some p) (hresizes : fs₂.host.resizes = true)
      (hsend : (sendPending { p with size := size } : Proc Int (Fs Phone) _)
        ((fs₂.edited path { p with size := size } (resize (fs₂.spoolBytes p.spool) size)).without
          path) = (.ok (rc, q), fs₃)) :
      Sends fs (.truncate path size) { p with size := size }
        ((fs₂.edited path { p with size := size } (resize (fs₂.spoolBytes p.spool) size)).without
          path) q fs₃

theorem dropped_dropped (fs : Fs Phone) (q : Pending) : (fs.dropped q).dropped q = fs.dropped q := by
  rw [dropped]
  cases hkeep : q.keepSpool with
  | true => rfl
  | false =>
      rw [dropped, hkeep]
      simp only [Bool.false_eq_true, if_false, Function.update_idem]

theorem opTruncate_sends {path : Str} {size : Nat} {handle : UInt32} {entry : Entry} {rc : Int}
    {fs₂ fs₃ : Fs Phone} (hfree : fs.pending path = none)
    (hresolved : resolved path fs = (.ok handle, fs₁)) (hentry : fs₁.tree.get handle = some entry)
    (hdir : entry.isDir = false)
    (hadopts : adoptForWrite path handle entry (size > 0) fs₁ = (.ok (), fs₂))
    (hp : fs₂.pending path = some p) (hresizes : fs₂.host.resizes = true)
    (hsend : (sendPending { p with size := size } : Proc Int (Fs Phone) _)
      ((fs₂.edited path { p with size := size } (resize (fs₂.spoolBytes p.spool) size)).without
        path) = (.ok (rc, q), fs₃)) :
    opTruncate path size fs = (.ok rc, fs₃.dropped q) := by
  rw [opTruncate, Proc.bind_ok (Proc.get_run _), hfree]
  dsimp only
  rw [Proc.bind_ok hresolved, Proc.bind_ok (Proc.get_run _), hentry]
  dsimp only
  rw [hdir, if_neg Bool.false_ne_true, Proc.bind_ok hadopts, Proc.bind_ok (Proc.get_run _), hp]
  dsimp only
  rw [Proc.bind_ok (resizePending_run hresizes p size), Proc.bind_ok (takePending_run _ _)]
  rw [show (edited fs₂ path { p with size := size }
    (resize (fs₂.spoolBytes p.spool) size)).pending path = some { p with size := size }
    from Function.update_self ..]
  show (sendPending { p with size := size } >>= _) (without _ path) = _
  rw [Proc.bind_ok hsend]
  rfl

/-- A call that sends an entry is the send, and then the entry goes back or is dropped. -/
theorem Sends.ends (h : Sends fs sender p fs' q fs₁) : ∃ rc n fs₂,
    (sendPending p : Proc Int (Fs Phone) _) fs' = (.ok (rc, q), fs₁) ∧
      sender.number fs = (.ok n, fs₂) ∧ fs₂.store = fs₁.store ∧
        (fs₂.dropped q).disk = (fs₁.dropped q).disk := by
  cases h with
  | flush hfi hp hsent hsend =>
      obtain ⟨rc', q', fs₁', hsend', hrun⟩ := opFlush_unsent hfi hp hsent
      cases hsend.symm.trans hsend'
      refine ⟨_, _, _, hsend, hrun, rfl, ?_⟩
      rw [dropped, dropped]
      split
      · rfl
      · rfl
  | release hfi hp hsent hsend =>
      obtain ⟨rc', q', fs₁', hsend', hrun⟩ := opRelease_unsent hfi hp hsent
      cases hsend.symm.trans hsend'
      refine ⟨_, _, _, hsend, hrun, ?_, ?_⟩
      · rw [store, mtp_dropped]
        rfl
      · rw [dropped_dropped]
  | truncate hfree hresolved hentry hdir hadopts hp hresizes hsend =>
      refine ⟨_, _, _, hsend, opTruncate_sends hfree hresolved hentry hdir hadopts hp hresizes hsend,
        ?_, ?_⟩
      · rw [store, mtp_dropped]
        rfl
      · rw [dropped_dropped]

/-- The send starts with a spool file, which is not longer than the entry says. -/
theorem Sends.file (h : Sends fs sender p fs' q fs₁) (htidy : Tidy fs) (hcovered : Covered fs) :
    ∃ bytes, fs'.disk p.spool = some bytes ∧ (p.broken = none → bytes.length ≤ p.size) := by
  have hentry : ∀ path, fs.pending path = some p → ∃ bytes, fs.disk p.spool = some bytes ∧
      (p.broken = none → bytes.length ≤ p.size) := by
    intro path hp
    obtain ⟨bytes, hbytes⟩ := Option.isSome_iff_exists.mp (htidy.there path p hp)
    have hlength := hcovered path p hp
    rw [spoolBytes, hbytes] at hlength
    exact ⟨bytes, hbytes, hlength⟩
  cases h with
  | flush hfi hp hsent hsend => exact hentry _ hp
  | release hfi hp hsent hsend => exact hentry _ hp
  | @truncate path size handle entry p q rc fs₁ fs₂ fs₃ hfree hresolved hentry hdir hadopts hp
      hresizes hsend =>
      refine ⟨resize (fs₂.spoolBytes p.spool) size, Function.update_self .., fun _ => ?_⟩
      rw [resize, List.length_append, List.length_take, List.length_replicate]
      dsimp only
      omega

/-- The bytes a send gives are those of the spool file. -/
theorem received_spool {bytes payload : Bytes} (hbytes : fs.disk p.spool = some bytes)
    (hlength : bytes.length ≤ p.size) (hreceived : Phone.received (bytesRequest fs p) = .ok payload) :
    payload = bytes := by
  have hread : (readExactOrShort "SendObject" p.size []
      (readerOf fs.host.reading (fs.spoolBytes p.spool))).1 = .ok payload := by
    rw [Phone.received] at hreceived
    dsimp only [bytesRequest, Mtp.sendRequest] at hreceived
    split at hreceived
    · cases hreceived
    · exact hreceived
  obtain ⟨-, hpayload⟩ := readExactOrShort_readerOf (Nat.zero_le _) hread
  rw [hpayload, List.nil_append, spoolBytes, hbytes, Option.getD_some, List.take_of_length_le hlength]

/-- The old bytes, as they were in the store `s₀`, are on the device, or the new ones are. -/
def Safe (s₀ : Store) (old : UInt32) (name : Str) (bytes : Bytes) (s : Store) : Prop :=
  (∃ c, s₀.HasFile old c ∧ s.HasFile old c) ∨ ∃ k, s.Arrived k name bytes

/-- A send from `fs'` to `fs₁`, in a call that ends in `fs₂`, loses nothing.  At a point where
neither contents are on the device the spool file holds the new ones, and its drop leaves it
there or comes after them. -/
structure NothingLost (fs' fs₁ fs₂ : Fs Phone) (p q : Pending) (old : UInt32) (bytes : Bytes) :
    Prop where
  spool : fs'.disk p.spool = some bytes
  points : ∀ s ∈ fs'.mtp.points fs₁.mtp, Safe fs'.store old p.name bytes s ∨
    fs₁.disk p.spool = some bytes ∧ ((fs₁.dropped q).disk p.spool = some bytes ∨
      ∃ k, fs₂.store.Arrived k p.name bytes)
  last : Safe fs'.store old p.name bytes fs₂.store ∨ (fs₂.dropped q).disk p.spool = some bytes

/-- Where the old object is not there until the new one is, the new one is there at the end, or
the spool file stays. -/
theorem Sends.safe (hsends : Sends fs sender p fs' q fs₁) {bytes : Bytes}
    (hbytes : fs'.disk p.spool = some bytes) (hlength : p.broken = none → bytes.length ≤ p.size)
    (hidle : fs'.mtp.Idles) (hold : p.replaces = some old) (hhas : fs'.store.HasFile old c) :
    Mtp.Within (Safe fs'.store old p.name bytes) fs'.mtp fs₁.mtp ∨ q.keepSpool = true ∨
      ∃ k, fs₁.store.Arrived k p.name bytes := by
  obtain ⟨rc, n, fs₂, hsend, -⟩ := hsends.ends
  cases hbroken : p.broken with
  | some rc' =>
      have hstop := sendPending_broken (E := Int) hbroken fs'
      rw [hstop] at hsend
      cases hsend
      exact .inl (.of_same rfl (.inl ⟨c, hhas, hhas⟩))
  | none =>
      have hnew : ∀ s, Delivered fs' p s → ∃ k, s.Arrived k p.name bytes := by
        intro s hsome
        obtain ⟨k, payload, hreceived, harrived⟩ := hsome
        have hall : payload = bytes := received_spool hbytes (hlength hbroken) hreceived
        exact ⟨k, hall ▸ harrived⟩
      rcases sendPending_replaces hold hidle hhas hsend with hwithin | hkeep | hdelivered
      · refine .inl (hwithin.mono ?_)
        intro s hs
        rcases hs with hs | hs
        · exact .inl ⟨c, hhas, hs⟩
        · exact .inr (hnew s hs)
      · exact .inr (.inl hkeep)
      · exact .inr (.inr (hnew _ hdelivered))

/-- **A send that replaces a file loses nothing**, where the device has the file when the send
starts. -/
theorem Sends.nothingLost (hsends : Sends fs sender p fs' q fs₁) (htidy : Tidy fs)
    (hcovered : Covered fs) (hidle : fs'.mtp.Idles) (hold : p.replaces = some old)
    (hhas : fs'.store.HasFile old c) :
    ∃ bytes n fs₂, sender.number fs = (.ok n, fs₂) ∧ NothingLost fs' fs₁ fs₂ p q old bytes := by
  obtain ⟨bytes, hbytes, hlength⟩ := hsends.file htidy hcovered
  obtain ⟨rc, n, fs₂, hsend, hcall, hstore, hdrop⟩ := hsends.ends
  have hkeeps : Keeps Anything fs' fs₁ := by
    have hall : Keeps Anything fs' ((sendPending p : Proc Int (Fs Phone) _) fs').2 :=
      sendPending_keeps chains_anything (steps_anything _) (fun _ _ => steps_anything _)
        (fun _ _ => steps_anything _) (steps_anything _)
    rw [hsend] at hall
    exact hall
  have hdisk : fs₁.disk p.spool = some bytes := by
    rw [hkeeps.disk]
    exact hbytes
  have hstays : q.keepSpool = true → (fs₁.dropped q).disk p.spool = some bytes := by
    intro hkeep
    rw [dropped, if_pos hkeep]
    exact hdisk
  rcases hsends.safe hbytes hlength hidle hold hhas with hwithin | hkeep | hthere
  · refine ⟨bytes, n, fs₂, hcall, hbytes, fun s hs => .inl (hwithin.points s hs), .inl ?_⟩
    rw [hstore]
    exact hwithin.last
  · refine ⟨bytes, n, fs₂, hcall, hbytes, fun s _ => .inr ⟨hdisk, .inl (hstays hkeep)⟩, .inr ?_⟩
    rw [hdrop]
    exact hstays hkeep
  · rw [← hstore] at hthere
    exact ⟨bytes, n, fs₂, hcall, hbytes, fun s _ => .inr ⟨hdisk, .inr hthere⟩, .inl (.inr hthere)⟩

end

/-! ## A rename onto a file -/

/-- The walks of a rename find an object, and another one that has the new name. -/
def Lands (fs : Fs Phone) (source target : Str) (handle taken : UInt32) : Prop :=
  taken ≠ handle ∧ ∃ o d fs₁ fs₂ fs₃ fs₄, resolved source fs = (.ok handle, fs₁) ∧
    resolved (splitParent source).1 fs₁ = (.ok o, fs₂) ∧
    resolved (splitParent target).1 fs₂ = (.ok d, fs₃) ∧
    (resolve target : Proc Int (Fs Phone) _) fs₃ = (.ok (some taken), fs₄)

/-- What the walk finds is what moves aside. -/
theorem clearTarget_found {target newName : Str} {handle taken d : UInt32} {fs₄ fs₅ : Fs Phone}
    {a : Option (Option UInt32)} (hne : taken ≠ handle)
    (hresolve : (resolve target : Proc Int (Fs Phone) _) fs = (.ok (some taken), fs₄))
    (hrun : clearTarget target newName handle d fs = (.ok a, fs₅)) : a = some (some taken) := by
  rw [clearTarget, Proc.bind_ok hresolve] at hrun
  dsimp only at hrun
  rw [if_neg hne] at hrun
  by_cases hroot : taken = root
  · rw [if_pos hroot] at hrun
    cases hrun
  · rw [if_neg hroot, Proc.bind_ok asideName_run, Proc.bind_ok (tryMtp_run _ _)] at hrun
    rcases hrename : Mtp.renameObject taken (asideOf newName fs₄.spoolCount) fs₄.mtp with ⟨e | u, m⟩
    · rw [hrename] at hrun
      cases hrun
    · rw [hrename] at hrun
      cases hrun
      rfl

/-- A delete of a file leaves the other objects. -/
theorem within_dropped {m : Mtp Phone} {handle taken : UInt32} {c c' : Content}
    (hboth : m.session.store.Has handle c ∧ m.session.store.HasFile taken c')
    (hne : taken ≠ handle) :
    Mtp.Within (fun s => s.Has handle c) m (Mtp.deleteObject taken m).2 := by
  refine Mtp.within_deleteObject ?_
  rw [Mtp.session_deleteObject]
  rcases Phone.exec_delete m.session taken with hsame | ⟨-, hgone⟩
  · rw [hsame]
    exact hboth.1
  · rw [hgone]
    exact hboth.1.remove hboth.2 (Ne.symm hne)

/-- A rename of the root leaves the device as it is. -/
theorem opRename_of_root {source target : Str} {taken : UInt32} {c' : Content}
    (hlands : Lands fs source target root taken) (hfile : fs.store.HasFile taken c') :
    Mtp.Within (fun s => s.HasFile taken c') fs.mtp (opRename source target fs).2.mtp := by
  obtain ⟨-, -, -, fs₁, -, -, -, hsource, -, -, -⟩ := hlands
  have htakes := Mtp.takes_hasFile taken c'
  have hlist := (htakes.asks (fun _ _ => Mtp.codes_of_question) fun m h => .of_same rfl h).list
  have hwalk := (resolved_keeps htakes.toChains hlist source fs).device hfile
  rw [hsource] at hwalk
  rw [opRename, Proc.bind_ok hsource, if_pos rfl]
  exact hwalk

/-- **A rename onto a file** keeps the object it renames at every point. -/
theorem opRename_lands {source target : Str} {handle taken : UInt32} {c c' : Content}
    (hlands : Lands fs source target handle taken) (hsource : fs.store.Has handle c)
    (hfile : fs.store.HasFile taken c') :
    Mtp.Within (fun s => s.Has handle c) fs.mtp (opRename source target fs).2.mtp := by
  obtain ⟨hne, o, d, fs₁, fs₂, fs₃, fs₄, hsources, holds, hnews, htargets⟩ := hlands
  -- Until the last operation both objects stay.
  have htakes := Mtp.takes_stays (P := fun s => s.Has handle c ∧ s.HasFile taken c')
    fun _ _ h hstays => ⟨hstays.has h.1, hstays.hasFile h.2⟩
  have hchains := htakes.toChains
  have hlist := (htakes.asks (fun _ _ => Mtp.codes_of_question) fun m h => .of_same rfl h).list
  have hrename := htakes.renameObject fun _ _ _ => Mtp.codes_of_rename
  have hmove := htakes.moveObject fun _ _ => Mtp.codes_of_move
  have h₁ := (resolved_keeps hchains hlist source fs).device ⟨hsource, hfile⟩
  rw [hsources] at h₁
  have h₂ := h₁.trans ((resolved_keeps hchains hlist (splitParent source).1 fs₁).device h₁.last)
  rw [holds] at h₂
  have h₃ := h₂.trans ((resolved_keeps hchains hlist (splitParent target).1 fs₂).device h₂.last)
  rw [hnews] at h₃
  rw [opRename, Proc.bind_ok hsources]
  by_cases hroot : handle = root
  · rw [if_pos hroot]
    exact h₁.mono fun s hs => hs.1
  rw [if_neg hroot]
  dsimp only
  by_cases hempty : (splitParent target).2.isEmpty
  · rw [if_pos hempty]
    exact h₁.mono fun s hs => hs.1
  rw [if_neg hempty, Proc.bind_ok holds, Proc.bind_ok hnews, Proc.bind_run]
  have h₄ := h₃.trans ((clearTarget_keeps hchains hlist hrename target (splitParent target).2 handle
    d fs₃).device h₃.last)
  rcases hclear : clearTarget target (splitParent target).2 handle d fs₃ with ⟨e | a, fs₅⟩
  · rw [hclear] at h₄
    exact h₄.mono fun s hs => hs.1
  rw [hclear] at h₄
  rw [clearTarget_found hne htargets hclear]
  dsimp only
  rw [Proc.bind_run]
  have h₅ := h₄.trans ((moveAcross_keeps hchains hmove handle o d fs₅).device h₄.last)
  rcases hacross : moveAcross handle o d fs₅ with ⟨e | u, fs₆⟩
  · rw [hacross] at h₅
    exact h₅.mono fun s hs => hs.1
  rw [hacross] at h₅
  dsimp only
  rw [Proc.bind_run]
  have h₆ := h₅.trans ((renameInPlace_keeps hchains hrename handle d (splitParent target).2
    (some taken) fs₆).device h₅.last)
  rcases hplace : renameInPlace handle d (splitParent target).2 (some taken) fs₆ with ⟨e | u, fs₇⟩
  · rw [hplace] at h₆
    exact h₆.mono fun s hs => hs.1
  rw [hplace] at h₆
  have hdrop : dropAside (some taken) fs₇ =
      (.ok (), { fs₇ with mtp := (Mtp.deleteObject taken fs₇.mtp).2 }) := rfl
  dsimp only
  rw [Proc.bind_ok hdrop]
  exact (h₆.mono fun s hs => hs.1).trans (within_dropped h₆.last hne)

/-! ## Every replace -/

/-- A state a mount reaches, with the disk of the host in the next call. -/
def reached (mtp : Mtp Phone) (host₀ : Host) (calls : List (Host × Call)) (host : Host) : Fs Phone :=
  { (start mtp host₀).run calls with host := host }

/-- A replace in this call loses nothing: neither the send of an entry that replaces an object, on
a device whose faults have no effect from there on, nor a rename onto a file. -/
structure LosesNothing (fs : Fs Phone) (call : Call) : Prop where
  send : ∀ p fs' q fs₁ old, Sends fs call p fs' q fs₁ → fs'.mtp.Idles → p.replaces = some old →
    ∃ bytes n fs₂, call.number fs = (.ok n, fs₂) ∧ NothingLost fs' fs₁ fs₂ p q old bytes
  rename : ∀ source target handle taken c, call = .rename source target →
    Lands fs source target handle taken → fs.store.HasFile taken c →
      ∀ s ∈ fs.mtp.points (call.number fs).2.mtp,
        s.HasFile taken c ∨ ∃ c', fs.store.Has handle c' ∧ s.Has handle c'

/-- The device still has what the call is about: the file that an entry replaces, when its send
starts, and the object that a rename moves. -/
structure StillThere (fs : Fs Phone) (call : Call) : Prop where
  send : ∀ p fs' q fs₁ old, Sends fs call p fs' q fs₁ → p.replaces = some old →
    ∃ c, fs'.store.HasFile old c
  rename : ∀ source target handle taken, call = .rename source target →
    Lands fs source target handle taken → handle ≠ root → ∃ c, fs.store.Has handle c

/-- One call loses nothing. -/
theorem StillThere.losesNothing {call : Call} (hthere : StillThere fs call) (htidy : Tidy fs)
    (hcovered : Covered fs) : LosesNothing fs call := by
  constructor
  · intro p fs' q fs₁ old hsends hidle hold
    obtain ⟨c, hhas⟩ := hthere.send p fs' q fs₁ old hsends hold
    exact hsends.nothingLost htidy hcovered hidle hold hhas
  · intro source target handle taken c hsame hlands hfile s hs
    subst hsame
    by_cases hroot : handle = root
    · subst hroot
      exact .inl ((opRename_of_root hlands hfile).points s hs)
    · obtain ⟨c', hhas⟩ := hthere.rename source target handle taken rfl hlands hroot
      exact .inr ⟨c', hhas, (opRename_lands hlands hhas hfile).points s hs⟩

/-- **A replace loses nothing**, in every run of calls in which the device still has the file that
an entry replaces when its send starts, and the object that a rename onto a file moves. -/
theorem replace_loses_nothing (mtp : Mtp Phone) (host₀ : Host) {calls : List (Host × Call)}
    (hthere : Run.Meets step (fun fs e => StillThere { fs with host := e.1 } e.2) (start mtp host₀)
      calls) :
    ∀ before e rest, calls = before ++ e :: rest →
      LosesNothing (reached mtp host₀ before e.1) e.2 := by
  intro before e rest hsame
  subst hsame
  have htidy : Tidy ((start mtp host₀).run before) := (tidy_start mtp host₀).run before
  have hcovered : Covered ((start mtp host₀).run before) :=
    (covered_start mtp host₀).run (tidy_start mtp host₀) before
  have hnow : StillThere (reached mtp host₀ before e.1) e.2 := (Run.Meets.append.mp hthere).2.1
  exact hnow.losesNothing ⟨htidy.counted, htidy.apart, htidy.there, htidy.made⟩ hcovered

/-! ## A send and a rename to compute with -/

/-- A call that neither sends an entry nor renames. -/
def Call.plain : Call → Bool
  | .flush _ _ | .release _ _ | .truncate _ _ | .rename _ _ => false
  | _ => true

theorem stillThere_of_plain {call : Call} (hplain : call.plain = true) : StillThere fs call := by
  constructor
  · intro p fs' q fs₁ old hsends _
    cases hsends with
    | flush hfi hp hsent hsend => cases hplain
    | release hfi hp hsent hsend => cases hplain
    | truncate hfree hresolved hentry hdir hadopts hp hresizes hsend => cases hplain
  · intro source target handle taken hcall _ _
    subst hcall
    cases hplain

/-- A program opened a file of three bytes and wrote others into it. -/
def overwritten : List (Host × Call) :=
  [(Host.obliging, .opens ['/', 'a'] (Oflag.WRONLY ||| Oflag.TRUNC)),
    (Host.obliging, .write ['/', 'a'] [1, 2, 3] 0)]

/-- A program made a second file. -/
def secondFile : List (Host × Call) :=
  [(Host.obliging, .create ['/', 'b']), (Host.obliging, .write ['/', 'b'] [7] 0),
    (Host.obliging, .release ['/', 'b'] none)]

/-- The mount of a device that is full when the bytes come, after the first program. -/
def beforeFlush : Fs Phone :=
  reached (Mtp.standard (Phone.holding (Mtp.storeOfZeros 3 Mtp.three_fits) (Policy.breaking false)))
    Host.obliging overwritten Host.obliging

/-- The mount of a device that does every operation, with two files. -/
def beforeRename : Fs Phone :=
  reached (Mtp.mountOfZeros 3 Mtp.three_fits) Host.obliging secondFile Host.obliging

/-- A file that is renamed while a program writes it, and opened under both names. -/
def openedTwice : List (Host × Call) :=
  [(Host.obliging, .opens ['/', 'a'] Oflag.RDWR), (Host.obliging, .rename ['/', 'a'] ['/', 'b']),
    (Host.obliging, .opens ['/', 'b'] Oflag.RDWR), (Host.obliging, .write ['/', 'a'] [1] 0),
    (Host.obliging, .write ['/', 'b'] [2] 0), (Host.obliging, .flush ['/', 'a'] none)]

/-- The mount after the first of the two entries was sent. -/
def sentOnce : Fs Phone :=
  reached (Mtp.mountOfZeros 3 Mtp.three_fits) Host.obliging openedTwice Host.obliging

/-- The second of the two entries. -/
def secondEntry : Pending where
  parent := root
  name := ['b']
  spool := 1
  size := 3
  sent := none
  replaces := some 1
  broken := none
  keepSpool := false

/-- **The second send loses the bytes.**  The device does every operation, the object that both
entries replace went with the first send, and the bytes of the second are nowhere in the end. -/
theorem second_send_loses : ¬ LosesNothing sentOnce (.flush ['/', 'b'] none) := by
  intro hnothing
  have hpending : sentOnce.pending ['/', 'b'] = some secondEntry := by decide +kernel
  have hsend : (sendPending secondEntry : Proc Int (Fs Phone) _) (sentOnce.without ['/', 'b']) =
      (.ok (-Libc.EIO, secondEntry),
        ((sendPending secondEntry : Proc Int (Fs Phone) _) (sentOnce.without ['/', 'b'])).2) :=
    Prod.ext (by decide +kernel) rfl
  have hidle : (sentOnce.without ['/', 'b']).mtp.Idles := by
    intro more s r f hfault
    cases hfault
  obtain ⟨bytes, n, fs₂, hcall, hlost⟩ :=
    hnothing.send _ _ _ _ 1 (.flush rfl hpending rfl hsend) hidle rfl
  have hfs₂ : fs₂ = ((Call.flush ['/', 'b'] none).number sentOnce).2 := (congrArg Prod.snd hcall).symm
  rcases hlost.last with (⟨c, ⟨x, hx, -⟩, -⟩ | ⟨k, x, hx, -, hname, -⟩) | hkept
  · have hgone : (sentOnce.without ['/', 'b']).store.find 1 = none := by decide +kernel
    rw [hgone] at hx
    cases hx
  · have hnames : ∀ x ∈ fs₂.store.objects.nodes, x.name ≠ Utf16.fit 254 ['b'] := by
      rw [hfs₂]
      decide +kernel
    exact hnames x (Store.mem_of_find hx) hname
  · have hempty : (fs₂.dropped secondEntry).disk secondEntry.spool = none := by
      rw [dropped, if_neg (show ¬ secondEntry.keepSpool = true by decide)]
      show Function.update fs₂.disk secondEntry.spool none secondEntry.spool = none
      exact Function.update_self ..
    rw [hempty] at hkept
    cases hkept

/-- The send fails and loses nothing, and so does the rename, which works. -/
theorem replace_loses_nothing_run : LosesNothing beforeFlush (.flush ['/', 'a'] none) ∧
    LosesNothing beforeRename (.rename ['/', 'b'] ['/', 'a']) := by
  constructor
  · have hpending : beforeFlush.pending ['/', 'a'] = some rewrite := by decide +kernel
    have hfile : (beforeFlush.without ['/', 'a']).store.find 1 = some rewrittenFile := by
      decide +kernel
    have hthere : StillThere beforeFlush (.flush ['/', 'a'] none) := by
      constructor
      · intro p fs' q fs₁ old hsends hold
        cases hsends with
        | flush hfi hp hsent hsend =>
            cases hpending.symm.trans hp
            cases hold
            exact ⟨_, rewrittenFile, hfile, rfl, rfl⟩
      · intro source target handle taken hcall
        cases hcall
    have hmeets : Run.Meets step (fun fs e => StillThere { fs with host := e.1 } e.2)
        (start (Mtp.standard (Phone.holding (Mtp.storeOfZeros 3 Mtp.three_fits)
          (Policy.breaking false))) Host.obliging)
        (overwritten ++ [(Host.obliging, .flush ['/', 'a'] none)]) :=
      ⟨stillThere_of_plain rfl, stillThere_of_plain rfl, hthere, trivial⟩
    exact replace_loses_nothing _ Host.obliging hmeets overwritten _ [] rfl
  · have hthere : StillThere beforeRename (.rename ['/', 'b'] ['/', 'a']) := by
      constructor
      · intro p fs' q fs₁ old hsends
        cases hsends
      · intro source target handle taken hcall hlands _
        cases hcall
        obtain ⟨-, o, d, fs₁, fs₂, fs₃, fs₄, hsource, -⟩ := hlands
        have hhandle : (resolved ['/', 'b'] beforeRename).1 = .ok 2 := by decide +kernel
        have hboth : (resolved ['/', 'b'] beforeRename).1 = .ok handle := congrArg Prod.fst hsource
        cases hhandle.symm.trans hboth
        have hfound : (beforeRename.store.find 2).isSome := by decide +kernel
        obtain ⟨x, hx⟩ := Option.isSome_iff_exists.mp hfound
        exact ⟨x.content, x, hx, rfl⟩
    have hrelease : StillThere ((start (Mtp.mountOfZeros 3 Mtp.three_fits) Host.obliging).run
        (secondFile.take 2)) (.release ['/', 'b'] none) := by
      constructor
      · intro p fs' q fs₁ old hsends hold
        cases hsends with
        | release hfi hp hsent hsend =>
            have hnone : (((start (Mtp.mountOfZeros 3 Mtp.three_fits) Host.obliging).run
                (secondFile.take 2)).pending ['/', 'b']).bind Pending.replaces = none := by
              decide +kernel
            rw [hp] at hnone
            cases hold.symm.trans hnone
      · intro source target handle taken hcall
        cases hcall
    have hmeets : Run.Meets step (fun fs e => StillThere { fs with host := e.1 } e.2)
        (start (Mtp.mountOfZeros 3 Mtp.three_fits) Host.obliging)
        (secondFile ++ [(Host.obliging, .rename ['/', 'b'] ['/', 'a'])]) :=
      ⟨stillThere_of_plain rfl, stillThere_of_plain rfl, hrelease, hthere, trivial⟩
    exact replace_loses_nothing _ Host.obliging hmeets secondFile _ [] rfl

end Fs

end Bsdroid
