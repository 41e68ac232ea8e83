import Bsdroid.Lib.Apart
import Bsdroid.Mtpfs.Undoing

/-!
# Distinct names

A device of this kind lets two objects of one folder share a name.  `op_rename` and a send that
replaces a file move the object that has the name out of the way, and nothing else looks: a new folder
and a new file get the name that the program gave, and a rename does not know the files that are
still to be sent.

`Fs.names_stay_apart` says what keeps the names of a folder distinct over a run: each call finds free
the names that it gives.
-/

namespace Bsdroid

namespace Store

variable {s s₁ s₂ s' : Store} {h k q : UInt32} {x : Object} {name : Str} {ks : List UInt32}

/-- No two objects have one folder and one name. -/
theorem distinct_iff_apart : s.Distinct ↔ Apart s.spotOf := by
  rw [distinct_iff]
  constructor
  · intro hdistinct k k' spot hk hk'
    obtain ⟨x, hx, rfl⟩ := Option.map_eq_some_iff.mp hk
    obtain ⟨x', hx', hsame⟩ := Option.map_eq_some_iff.mp hk'
    rw [Prod.mk.injEq] at hsame
    exact hdistinct k k' x x' hx hx' hsame.1.symm hsame.2.symm
  · intro hapart k k' x x' hx hx' hparent hname
    apply hapart k k' (x.parent, x.name)
    · rw [spotOf, hx, Option.map_some]
    · rw [spotOf, hx', Option.map_some, hparent, hname]

/-! ## The folder and the name of an object after a change -/

theorem spotOf_rename_of_ne (hk : k ≠ h) : (s.rename h name).spotOf k = s.spotOf k := by
  rw [spotOf_rename]
  simp only [if_neg hk]
  exact Option.map_id'

theorem spotOf_rename_self (s : Store) (h : UInt32) (name : Str) : (s.rename h name).spotOf h =
    (s.spotOf h).map fun spot => (spot.1, Utf16.fit 254 name) := by
  rw [spotOf_rename]
  simp only [if_true]

theorem spotOf_rename_of_absent (hnone : s.find h = none) (k : UInt32) :
    (s.rename h name).spotOf k = s.spotOf k := by
  by_cases hk : k = h
  · rw [spotOf_rename, hk, spotOf, hnone]
    rfl
  · exact spotOf_rename_of_ne hk

theorem spotOf_remove (k : UInt32) :
    (s.remove h).spotOf k = none ∨ (s.remove h).spotOf k = s.spotOf k := by
  rw [spotOf, spotOf, find_remove]
  split
  · exact .inl rfl
  · exact .inr rfl

theorem spotOf_remove_self (s : Store) (h : UInt32) : (s.remove h).spotOf h = none := by
  rw [spotOf, find_remove, if_pos (s.objects.mem_below_self h)]
  rfl

theorem spotOf_insert (hins : s.insert x = some s') (k : UInt32) :
    s'.spotOf k = if k = x.key then some (x.parent, x.name) else s.spotOf k := by
  rw [spotOf, find_insert hins]
  split
  · rfl
  · rfl

theorem spotOf_write {c : Content} (hwrite : s.write h c = some s') (k : UInt32) :
    s'.spotOf k = s.spotOf k := by
  rw [spotOf, spotOf, find_write hwrite, Option.map_map]
  congr 1
  funext x
  by_cases hk : k = h
  · simp [Function.comp_apply, hk]
  · simp [Function.comp_apply, hk]

/-! ## A name that is free -/

/-- Among these objects alone there is one of this name in the folder. -/
def FreeBut (s : Store) (q : UInt32) (name : Str) (ks : List UInt32) : Prop :=
  ∀ k, s.spotOf k = some (q, name) → k ∈ ks

theorem freeBut_iff : s.FreeBut q name ks ↔
    ∀ x ∈ s.objects.nodes, x.parent = q → x.name = name → x.key ∈ ks := by
  constructor
  · intro hfree x hx hparent hname
    apply hfree
    rw [spotOf, find_eq_some.mpr ⟨hx, rfl⟩, Option.map_some, hparent, hname]
  · intro hnone k hk
    obtain ⟨x, hx, hsame⟩ := Option.map_eq_some_iff.mp hk
    rw [Prod.mk.injEq] at hsame
    rw [← find_key hx]
    exact hnone x (mem_of_find hx) hsame.1 hsame.2

instance (s : Store) (q : UInt32) (name : Str) (ks : List UInt32) : Decidable (s.FreeBut q name ks) :=
  decidable_of_iff' _ freeBut_iff

/-- The folders and the names of all objects but these. -/
def spotBut (s : Store) (ks : List UInt32) (k : UInt32) : Option (UInt32 × Str) :=
  if k ∈ ks then none else s.spotOf k

/-- Each object but these has the folder and the name it had, or is gone. -/
def LessBut (ks : List UInt32) (s s' : Store) : Prop :=
  ∀ k, k ∉ ks → s'.spotOf k = none ∨ s'.spotOf k = s.spotOf k

theorem Distinct.but (hdistinct : s.Distinct) (hless : LessBut ks s s') : Apart (s'.spotBut ks) := by
  apply (distinct_iff_apart.mp hdistinct).of_less
  intro k
  by_cases hk : k ∈ ks
  · exact .inl (if_pos hk)
  · rw [spotBut, if_neg hk]
    exact hless k hk

/-- The objects that were beside are gone. -/
theorem distinct_of_gone (hapart : Apart (s.spotBut ks)) (hless : LessBut [] s s')
    (hgone : ∀ k ∈ ks, s'.spotOf k = none) : s'.Distinct := by
  apply distinct_iff_apart.mpr
  apply hapart.of_less
  intro k
  by_cases hk : k ∈ ks
  · exact .inl (hgone k hk)
  · rw [spotBut, if_neg hk]
    exact hless k List.not_mem_nil

/-- The object that was beside gets a name that is free. -/
theorem distinct_of_named (hapart : Apart (s.spotBut [h]))
    (hfree : ∀ q old, s.spotOf h = some (q, old) → s.FreeBut q (Utf16.fit 254 name) [h])
    (hspots : ∀ k, s'.spotOf k = (s.rename h name).spotOf k) : s'.Distinct := by
  apply distinct_iff_apart.mpr
  apply hapart.of_but_one h
  · intro k hk
    rw [spotBut, if_neg fun hmem => hk (List.mem_singleton.mp hmem), hspots, spotOf_rename_of_ne hk]
    exact .inr rfl
  · intro k spot hk hh
    by_contra hne
    rw [hspots, spotOf_rename_of_ne hne] at hk
    rw [hspots, spotOf_rename_self] at hh
    obtain ⟨old, hold, rfl⟩ := Option.map_eq_some_iff.mp hh
    exact hne (List.mem_singleton.mp (hfree old.1 old.2 hold k hk))

/-- The store has at most one new object, and that one has this folder and this name. -/
def Adds (q : UInt32) (name : Str) (s s' : Store) : Prop :=
  (∀ k, s'.spotOf k = s.spotOf k) ∨
    ∃ k, s.spotOf k = none ∧ ∀ j, s'.spotOf j = if j = k then some (q, name) else s.spotOf j

theorem adds_of_insert (hins : s.insert x = some s') : Adds x.parent x.name s s' := by
  refine .inr ⟨x.key, ?_, spotOf_insert hins⟩
  have hfresh := (insert_eq_some hins).1
  rw [spotOf]
  cases hx : s.find x.key with
  | none => rfl
  | some y => exact absurd (mem_used_of_find hx) hfresh

/-- A new object gets a name that is free. -/
theorem Adds.apart (hadds : Adds q name s₁ s₂) (hdistinct : s.Distinct) (hless : LessBut ks s s₁)
    (hfree : s.FreeBut q name ks) : Apart (s₂.spotBut ks) := by
  rcases hadds with hsame | ⟨k, -, hadds⟩
  · apply hdistinct.but
    intro j hj
    rw [hsame]
    exact hless j hj
  · apply (hdistinct.but hless).of_but_one k
    · intro j hj
      rw [spotBut, spotBut, hadds, if_neg hj]
      exact .inr rfl
    · intro j spot hj hk
      by_contra hne
      have hout : j ∉ ks := by
        intro hmem
        rw [spotBut, if_pos hmem] at hj
        cases hj
      rw [spotBut, if_neg hout, hadds, if_neg hne] at hj
      have hspot : spot = (q, name) := by
        rw [spotBut] at hk
        split at hk
        · cases hk
        · rw [hadds, if_pos rfl] at hk
          exact (Option.some.inj hk).symm
      rcases hless j hout with hnone | hsame
      · rw [hnone] at hj
        cases hj
      · rw [hsame, hspot] at hj
        exact hout (hfree j hj)

end Store

namespace Phone

variable {p : Phone} {r : Request} {h : UInt32} {name : Str}

/-! ## A device that does every operation -/

/-- A device without a fault has none later. -/
theorem faultless_exec (hfaultless : p.policy.Faultless) (r : Request) :
    (exec r p).2.policy.Faultless := by
  rw [(exec_served p r).policy]
  exact hfaultless

theorem idles_of_faultless (hfaultless : p.policy.Faultless) : p.Idles := by
  intro more s r f hfault
  rw [hfaultless] at hfault
  cases hfault

/-- Such a device renames every object that it holds. -/
theorem find_of_rename_not_works (hfaultless : p.policy.Faultless)
    (hnot : ¬ p.Works (Mtp.renameRequest h name)) : p.store.find h = none := by
  by_contra hsome
  apply hnot
  have hexec : exec (Mtp.renameRequest h name) p = ((p.perform (Mtp.renameRequest h name)).1,
      (p.perform (Mtp.renameRequest h name)).2.record (Mtp.renameRequest h name)) := by
    rw [exec, hfaultless]
  rw [Works, hexec, perform_rename, Mtp.serve_rename, if_pos (Option.isSome_iff_ne_none.mpr hsome)]
  exact ⟨accept [] [], rfl, rfl⟩

theorem spotOf_exec_rename (hfaultless : p.policy.Faultless) (h : UInt32) (name : Str) (k : UInt32) :
    (exec (Mtp.renameRequest h name) p).2.store.spotOf k = (p.store.rename h name).spotOf k := by
  by_cases hworks : p.Works (Mtp.renameRequest h name)
  · rw [store_of_rename_works hworks]
  · rw [store_of_rename_not_works (idles_of_faultless hfaultless) hworks,
      Store.spotOf_rename_of_absent (find_of_rename_not_works hfaultless hworks)]

/-- After a delete there is no more than there was. -/
theorem lessBut_exec_delete (p : Phone) (h : UInt32) :
    Store.LessBut [] p.store (exec (Mtp.deleteRequest h) p).2.store := by
  intro k _
  rcases exec_delete p h with hsame | ⟨-, hgone⟩
  · rw [hsame]
    exact .inr rfl
  · rw [hgone]
    exact Store.spotOf_remove k

/-- Such a device removes the object. -/
theorem spotOf_exec_delete (hfaultless : p.policy.Faultless) (h : UInt32) :
    (exec (Mtp.deleteRequest h) p).2.store.spotOf h = none := by
  have hexec : exec (Mtp.deleteRequest h) p = ((p.perform (Mtp.deleteRequest h)).1,
      (p.perform (Mtp.deleteRequest h)).2.record (Mtp.deleteRequest h)) := by
    rw [exec, hfaultless]
  rw [hexec]
  show (p.deleteObject [h, 0]).2.store.spotOf h = none
  rw [deleteObject]
  by_cases hfind : (p.store.find h).isSome
  · rw [if_pos hfind]
    exact Store.spotOf_remove_self p.store h
  · rw [if_neg hfind, Store.spotOf, Option.not_isSome_iff_eq_none.mp hfind]
    rfl

/-! ## A new object -/

/-- An announcement adds the object, or nothing. -/
theorem adds_of_sendObjectInfo {payload : Bytes} {info : ObjectInfo} (storage arg : UInt32)
    (hparse : ObjectInfo.parse payload = .ok info) :
    Store.Adds (folderOf arg) info.filename p.store
      (p.sendObjectInfo payload [storage, arg]).2.store := by
  rw [sendObjectInfo, hparse]
  dsimp only
  split
  · exact .inl fun _ => rfl
  · rename_i s hins
    have hadds : Store.Adds (folderOf arg) info.filename p.store s := Store.adds_of_insert hins
    split
    · exact hadds
    · split
      · exact hadds
      · exact .inl fun _ => rfl

/-- The device takes the bytes of an object that it shows already, or adds the object. -/
theorem adds_of_fill {s s₀ s' : Store} {x : Object} {bytes : Bytes}
    (hfill : fill s x bytes = some s') (hbefore : s = s₀ ∨ s₀.insert x = some s) :
    Store.Adds x.parent x.name s₀ s' := by
  unfold fill at hfill
  split at hfill
  · -- The object is not there yet.
    rename_i hnone
    rcases hbefore with rfl | hins
    · have hnew := Store.adds_of_insert hfill
      exact hnew
    · rw [Store.find_insert hins, if_pos rfl] at hnone
      cases hnone
  · split at hfill
    · cases hfill
    · have hsame := Store.spotOf_write hfill
      rcases hbefore with rfl | hins
      · exact .inl hsame
      · refine (Store.adds_of_insert hins).imp ?_ ?_
        · intro hkept k
          rw [hsame, hkept]
        · intro hadded
          obtain ⟨k, hfresh, hadds⟩ := hadded
          refine ⟨k, hfresh, fun j => ?_⟩
          rw [hsame, hadds]

end Phone

namespace Mtp

variable {m m' : Mtp Phone} {p : UInt32} {name : Str} {size : UInt32} {isFolder : Bool}

/-- The operations keep a device without a fault. -/
theorem takes_faultless : Takes (fun _ => True) fun m m' : Mtp Phone =>
    m.session.policy.Faultless → m'.session.policy.Faultless where
  refl _ hfaultless := hfaultless
  trans h h' hfaultless := h' (h hfaultless)
  exec r _ _ hfaultless := Phone.faultless_exec hfaultless r
  cache _ _ hfaultless := hfaultless

/-- An announcement adds the object, or nothing. -/
theorem announceObject_adds (p : UInt32) (name : Str) (size : UInt32) (isFolder : Bool)
    (m : Mtp Phone) :
    Store.Adds (Phone.folderOf (parentArg p)) (Utf16.fit 254 name) m.session.store
      (announceObject (ObjectInfo.buildForSend m.storage p name size isFolder) (parentArg p)
        m).2.session.store := by
  obtain ⟨info, hparse, -, -, -, hname⟩ :=
    ObjectInfo.parse_buildForSend m.storage p name size isFolder
  have hsize := length_buildForSend_le m.storage p name size isFolder
  rw [← hname]
  generalize ObjectInfo.buildForSend m.storage p name size isFolder = payload at *
  have hserved : Store.Adds (Phone.folderOf (parentArg p)) info.filename m.session.store
      (m.session.perform ⟨"SendObjectInfo", Op.sendObjectInfo, [m.storage, parentArg p],
        some (payload.length, [.bytes payload])⟩).2.store := by
    rw [Phone.perform, received_bytes "SendObjectInfo" Op.sendObjectInfo [m.storage, parentArg p]
      hsize]
    exact Phone.adds_of_sendObjectInfo m.storage (parentArg p) hparse
  have hexec : Store.Adds (Phone.folderOf (parentArg p)) info.filename m.session.store
      (Phone.exec ⟨"SendObjectInfo", Op.sendObjectInfo, [m.storage, parentArg p],
        some (payload.length, [.bytes payload])⟩ m.session).2.store := by
    unfold Phone.exec
    split
    · exact hserved
    · exact .inl fun _ => rfl
    · exact .inl fun _ => rfl
    · exact hserved
  have hsession : (announceObject payload (parentArg p) m).2.session =
      (Phone.exec ⟨"SendObjectInfo", Op.sendObjectInfo, [m.storage, parentArg p],
        some (payload.length, [.bytes payload])⟩ m.session).2 := by
    obtain ⟨m', hanswered, ⟨-, params, hrun⟩ | ⟨-, e, hrun⟩⟩ := @checked_ends m "SendObjectInfo"
      ⟨"SendObjectInfo", Op.sendObjectInfo, [m.storage, parentArg p],
        some (payload.length, [.bytes payload])⟩
    · have hsent : sendingData "SendObjectInfo" Op.sendObjectInfo [m.storage, parentArg p] payload m =
          (.ok params, m') := hrun
      rw [announceObject, Proc.bind_ok (Proc.get_run _), Proc.bind_ok hsent]
      cases params[2]? with
      | none => exact hanswered.session
      | some k => exact hanswered.session
    · have hsent : sendingData "SendObjectInfo" Op.sendObjectInfo [m.storage, parentArg p] payload m =
          (.error e, m') := hrun
      rw [announceObject, Proc.bind_ok (Proc.get_run _), Proc.bind_error hsent]
      exact hanswered.session
  rw [hsession]
  exact hexec

/-- A new folder. -/
theorem sendObject_adds (p : UInt32) (name : Str) (m : Mtp Phone) :
    Store.Adds (Phone.folderOf (parentArg p)) (Utf16.fit 254 name) m.session.store
      (sendObject p name [] true m).2.session.store := by
  have hadds := announceObject_adds p name (UInt32.ofNat ([] : Bytes).length) true m
  rw [sendObject, if_neg (show ¬ ([] : Bytes).length > maxPayloadLen from Nat.not_lt_zero _),
    Proc.bind_ok (Proc.get_run _), Proc.bind_run]
  rcases hrun : announceObject (ObjectInfo.buildForSend m.storage p name
    (UInt32.ofNat ([] : Bytes).length) true) (parentArg p) m with ⟨e | k, m₁⟩
  · rw [hrun] at hadds
    exact hadds
  · rw [hrun] at hadds
    exact hadds

/-- A new file. -/
theorem sendObjectStream_adds (p : UInt32) (name : Str) (reader : List ReadAnswer) (size : Nat)
    (m : Mtp Phone) :
    Store.Adds (Phone.folderOf (parentArg p)) (Utf16.fit 254 name) m.session.store
      (sendObjectStream p name reader size m).2.session.store := by
  by_cases hbig : size > maxPayloadLen
  · rw [sendObjectStream, if_pos hbig]
    exact .inl fun _ => rfl
  have hadds := announceObject_adds p name (UInt32.ofNat size) false m
  rcases hrun : announceObject (ObjectInfo.buildForSend m.storage p name (UInt32.ofNat size) false)
    (parentArg p) m with ⟨e | k, m₂⟩
  · rw [hrun] at hadds
    have hstream : sendObjectStream p name reader size m = (.error e, m₂) := by
      rw [sendObjectStream, if_neg hbig, Proc.bind_ok (Proc.get_run _)]
      exact Proc.bind_error hrun
    rw [hstream]
    exact hadds
  rw [hrun] at hadds
  obtain ⟨x, hx⟩ := announceObject_answered hrun
  obtain ⟨s, hins, hstore⟩ := hx.inserts
  have hbefore : m₂.session.store = m.session.store ∨
      m.session.store.insert x = some m₂.session.store := by
    rw [hstore]
    split
    · exact .inr hins
    · exact .inl rfl
  have hfilled : ∀ {s : Store} {bytes : Bytes}, Phone.fill m₂.session.store x bytes = some s →
      Store.Adds (Phone.folderOf (parentArg p)) (Utf16.fit 254 name) m.session.store s := by
    intro s bytes hfill
    have hnew := Phone.adds_of_fill hfill hbefore
    rw [hx.parent, hx.name] at hnew
    exact hnew
  have hends : Ends m₂ (sendRequest size reader) x (exec (sendRequest size reader) m₂) :=
    exec_sendRequest hx.waits
  have hexec : Store.Adds (Phone.folderOf (parentArg p)) (Utf16.fit 254 name) m.session.store
      (exec (sendRequest size reader) m₂).2.session.store := by
    generalize exec (sendRequest size reader) m₂ = ended at hends
    cases hends with
    | arrived hok hreceived hfill hsame hstore => exact hstore ▸ hfilled hfill
    | failed hno hsame hstore hnot => exact hstore.symm ▸ hadds
    | lost hlanded hsame hstore =>
        obtain ⟨-, bytes, -, hfill⟩ := hlanded
        exact hstore ▸ hfilled hfill
  rcases @sendObjectStream_announced m k p name size reader m₂ (Nat.le_of_not_lt hbig) hrun with
    ⟨out, m₃, hsent, hok, hstream⟩ | ⟨e, cache, -, hstream⟩
  · rw [hsent] at hexec
    rw [hstream]
    exact hexec
  · rw [hstream]
    exact hexec

theorem lessBut_deleteObject (h : UInt32) (m : Mtp Phone) :
    Store.LessBut [] m.session.store (deleteObject h m).2.session.store := by
  rw [session_deleteObject]
  exact Phone.lessBut_exec_delete m.session h

theorem spotOf_deleteObject (hfaultless : m.session.policy.Faultless) (h : UInt32) :
    (deleteObject h m).2.session.store.spotOf h = none := by
  rw [session_deleteObject]
  exact Phone.spotOf_exec_delete hfaultless h

theorem spotOf_renameObject (hfaultless : m.session.policy.Faultless) (h : UInt32) (name : Str)
    (k : UInt32) : (renameObject h name m).2.session.store.spotOf k =
      (m.session.store.rename h name).spotOf k := by
  have hsession : (renameObject h name m).2.session = (Phone.exec (renameRequest h name)
      m.session).2 := by
    obtain ⟨m', hanswered, ⟨-, hrun⟩ | ⟨-, e, hrun⟩⟩ := renameObject_ends h name m
    · rw [hrun]
      exact hanswered.session
    · rw [hrun]
      exact hanswered.session
  rw [hsession]
  exact Phone.spotOf_exec_rename hfaultless h name k

/-- A rename that fails leaves the names. -/
theorem spotOf_of_renameObject_error {e : Error} {h : UInt32} {name : Str}
    (hfaultless : m.session.policy.Faultless) (hrun : renameObject h name m = (.error e, m'))
    (k : UInt32) : m'.session.store.spotOf k = m.session.store.spotOf k := by
  have hnone : m.session.store.find h = none := by
    by_contra hsome
    obtain ⟨m₁, hok, -⟩ := @renameObject_ok m h name (hfaultless _ _ _)
      (Option.isSome_iff_ne_none.mpr hsome)
    cases hrun.symm.trans hok
  have hspots := spotOf_renameObject hfaultless h name k
  rw [hrun, Store.spotOf_rename_of_absent hnone] at hspots
  exact hspots

/-- A delete that fails leaves the objects. -/
theorem store_of_deleteObject_error {e : Error} {h : UInt32}
    (hfaultless : m.session.policy.Faultless) (hrun : deleteObject h m = (.error e, m')) :
    m'.session.store = m.session.store := by
  have hsession := session_deleteObject h m
  rw [hrun] at hsession
  rcases Phone.exec_delete m.session h with hsame | ⟨hsome, -⟩
  · rw [← hsame, ← hsession]
  · obtain ⟨m₁, hok, -⟩ := deleteObject_ok (hfaultless _ _ _) hsome
    cases hrun.symm.trans hok

end Mtp

namespace Fs

variable {fs fs₁ fs' : Fs Phone} {p : Pending}

/-! ## A send -/

/-- How a send starts: it stops and changes nothing, or the object that it replaces is aside, or that
object is gone. -/
inductive Readied (fs : Fs Phone) (p : Pending) : Except Int (Pending × Bool) × Fs Phone → Prop
  | stopped {rc : Int} {fs₁ : Fs Phone} (hspots : ∀ k, fs₁.store.spotOf k = fs.store.spotOf k) :
      Readied fs p (.error rc, fs₁)
  | kept {exists' : Bool} {fs₁ : Fs Phone}
      (hless : Store.LessBut p.replaces.toList fs.store fs₁.store) :
      Readied fs p (.ok (p, exists'), fs₁)
  | gone {exists' : Bool} {fs₁ : Fs Phone} (hless : Store.LessBut [] fs.store fs₁.store)
      (hgone : ∀ k ∈ p.replaces.toList, fs₁.store.spotOf k = none) :
      Readied fs p (.ok ({ p with replaces := none }, exists'), fs₁)

theorem makeRoom_readied {old : UInt32} (hfaultless : fs.mtp.session.policy.Faultless)
    (hold : p.replaces = some old) : Readied fs p (makeRoom p fs) := by
  have hinfo : Mtp.SameDevice fs.mtp (Mtp.storageInfo fs.mtp).2 := Mtp.storageInfo_same fs.mtp
  have hfaultless' : (Mtp.storageInfo fs.mtp).2.session.policy.Faultless := by
    rw [hinfo.policy]
    exact hfaultless
  obtain ⟨free, oldSize, hroom⟩ := @makeRoom_some fs p old hold
  rw [hroom]
  by_cases htwo : free ≥ p.size
  · rw [if_pos htwo, Proc.bind_ok asideName_run, Proc.bind_ok (tryMtp_run _ _)]
    dsimp only
    have hspots := Mtp.spotOf_renameObject hfaultless' old (asideOf p.name fs.spoolCount)
    rcases hrename : Mtp.renameObject old (asideOf p.name fs.spoolCount)
      (Mtp.storageInfo fs.mtp).2 with ⟨e | ⟨⟩, m⟩
    · apply Readied.stopped
      intro k
      have hsame := Mtp.spotOf_of_renameObject_error hfaultless' hrename k
      rw [hinfo.store] at hsame
      exact hsame
    · apply Readied.kept
      intro k hk
      rw [hold, Option.toList_some, List.mem_singleton] at hk
      have hk' := hspots k
      rw [hrename, Store.spotOf_rename_of_ne hk, hinfo.store] at hk'
      exact .inr hk'
  rw [if_neg htwo]
  by_cases hone : min (free + oldSize) (wordSize - 1) ≥ p.size
  · rw [if_pos hone, Proc.bind_ok (tryMtp_run _ _)]
    dsimp only
    have hless := Mtp.lessBut_deleteObject old (Mtp.storageInfo fs.mtp).2
    have hnone := Mtp.spotOf_deleteObject hfaultless' old
    rcases hdelete : Mtp.deleteObject old (Mtp.storageInfo fs.mtp).2 with ⟨e | ⟨⟩, m⟩
    · apply Readied.stopped
      intro k
      have hsame : m.session.store = fs.store :=
        (Mtp.store_of_deleteObject_error hfaultless' hdelete).trans hinfo.store
      exact congrArg (fun s => s.spotOf k) hsame
    · rw [hdelete, hinfo.store] at hless
      rw [hdelete] at hnone
      have hleft : Store.LessBut [] fs.store m.session.store := hless
      apply Readied.gone hleft
      intro k hk
      rw [hold, Option.toList_some, List.mem_singleton] at hk
      rw [hk]
      exact hnone
  · rw [if_neg hone]
    apply Readied.stopped
    intro k
    exact congrArg (fun s => s.spotOf k) hinfo.store

theorem readyToSend_readied (hfaultless : fs.mtp.session.policy.Faultless) (p : Pending) :
    Readied fs p (readyToSend p fs) := by
  rw [readyToSend, Proc.bind_ok (Proc.get_run _)]
  cases p.broken with
  | some rc => exact .stopped fun _ => rfl
  | none =>
      dsimp only
      by_cases hseeks : fs.host.seeks = true
      · rw [if_pos hseeks]
        cases hold : p.replaces with
        | none =>
            rw [makeRoom, hold]
            exact .kept fun k _ => .inr rfl
        | some old => exact makeRoom_readied hfaultless hold
      · rw [if_neg hseeks]
        exact .stopped fun _ => rfl

/-- The send itself. -/
def stream (p : Pending) (fs : Fs Phone) : Except Error UInt32 × Mtp Phone :=
  Mtp.sendObjectStream p.parent p.name (readerOf fs.host.reading (fs.spoolBytes p.spool)) p.size
    fs.mtp

/-- A send finds its name free: no object but the one that it replaces has the name where the new one
comes, and none has it where the old one gets it back. -/
structure SendApart (fs : Fs Phone) (p : Pending) : Prop where
  new : ∀ a fs₁, readyToSend p fs = (.ok a, fs₁) →
    fs.store.FreeBut (Phone.folderOf (Mtp.parentArg p.parent)) (Utf16.fit 254 p.name)
      p.replaces.toList
  back : ∀ exists' fs₁ old e m, readyToSend p fs = (.ok (p, exists'), fs₁) → p.replaces = some old →
    stream p fs₁ = (.error e, m) → ∀ q name, m.session.store.spotOf old = some (q, name) →
      m.session.store.FreeBut q (Utf16.fit 254 p.name) [old]

/-- A send that replaces nothing leaves the objects that the stream leaves. -/
theorem store_deliver {E : Type} {a : Except E (Int × Pending)} {exists' : Bool}
    (hnone : p.replaces = none)
    (hrun : (deliver p exists' : Proc E (Fs Phone) _) fs = (a, fs')) :
    fs'.store = (stream p fs).2.session.store := by
  rw [deliver, Proc.bind_ok (Proc.get_run _), Proc.bind_ok (tryMtp_run _ _)] at hrun
  rw [stream]
  rcases hstream : Mtp.sendObjectStream p.parent p.name
    (readerOf fs.host.reading (fs.spoolBytes p.spool)) p.size fs.mtp with ⟨e | k, m⟩
  · rw [hstream] at hrun
    dsimp only at hrun
    rw [hnone] at hrun
    cases hrun
    rfl
  · rw [hstream] at hrun
    dsimp only at hrun
    rw [hnone] at hrun
    cases hrun
    rfl

/-- A new object beside objects with distinct names. -/
theorem distinct_of_adds {s s₁ s₂ : Store} {q : UInt32} {name : Str}
    (hadds : Store.Adds q name s₁ s₂) (hdistinct : s.Distinct) (hless : Store.LessBut [] s s₁)
    (hfree : s.FreeBut q name []) : s₂.Distinct := by
  have hapart := hadds.apart hdistinct hless hfree
  apply Store.distinct_of_gone hapart
  · intro k _
    exact .inr rfl
  · intro k hk
    cases hk

/-- **A send that finds its name free keeps the names distinct.** -/
theorem sendPending_distinct {E : Type} {a : Except E (Int × Pending)}
    (hfaultless : fs.mtp.session.policy.Faultless) (hdistinct : fs.store.Distinct)
    (hapart : SendApart fs p)
    (hrun : (sendPending p : Proc E (Fs Phone) _) fs = (a, fs')) : fs'.store.Distinct := by
  have hready := readyToSend_readied hfaultless p
  have hfaultless₁ : (readyToSend p fs).2.mtp.session.policy.Faultless := by
    have htakes := Mtp.takes_faultless
    exact (readyToSend_keeps htakes.toChains (htakes.storageInfo fun _ _ => trivial)
      (htakes.renameObject fun _ _ _ => trivial) p
      (fun old _ => htakes.deleteObject (fun _ _ => trivial) old) fs).device hfaultless
  have hadds := fun (b : Pending) (fs₁ : Fs Phone) => Mtp.sendObjectStream_adds b.parent b.name
    (readerOf fs₁.host.reading (fs₁.spoolBytes b.spool)) b.size fs₁.mtp
  have hfaultless₂ : ∀ (b : Pending) (fs₁ : Fs Phone), fs₁.mtp.session.policy.Faultless →
      (stream b fs₁).2.session.policy.Faultless := by
    intro b fs₁ hfaultless₁
    exact Mtp.takes_faultless.sendObjectStream (fun _ _ => trivial) trivial fs₁.mtp hfaultless₁
  rw [sendPending, Proc.bind_run, Proc.attempt] at hrun
  have hnew := hapart.new
  have hback := hapart.back
  generalize readyToSend p fs = ready at hready hfaultless₁ hrun hnew hback
  cases hready with
  | stopped hspots =>
      cases hrun
      apply Store.distinct_iff_apart.mpr
      apply (Store.distinct_iff_apart.mp hdistinct).of_less
      intro k
      exact .inr (hspots k)
  | @kept exists' fs₁ hless =>
      have hfree := hnew _ _ rfl
      change deliver p exists' fs₁ = (a, fs') at hrun
      cases hold : p.replaces with
      | none =>
          rw [hold, Option.toList_none] at hless hfree
          rw [store_deliver hold hrun]
          exact distinct_of_adds (hadds p fs₁) hdistinct hless hfree
      | some old =>
          have hbeside := (hadds p fs₁).apart hdistinct hless hfree
          rw [hold, Option.toList_some] at hbeside
          have hwilling := hfaultless₂ p fs₁ hfaultless₁
          rcases hstream : stream p fs₁ with ⟨e | k, m⟩
          · -- The old object gets its name back.
            have hends := @deliver_error _ _ _ E exists' _ _ hold hstream
            cases hrun.symm.trans hends
            have hsent : Apart (m.session.store.spotBut [old]) := by
              have hstream' := congrArg (fun out => out.2.session.store.spotBut [old]) hstream
              exact hstream' ▸ hbeside
            rw [hstream] at hwilling
            exact Store.distinct_of_named hsent (hback exists' fs₁ old e m rfl hold hstream)
              (Mtp.spotOf_renameObject hwilling old p.name)
          · -- The old object goes.
            have hends := @deliver_sent _ _ _ _ E exists' _ hold hstream
            cases hrun.symm.trans hends
            have hsent : Apart (m.session.store.spotBut [old]) := by
              have hstream' := congrArg (fun out => out.2.session.store.spotBut [old]) hstream
              exact hstream' ▸ hbeside
            rw [hstream] at hwilling
            apply Store.distinct_of_gone hsent (Mtp.lessBut_deleteObject old m)
            intro k hk
            rw [List.mem_singleton.mp hk]
            exact Mtp.spotOf_deleteObject hwilling old
  | @gone exists' fs₁ hless hgone =>
      have hfree := hnew _ _ rfl
      rw [store_deliver rfl hrun]
      have hleft : fs₁.store.Distinct := by
        apply Store.distinct_iff_apart.mpr
        apply (Store.distinct_iff_apart.mp hdistinct).of_less
        intro k
        exact hless k List.not_mem_nil
      apply distinct_of_adds (hadds { p with replaces := none } fs₁) hleft
      · intro k _
        exact .inr rfl
      · intro k hk
        rcases hless k List.not_mem_nil with hnone | hsame
        · rw [hnone] at hk
          cases hk
        · have hmem := hfree k (hsame.symm.trans hk)
          rw [hgone k hmem] at hk
          cases hk

/-! ## A new folder, and a removal -/

theorem opMkdir_distinct {path : Str} (hdistinct : fs.store.Distinct)
    (hfree : ∀ parent fs₁, resolved (splitParent path).1 fs = (.ok parent, fs₁) →
      fs.store.FreeBut (Phone.folderOf (Mtp.parentArg parent)) (Utf16.fit 254 (splitParent path).2)
        []) : (opMkdir path fs).2.store.Distinct := by
  rw [opMkdir]
  dsimp only
  by_cases hname : (splitParent path).2.isEmpty
  · rw [if_pos hname]
    exact hdistinct
  rw [if_neg hname, Proc.bind_run]
  rcases hrun : resolved (splitParent path).1 fs with ⟨rc | parent, fs₁⟩
  · dsimp only
    rw [store_resolved hrun]
    exact hdistinct
  · dsimp only
    rw [Proc.bind_ok (tryMtp_run _ _)]
    have hadds := Mtp.sendObject_adds parent (splitParent path).2 fs₁.mtp
    have hmade : (Mtp.sendObject parent (splitParent path).2 [] true
        fs₁.mtp).2.session.store.Distinct := by
      apply distinct_of_adds hadds hdistinct
      · intro k _
        exact .inr (congrArg (fun s => s.spotOf k) (store_resolved hrun))
      · exact hfree parent fs₁ hrun
    rcases hfolder : Mtp.sendObject parent (splitParent path).2 [] true fs₁.mtp
      with ⟨e | handle, m⟩
    · rw [hfolder] at hmade
      exact hmade
    · rw [hfolder] at hmade
      exact hmade

theorem removeObject_distinct {path : Str} {wantDir : Bool} (hdistinct : fs.store.Distinct) :
    (removeObject path wantDir fs).2.store.Distinct := by
  rw [removeObject, Proc.bind_run]
  rcases hrun : resolved path fs with ⟨rc | h, fs₁⟩
  · dsimp only
    rw [store_resolved hrun]
    exact hdistinct
  have hdistinct₁ : fs₁.store.Distinct := by
    rw [store_resolved hrun]
    exact hdistinct
  dsimp only
  by_cases hroot : h = root
  · rw [if_pos hroot]
    exact hdistinct₁
  rw [if_neg hroot, Proc.bind_ok (Proc.get_run _)]
  cases hentry : fs₁.tree.get h with
  | none => exact hdistinct₁
  | some e =>
      dsimp only
      by_cases hdir : e.isDir = wantDir
      · rw [if_neg fun hne => hne hdir, Proc.bind_ok (tryMtp_run _ _)]
        have hleft : (Mtp.deleteObject h fs₁.mtp).2.session.store.Distinct := by
          apply Store.distinct_iff_apart.mpr
          apply (Store.distinct_iff_apart.mp hdistinct₁).of_less
          intro k
          exact Mtp.lessBut_deleteObject h fs₁.mtp k List.not_mem_nil
        rcases hdelete : Mtp.deleteObject h fs₁.mtp with ⟨err | u, m⟩
        · rw [hdelete] at hleft
          exact hleft
        · rw [hdelete] at hleft
          exact hleft
      · rw [if_pos hdir]
        exact hdistinct₁

/-! ## A rename -/

namespace Relocation

variable {w : Relocation}

/-- The name that a rename leaves is free: the name of the object aside where the move fails, the old
one of that object where the object gets no new name, and else the name that the object has in the end,
in the folder it has in the end. -/
structure NamesFree (w : Relocation) : Prop where
  aside : w.StopsAtMove → ∀ t q name, w.taken = some t → w.fs.store.spotOf t = some (q, name) →
    w.fs.store.FreeBut q (Utf16.fit 254 w.aside) [t]
  back : ¬ w.StopsAtMove → w.StopsAtName → ∀ t q name, w.taken = some t →
    w.fs.store.spotOf t = some (q, name) → w.fs.store.FreeBut q (Utf16.fit 254 w.newName) [t]
  new : ¬ w.StopsAtMove → ¬ w.StopsAtName → ∀ q name, w.fs.store.spotOf w.handle = some (q, name) →
    w.fs.store.FreeBut (w.dest.getD q)
      (if w.fs.nameOf w.handle = w.newName then name else Utf16.fit 254 w.newName)
      (w.handle :: w.taken.toList)

theorem faultless_cleared (hfaultless : w.fs.mtp.session.policy.Faultless) :
    w.cleared.policy.Faultless := by
  rw [cleared]
  cases w.taken with
  | none => exact hfaultless
  | some t => exact Phone.faultless_exec hfaultless _

theorem faultless_across (hfaultless : w.fs.mtp.session.policy.Faultless) :
    w.across.policy.Faultless := by
  rw [across]
  split
  · exact faultless_cleared hfaultless
  · exact Phone.faultless_exec (faultless_cleared hfaultless) _

/-- Where the rename fails to move its object, only the object aside has another name. -/
theorem distinct_cleared (hclears : w.Clears) (hdistinct : w.fs.store.Distinct)
    (haside : ∀ t q name, w.taken = some t → w.fs.store.spotOf t = some (q, name) →
      w.fs.store.FreeBut q (Utf16.fit 254 w.aside) [t]) : w.cleared.store.Distinct := by
  rw [cleared]
  cases htaken : w.taken with
  | none => exact hdistinct
  | some t =>
      dsimp only
      rw [Phone.store_of_rename_works (hclears t htaken)]
      have hbeside : Apart (w.fs.store.spotBut [t]) := hdistinct.but fun k _ => .inr rfl
      apply Store.distinct_of_named hbeside
      · intro q name hspot
        exact haside t q name htaken hspot
      · intro k
        rfl

/-- An object that gets no new name is not there. -/
theorem across_of_stopsAtName (hfaultless : w.fs.mtp.session.policy.Faultless)
    (hcan : w.fs.mtp.canRename = true) (hd : w.newParent ≠ 0xffffffff) (hclears : w.Clears)
    (hmoves : ¬ w.StopsAtMove) (hstops : w.StopsAtName) (k : UInt32) :
    w.across.store.spotOf k = (w.fs.store.spotOf k).map fun spot =>
      (spot.1, if w.taken = some k then Utf16.fit 254 w.aside else spot.2) := by
  have hnone : w.across.store.find w.handle = none := by
    apply Phone.find_of_rename_not_works (faultless_across hfaultless)
    intro hworks
    exact hstops.2 ⟨hcan, hworks⟩
  have hdisplaced := displaced_across hd hclears hmoves k
  by_cases hk : k = w.handle
  · have hgone : w.across.store.spotOf w.handle = none := by
      rw [Store.spotOf, hnone]
      rfl
    rw [hk] at hdisplaced ⊢
    rw [hgone] at hdisplaced ⊢
    have hnothing := Option.map_eq_none_iff.mp hdisplaced.symm
    rw [hnothing]
    rfl
  · rw [hdisplaced]
    simp only [if_neg hk]

/-- The folder and the name of each object, once the object has its new name. -/
theorem spotOf_renamed (hd : w.newParent ≠ 0xffffffff) (hclears : w.Clears)
    (hmoves : ¬ w.StopsAtMove) (hnamed : ¬ w.StopsAtName)
    (hother : ∀ t, w.taken = some t → t ≠ w.handle) (k : UInt32) :
    w.renamed.store.spotOf k =
      if k = w.handle then (w.fs.store.spotOf w.handle).map fun spot => (w.dest.getD spot.1,
        if w.fs.nameOf w.handle = w.newName then spot.2 else Utf16.fit 254 w.newName)
      else (w.fs.store.spotOf k).map fun spot =>
        (spot.1, if w.taken = some k then Utf16.fit 254 w.aside else spot.2) := by
  have hacross := displaced_across hd hclears hmoves
  have hself : ¬ w.taken = some w.handle := fun htaken => hother w.handle htaken rfl
  rw [renamed]
  by_cases hname : w.fs.nameOf w.handle = w.newName
  · rw [if_pos hname, hacross]
    by_cases hk : k = w.handle
    · simp only [hk, if_neg hself, if_pos hname, if_true]
    · simp only [if_neg hk]
  · have hworks : w.across.Works w.naming := by
      by_contra hnot
      exact hnamed ⟨hname, fun hboth => hnot hboth.2⟩
    have hstore : (Phone.exec w.naming w.across).2.store =
        w.across.store.rename w.handle w.newName := Phone.store_of_rename_works hworks
    rw [if_neg hname, hstore, Store.spotOf_rename, hacross, Option.map_map]
    by_cases hk : k = w.handle
    · simp [Function.comp_def, hk, hname]
    · simp [Function.comp_def, hk]

theorem lessBut_landed (w : Relocation) : Store.LessBut [] w.renamed.store w.landed.store := by
  rw [landed]
  cases w.taken with
  | none => exact fun k _ => .inr rfl
  | some t => exact Phone.lessBut_exec_delete w.renamed t

theorem spotOf_landed (hfaultless : w.fs.mtp.session.policy.Faultless) {t : UInt32}
    (htaken : w.taken = some t) : w.landed.store.spotOf t = none := by
  have hwilling : w.renamed.policy.Faultless := by
    rw [renamed]
    split
    · exact faultless_across hfaultless
    · exact Phone.faultless_exec (faultless_across hfaultless) _
  rw [landed, htaken]
  exact Phone.spotOf_exec_delete hwilling t

/-- **A rename that leaves a free name keeps the names distinct.** -/
theorem Ends.distinct {out : Except Int Int × Fs Phone} (hends : w.Ends out)
    (hfaultless : w.fs.mtp.session.policy.Faultless) (hcan : w.fs.mtp.canRename = true)
    (hd : w.newParent ≠ 0xffffffff) (hother : ∀ t, w.taken = some t → t ≠ w.handle)
    (hfree : w.Clears → w.NamesFree) (hdistinct : w.fs.store.Distinct) : out.2.store.Distinct := by
  cases hends with
  | unmoved hclears hstore =>
      rw [hstore]
      exact hdistinct
  | move hclears hstops hstore =>
      rw [hstore]
      exact distinct_cleared hclears hdistinct ((hfree hclears).aside hstops)
  | name hclears hmoves hstops hback hleft =>
      have hacross := across_of_stopsAtName hfaultless hcan hd hclears hmoves hstops
      by_cases hputs : ∃ t, w.taken = some t ∧ w.PutsNameBack t
      · obtain ⟨t, htaken, hputs⟩ := hputs
        rw [hback t htaken hputs]
        have hbeside : ∀ k, k ≠ t → w.across.store.spotOf k = w.fs.store.spotOf k := by
          intro k hk
          have hne : ¬ w.taken = some k := by
            rw [htaken, Option.some_inj]
            exact fun hsame => hk hsame.symm
          rw [hacross]
          simp only [if_neg hne]
          exact Option.map_id'
        have hapart : Apart (w.across.store.spotBut [t]) := by
          apply hdistinct.but
          intro k hk
          exact .inr (hbeside k fun hsame => hk (List.mem_singleton.mpr hsame))
        apply Store.distinct_of_named hapart
        · intro q old hold k hk
          by_contra hne
          rw [List.mem_singleton] at hne
          rw [hacross] at hold
          obtain ⟨spot, hspot, hsame⟩ := Option.map_eq_some_iff.mp hold
          cases hsame
          rw [hbeside k hne] at hk
          have hmem := (hfree hclears).back hmoves hstops t _ _ htaken hspot k hk
          exact hne (List.mem_singleton.mp hmem)
        · intro k
          rfl
      · have hnot : ∀ t, w.taken = some t → ¬ w.PutsNameBack t := by
          intro t htaken hyes
          exact hputs ⟨t, htaken, hyes⟩
        rw [hleft hnot]
        apply Store.distinct_iff_apart.mpr
        apply (Store.distinct_iff_apart.mp hdistinct).of_less
        intro k
        by_cases htaken : w.taken = some k
        · left
          have hgone : (Phone.exec w.naming w.across).2.store.find k = none := by
            have hwilling := Phone.faultless_exec (faultless_across hfaultless) w.naming
            apply Phone.find_of_rename_not_works hwilling
            intro hworks
            exact hnot k htaken ⟨hcan, hworks⟩
          have hsame := (store_across_naming (Phone.idles_of_faultless hfaultless)
            fun hworks => hstops.2 ⟨hcan, hworks⟩).2
          rw [hsame] at hgone
          rw [Store.spotOf, hgone]
          rfl
        · right
          rw [hacross]
          simp only [if_neg htaken]
          exact Option.map_id'
  | done hclears hmoves hnamed hstore =>
      rw [hstore]
      have hlanded := lessBut_landed w
      apply Store.distinct_iff_apart.mpr
      apply (Store.distinct_iff_apart.mp hdistinct).of_but_one w.handle
      · intro k hk
        by_cases htaken : w.taken = some k
        · exact .inl (spotOf_landed hfaultless htaken)
        · rcases hlanded k List.not_mem_nil with hnone | hsame
          · exact .inl hnone
          · right
            rw [hsame, spotOf_renamed hd hclears hmoves hnamed hother, if_neg hk]
            simp only [if_neg htaken]
            exact Option.map_id'
      · intro k spot hk hhandle
        by_contra hne
        have htaken : ¬ w.taken = some k := by
          intro htaken
          rw [spotOf_landed hfaultless htaken] at hk
          cases hk
        have hwas : w.fs.store.spotOf k = some spot := by
          rcases hlanded k List.not_mem_nil with hnone | hsame
          · rw [hnone] at hk
            cases hk
          · rw [hsame, spotOf_renamed hd hclears hmoves hnamed hother, if_neg hne] at hk
            simp only [if_neg htaken] at hk
            exact (@Option.map_id' _ (w.fs.store.spotOf k)).symm.trans hk
        rcases hlanded w.handle List.not_mem_nil with hnone | hsame
        · rw [hnone] at hhandle
          cases hhandle
        · rw [hsame, spotOf_renamed hd hclears hmoves hnamed hother, if_pos rfl] at hhandle
          obtain ⟨old, hold, rfl⟩ := Option.map_eq_some_iff.mp hhandle
          have hmem := (hfree hclears).new hmoves hnamed old.1 old.2 hold k hwas
          rcases List.mem_cons.mp hmem with hsame | hmem
          · exact hne hsame
          · exact htaken (Option.mem_toList.mp hmem)

end Relocation

/-- **A rename that leaves a free name keeps the names distinct.** -/
theorem opRename_distinct {source target : Str} (hknows : KnowsKinds fs)
    (hfaultless : fs.mtp.session.policy.Faultless) (hcan : fs.mtp.canRename = true)
    (hdistinct : fs.store.Distinct)
    (hfree : ∀ w, Walked fs source target w → w.Clears → w.NamesFree) :
    (opRename source target fs).2.store.Distinct := by
  rcases walked_or_same fs source target with ⟨w, hwalked⟩ | hsame
  · obtain ⟨hstore, hd, hends⟩ := hwalked.rename hknows (Phone.idles_of_faultless hfaultless)
    obtain ⟨fs₁, fs₂, fs₃, hsource, hold, hnew, htarget⟩ := hwalked.walks
    have hdevice : Mtp.SameDevice fs.mtp w.fs.mtp := (device_resolved hsource).trans
      ((device_resolved hold).trans ((device_resolved hnew).trans (device_resolve htarget)))
    apply hends.distinct
    · rw [hdevice.policy]
      exact hfaultless
    · rw [Mtp.canRename, hdevice.info]
      exact hcan
    · exact hd
    · intro t htaken
      exact (hwalked.other t htaken).1
    · exact hfree w hwalked
    · rw [hstore]
      exact hdistinct
  · rw [hsame]
    exact hdistinct

/-! ## Every call of a run -/

/-- The names that a call gives are free where they come. -/
def GivesFree (fs : Fs Phone) : Call → Prop
  | .mkdir path => ∀ parent fs₁, resolved (splitParent path).1 fs = (.ok parent, fs₁) →
      fs.store.FreeBut (Phone.folderOf (Mtp.parentArg parent)) (Utf16.fit 254 (splitParent path).2)
        []
  | .rename source target => ∀ w, Walked fs source target w → w.Clears → w.NamesFree
  | call => ∀ p fs' q fs₁, Sends fs call p fs' q fs₁ → SendApart fs' p

theorem sender_distinct (hread : fs.mtp.partialRead ∈ Mtp.readsOnly)
    (hfaultless : fs.mtp.session.policy.Faultless) {call : Call} (hdelivers : call.delivers = true)
    (hfree : ∀ p fs' q fs₁, Sends fs call p fs' q fs₁ → SendApart fs' p)
    (hdistinct : fs.store.Distinct) : (call.number fs).2.store.Distinct := by
  rcases sends_or_same hread hdelivers with hsame | ⟨p, fs', q, fs₁, hsends, hsame⟩
  · rw [hsame]
    exact hdistinct
  · obtain ⟨rc, n, fs₂, hsend, hrun, hstore, -⟩ := hsends.ends
    rw [hrun, hstore]
    apply sendPending_distinct _ _ (hfree p fs' q fs₁ hsends) hsend
    · rw [hsame.policy]
      exact hfaultless
    · rw [store, hsame.store]
      exact hdistinct

/-- **One call keeps the names distinct** when the names it gives are free. -/
theorem number_distinct (hread : fs.mtp.partialRead ∈ Mtp.readsOnly) (hknows : KnowsKinds fs)
    (hfaultless : fs.mtp.session.policy.Faultless) (hcan : fs.mtp.canRename = true) {call : Call}
    (hfree : GivesFree fs call) (hdistinct : fs.store.Distinct) :
    (call.number fs).2.store.Distinct := by
  cases hasks : call.asks with
  | true =>
      rw [asking_spares hread hasks]
      exact hdistinct
  | false =>
      cases call with
      | truncate path size => exact sender_distinct hread hfaultless rfl hfree hdistinct
      | flush path fi => exact sender_distinct hread hfaultless rfl hfree hdistinct
      | release path fi => exact sender_distinct hread hfaultless rfl hfree hdistinct
      | rename source target => exact opRename_distinct hknows hfaultless hcan hdistinct hfree
      | unlink path => exact removeObject_distinct hdistinct
      | rmdir path => exact removeObject_distinct hdistinct
      | mkdir path => exact opMkdir_distinct hdistinct hfree
      | _ => cases hasks

/-- What a run of calls on such a device keeps. -/
structure Orderly (fs : Fs Phone) : Prop where
  informed : Informed fs
  reads : fs.mtp.partialRead ∈ Mtp.readsOnly
  faultless : fs.mtp.session.policy.Faultless
  renames : fs.mtp.canRename = true
  distinct : fs.store.Distinct

theorem Orderly.step {e : Host × Call} (hfs : Orderly fs)
    (hfree : GivesFree { fs with host := e.1 } e.2) : Orderly (fs.step e) := by
  have hfacts := (call_effect (respects_of_takes Mtp.takes_facts fun _ => ⟨rfl, rfl, rfl, rfl⟩)
    fs e).device Mtp.takes_facts.toChains
  refine ⟨hfs.informed.step e, step_partialRead hfs.reads e, ?_, ?_, ?_⟩
  · exact (call_effect (respects_of_takes Mtp.takes_faultless fun _ h => h) fs e).device
      Mtp.takes_faultless.toChains hfs.faultless
  · have hinfo : (fs.step e).mtp.info = fs.mtp.info := hfacts.info
    rw [Mtp.canRename, hinfo]
    exact hfs.renames
  · exact @number_distinct { fs with host := e.1 } hfs.reads hfs.informed.knows hfs.faultless
      hfs.renames e.2 hfree hfs.distinct

/-- **The names of a folder stay distinct** over every run on a device that does every operation, when
each call finds free the names that it gives. -/
theorem names_stay_apart {m : Mtp Phone} (hread : m.partialRead ∈ Mtp.readsOnly)
    (hfaultless : m.session.policy.Faultless) (hcan : m.canRename = true)
    (hdistinct : m.session.store.Distinct) (host : Host) {calls : List (Host × Call)}
    (hmeets : Run.Meets step (fun fs e => GivesFree { fs with host := e.1 } e.2) (start m host)
      calls) :
    ∀ before rest, calls = before ++ rest → ((start m host).run before).store.Distinct := by
  intro before rest hcalls
  rw [hcalls] at hmeets
  have hinv : ∀ fs (e : Host × Call), Orderly fs → GivesFree { fs with host := e.1 } e.2 →
      Orderly (fs.step e) := by
    intro fs e hfs hfree
    exact hfs.step hfree
  have hstart : Orderly (start m host) :=
    ⟨informed_start m host, hread, hfaultless, hcan, hdistinct⟩
  exact ((Run.Meets.append.mp hmeets).1.invariant hinv hstart).distinct

/-! ## Two objects of one name -/

/-- A program makes a folder with a file in it and a file beside it, writes the second one again,
and moves it onto the first. -/
def movedInside : List (Host × Call) :=
  [(Host.obliging, .mkdir ['/', 'd']), (Host.obliging, .create ['/', 'd', '/', 'a']),
    (Host.obliging, .release ['/', 'd', '/', 'a'] none), (Host.obliging, .create ['/', 'b']),
    (Host.obliging, .release ['/', 'b'] none),
    (Host.obliging, .opens ['/', 'b'] (Oflag.WRONLY ||| Oflag.TRUNC)),
    (Host.obliging, .release ['/', 'b'] none),
    (Host.obliging, .rename ['/', 'b'] ['/', 'd', '/', 'a'])]

/-- The state before one of these calls. -/
def beforeCall (n : Nat) : Fs Phone :=
  reached emptyMount Host.obliging (movedInside.take n) Host.obliging

/-- The walks of the rename, from the state before it. -/
def walkedTo : Except Int (Option UInt32) × Fs Phone :=
  (resolve ['/', 'd', '/', 'a'] : Proc Int (Fs Phone) _)
    (resolved ['/', 'd'] (resolved ['/'] (resolved ['/', 'b'] (beforeCall 7)).2).2).2

/-- What the walks of the rename find. -/
theorem walked_inside {w : Relocation}
    (hwalked : Walked (beforeCall 7) ['/', 'b'] ['/', 'd', '/', 'a'] w) :
    w.handle = 4 ∧ w.newName = ['a'] ∧ w.taken = some 2 ∧ w.dest = some 1 ∧ w.fs = walkedTo.2 := by
  obtain ⟨fs₁, fs₂, fs₃, hsource, hold, hnew, htarget⟩ := hwalked.walks
  have hname : w.newName = ['a'] := hwalked.newName.symm
  have hfs₁ : fs₁ = (resolved ['/', 'b'] (beforeCall 7)).2 := congrArg Prod.snd hsource.symm
  have hfs₂ : fs₂ = (resolved ['/'] fs₁).2 := congrArg Prod.snd hold.symm
  have hfs₃ : fs₃ = (resolved ['/', 'd'] fs₂).2 := congrArg Prod.snd hnew.symm
  have hhandle : (resolved ['/', 'b'] (beforeCall 7)).1 = .ok 4 := by decide +kernel
  have houter : (resolved ['/'] (resolved ['/', 'b'] (beforeCall 7)).2).1 = .ok root := by
    decide +kernel
  have hinner : (resolved ['/', 'd']
      (resolved ['/'] (resolved ['/', 'b'] (beforeCall 7)).2).2).1 = .ok 1 := by decide +kernel
  have htaken : walkedTo.1 = .ok (some 2) := by decide +kernel
  have hend : walkedTo = (.ok w.taken, w.fs) := by
    rw [hfs₃, hfs₂, hfs₁] at htarget
    exact htarget
  have hold' : (resolved ['/'] fs₁).1 = .ok w.oldParent := congrArg Prod.fst hold
  have hnew' : (resolved ['/', 'd'] fs₂).1 = .ok w.newParent := congrArg Prod.fst hnew
  rw [hfs₁, houter] at hold'
  rw [hfs₂, hfs₁, hinner] at hnew'
  rw [hsource] at hhandle
  rw [hend] at htaken ⊢
  refine ⟨Except.ok.inj hhandle, hname, Except.ok.inj htaken, ?_, rfl⟩
  rw [Relocation.dest, ← Except.ok.inj hold', ← Except.ok.inj hnew']
  rfl

/-- A close of a known entry finds its name free, and its stream works if it replaces an object. -/
theorem closes_apart {fs : Fs Phone} {path : Str} {p : Pending} (hp : fs.pending path = some p)
    (hnew : (fs.without path).store.FreeBut (Phone.folderOf (Mtp.parentArg p.parent))
      (Utf16.fit 254 p.name) p.replaces.toList)
    (hworks : p.replaces = none ∨
      (stream p (readyToSend p (fs.without path)).2).1.toOption.isSome = true) :
    GivesFree fs (.release path none) := by
  intro p' fs' q fs₁ hsends
  cases hsends with
  | release hfi hp' hunsent hsend =>
      cases hp.symm.trans hp'
      constructor
      · intro a fs₁ _
        exact hnew
      · intro exists' fs₁ old e m hready hold hfails
        rcases hworks with hnone | hworks
        · rw [hnone] at hold
          cases hold
        · rw [hready, hfails] at hworks
          cases hworks

theorem names_stay_apart_inside :
    ((start emptyMount Host.obliging).run movedInside).store.Distinct := by
  have hmeets : Run.Meets step (fun fs e => GivesFree { fs with host := e.1 } e.2)
      (start emptyMount Host.obliging) movedInside := by
    refine ⟨?_, ?_, ?_, ?_, ?_, ?_, ?_, ?_, trivial⟩
    · intro parent fs₁ _ k hk
      cases hk
    · intro p fs' q fs₁ hsends
      cases hsends
    · have hentry : (beforeCall 2).pending ['/', 'd', '/', 'a'] =
          some ⟨1, ['a'], 0, 0, none, none, none, false⟩ := by decide +kernel
      exact closes_apart hentry (by decide +kernel) (.inl rfl)
    · intro p fs' q fs₁ hsends
      cases hsends
    · have hentry : (beforeCall 4).pending ['/', 'b'] =
          some ⟨0, ['b'], 1, 0, none, none, none, false⟩ := by decide +kernel
      exact closes_apart hentry (by decide +kernel) (.inl rfl)
    · intro p fs' q fs₁ hsends
      cases hsends
    · -- The object that the send replaces has the name.
      have hentry : (beforeCall 6).pending ['/', 'b'] =
          some ⟨0, ['b'], 2, 0, none, some 3, none, false⟩ := by decide +kernel
      exact closes_apart hentry (by decide +kernel) (.inr (by decide +kernel))
    · intro w hwalked hclears
      obtain ⟨hhandle, hname, htaken, hdest, hfs⟩ := walked_inside hwalked
      have hspot₂ : w.fs.store.spotOf 2 = some (1, ['a']) := by
        rw [hfs]
        decide +kernel
      have hspot₄ : w.fs.store.spotOf 4 = some (0, ['b']) := by
        rw [hfs]
        decide +kernel
      constructor
      · intro _ t q name ht hspot
        cases htaken.symm.trans ht
        cases hspot₂.symm.trans hspot
        rw [Relocation.aside, hname, hfs]
        decide +kernel
      · intro _ _ t q name ht hspot
        cases htaken.symm.trans ht
        cases hspot₂.symm.trans hspot
        rw [hname, hfs]
        decide +kernel
      · intro _ _ q name hspot
        rw [hhandle] at hspot ⊢
        cases hspot₄.symm.trans hspot
        rw [hname, htaken, hdest, hfs]
        decide +kernel
  exact names_stay_apart (by decide) (fun _ _ _ => rfl) (by decide +kernel)
    (Store.distinct_iff_apart.mpr fun k k' spot hk => by cases hk) Host.obliging hmeets movedInside []
    rfl

/-- A rename onto the path of a file that is still to be sent does not know that file, and the file
comes beside it. -/
theorem rename_onto_unsent_file :
    ¬ ((start emptyMount Host.obliging).run
      [(Host.obliging, .create ['/', 'b']), (Host.obliging, .release ['/', 'b'] none),
        (Host.obliging, .create ['/', 'a']), (Host.obliging, .rename ['/', 'b'] ['/', 'a']),
        (Host.obliging, .release ['/', 'a'] none)]).store.Distinct := by
  intro hdistinct
  have hroot := hdistinct root
  revert hroot
  decide +kernel

end Fs

end Bsdroid
