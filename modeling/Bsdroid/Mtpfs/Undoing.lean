import Bsdroid.Mtpfs.Sparing

/-!
# A rename that fails

A rename moves the object that has the new name aside, moves its object to the new folder and
gives it the new name, and it can stop at each step.  The source puts the object that moved aside back
only when the device refuses the new name: not when the device cannot rename, and not when the move
fails.  It never moves the object back to its folder.

Nothing changed its folder or its name exactly when what the call leaves is what was there
(`Fs.rename_undone_iff`).
-/

namespace Bsdroid

/-! ## An operation that works -/

namespace Phone

variable {p : Phone} {r : Request} {h q storage : UInt32} {name : Str}

/-- From here on every fault of the device is without effect. -/
def Idles (p : Phone) : Prop :=
  ∀ more s r f, p.policy.fault (p.log ++ more) s r = some f → f.Idle

theorem Idles.exec (hidle : p.Idles) (r : Request) : (exec r p).2.Idles := by
  intro more s r' f hfault
  rw [(exec_served p r).policy, exec_log, List.append_assoc] at hfault
  exact hidle _ s r' f hfault

/-- What works met no fault. -/
theorem exec_of_works (hworks : p.Works r) :
    exec r p = ((p.perform r).1, (p.perform r).2.record r) := by
  obtain ⟨out, hout, hok⟩ := hworks
  cases hfault : p.policy.fault p.log p.store r with
  | none => rw [exec, hfault]
  | some f =>
      rw [exec, hfault] at hout
      cases f with
      | code c fails =>
          cases hout
          rw [refuse_isOk fails] at hok
          cases hok
      | transport e => cases hout
      | lost e => cases hout

/-- A device whose faults have no effect, and that does not do the operation, holds what it
held, when it holds that where it refuses the operation. -/
theorem store_of_not_works (hidle : p.Idles) (hnot : ¬ p.Works r)
    (hrefuses : (∀ out, (p.perform r).1 = .ok out → out.isOk = false) →
      (p.perform r).2.store = p.store) : (exec r p).2.store = p.store := by
  cases hfault : p.policy.fault p.log p.store r with
  | none =>
      have hexec : exec r p = ((p.perform r).1, (p.perform r).2.record r) := by
        rw [exec, hfault]
      rw [hexec]
      apply hrefuses
      intro out hout
      by_contra hok
      rw [Bool.not_eq_false] at hok
      exact hnot ⟨out, by rw [hexec]; exact hout, hok⟩
  | some f =>
      have hnow := hidle [] p.store r f (by rw [List.append_nil]; exact hfault)
      rw [exec, hfault]
      cases f with
      | code c fails => rfl
      | transport e => rfl
      | lost e => exact hnow.elim

theorem perform_rename (p : Phone) (h : UInt32) (name : Str) :
    p.perform (Mtp.renameRequest h name) =
      (.ok (p.serve Op.setObjectPropValue [h, Property.objectFileName.toUInt32]
          (pushString name)).1,
        (p.serve Op.setObjectPropValue [h, Property.objectFileName.toUInt32]
          (pushString name)).2) := by
  have hreceived := Mtp.received_bytes "SetObjectPropValue" Op.setObjectPropValue
    [h, Property.objectFileName.toUInt32] (Mtp.length_pushString_le name)
  rw [perform, Mtp.renameRequest, hreceived]

/-- **A rename that works** gives the object its name. -/
theorem store_of_rename_works (hworks : p.Works (Mtp.renameRequest h name)) :
    (exec (Mtp.renameRequest h name) p).2.store = p.store.rename h name := by
  have hexec := exec_of_works hworks
  obtain ⟨out, hout, hok⟩ := hworks
  rw [hexec] at hout ⊢
  rw [perform_rename, Mtp.serve_rename] at hout ⊢
  by_cases hfind : (p.store.find h).isSome
  · rw [if_pos hfind]
    rfl
  · rw [if_neg hfind] at hout
    cases hout
    cases hok

theorem store_of_rename_not_works (hidle : p.Idles)
    (hnot : ¬ p.Works (Mtp.renameRequest h name)) :
    (exec (Mtp.renameRequest h name) p).2.store = p.store := by
  refine store_of_not_works hidle hnot fun hrefuses => ?_
  rw [perform_rename, Mtp.serve_rename] at hrefuses ⊢
  by_cases hfind : (p.store.find h).isSome
  · rw [if_pos hfind] at hrefuses
    cases hrefuses _ rfl
  · rw [if_neg hfind]

/-- **A move that works** puts the object into the folder. -/
theorem store_of_move_works (hq : q ≠ 0xffffffff)
    (hworks : p.Works (Mtp.moveRequest storage h q)) :
    p.store.move h q = some (exec (Mtp.moveRequest storage h q) p).2.store := by
  have hexec := exec_of_works hworks
  obtain ⟨out, hout, hok⟩ := hworks
  rw [hexec] at hout ⊢
  change Except.ok (p.serve Op.moveObject [h, storage, Mtp.parentArg q] []).1 = _ at hout
  change _ = some (p.serve Op.moveObject [h, storage, Mtp.parentArg q] []).2.store
  rw [Mtp.serve_move p h storage hq] at hout ⊢
  cases hmove : p.store.move h q with
  | some s => rfl
  | none =>
      rw [hmove] at hout
      cases hout
      cases hok

theorem store_of_move_not_works (hq : q ≠ 0xffffffff) (hidle : p.Idles)
    (hnot : ¬ p.Works (Mtp.moveRequest storage h q)) :
    (exec (Mtp.moveRequest storage h q) p).2.store = p.store := by
  refine store_of_not_works hidle hnot fun hrefuses => ?_
  change (∀ out, Except.ok (p.serve Op.moveObject [h, storage, Mtp.parentArg q] []).1 = .ok out →
    out.isOk = false) at hrefuses
  change (p.serve Op.moveObject [h, storage, Mtp.parentArg q] []).2.store = _
  rw [Mtp.serve_move p h storage hq] at hrefuses ⊢
  cases hmove : p.store.move h q with
  | some s =>
      rw [hmove] at hrefuses
      cases hrefuses _ rfl
  | none => rfl

end Phone

/-! ## The folder and the name of an object -/

namespace Store

variable {s s' s'' : Store} {h d t : UInt32} {dest taken : Option UInt32} {name name' : Str}

/-- The folder of an object, and its name. -/
def spotOf (s : Store) (h : UInt32) : Option (UInt32 × Str) :=
  (s.find h).map fun x => (x.parent, x.name)

theorem spotOf_rename (k : UInt32) : (s.rename h name).spotOf k =
    (s.spotOf k).map fun spot => (spot.1, if k = h then Utf16.fit 254 name else spot.2) := by
  rw [spotOf, spotOf, find_rename, Option.map_map, Option.map_map]
  congr 1
  funext x
  by_cases hk : k = h
  · simp [Function.comp_apply, hk]
  · simp [Function.comp_apply, hk]

theorem spotOf_move (hmove : s.move h d = some s') (k : UInt32) :
    s'.spotOf k = (s.spotOf k).map fun spot => (if k = h then d else spot.1, spot.2) := by
  rw [spotOf, spotOf, find_move hmove, Option.map_map, Option.map_map]
  congr 1
  funext x
  by_cases hk : k = h
  · simp [Function.comp_apply, hk]
  · simp [Function.comp_apply, hk]

/-- Every object has the same folder and the same name in both stores. -/
def SameSpots (s s' : Store) : Prop := ∀ k, s'.spotOf k = s.spotOf k

theorem sameSpots_refl (s : Store) : SameSpots s s := fun _ => rfl

/-- What a rename displaced so far: the object `h` is in the folder `dest`, and the object `taken`
has a name, where there is one. -/
def Displaced (h : UInt32) (dest taken : Option UInt32) (name : Str) (s s' : Store) : Prop :=
  ∀ k, s'.spotOf k = (s.spotOf k).map fun spot =>
    (if k = h then dest.getD spot.1 else spot.1, if taken = some k then Utf16.fit 254 name else spot.2)

theorem displaced_none (h : UInt32) (name : Str) (s : Store) : Displaced h none none name s s := by
  intro k
  cases s.spotOf k with
  | none => rfl
  | some spot => simp

theorem Displaced.rename (hmoved : Displaced h dest taken name s s')
    (htaken : taken = none ∨ taken = some t) :
    Displaced h dest (some t) name' s (s'.rename t name') := by
  intro k
  rw [spotOf_rename, hmoved k, Option.map_map]
  congr 1
  funext spot
  have hsides : k = t ↔ t = k := eq_comm
  rcases htaken with rfl | rfl
  · simp [Function.comp_apply, hsides]
  · by_cases hk : t = k
    · simp [Function.comp_apply, hk]
    · simp [Function.comp_apply, hk, Ne.symm hk]

theorem Displaced.move (hmoved : Displaced h none taken name s s') (hmove : s'.move h d = some s'') :
    Displaced h (some d) taken name s s'' := by
  intro k
  rw [spotOf_move hmove, hmoved k, Option.map_map]
  congr 1
  funext spot
  by_cases hk : k = h
  · simp [Function.comp_apply, hk]
  · simp [Function.comp_apply, hk]

/-- The object under a handle, if there is one, has this name once a device cut it. -/
def Named (s : Store) (h : UInt32) (name : Str) : Prop :=
  ∀ x, s.find h = some x → x.name = Utf16.fit 254 name

/-- The object under a handle, if there is one, is in this folder. -/
def In (s : Store) (h d : UInt32) : Prop := ∀ x, s.find h = some x → x.parent = d

/-- **Nothing is displaced** when each object was where it is now. -/
theorem Displaced.same_iff (hmoved : Displaced h dest taken name s s') :
    SameSpots s s' ↔ (∀ d, dest = some d → s.In h d) ∧ ∀ t, taken = some t → s.Named t name := by
  have hkey : ∀ k x, s.find k = some x → (s'.spotOf k = s.spotOf k ↔
      (if k = h then dest.getD x.parent else x.parent) = x.parent ∧
        (if taken = some k then Utf16.fit 254 name else x.name) = x.name) := by
    intro k x hx
    rw [hmoved k, spotOf, hx]
    simp only [Option.map_some, Option.some.injEq, Prod.mk.injEq]
  constructor
  · intro hsame
    constructor
    · intro d hdest x hx
      have hparent := ((hkey h x hx).mp (hsame h)).1
      rw [if_pos rfl, hdest, Option.getD_some] at hparent
      exact hparent.symm
    · intro t htaken x hx
      have hname := ((hkey t x hx).mp (hsame t)).2
      rw [if_pos htaken] at hname
      exact hname.symm
  · intro hthere k
    obtain ⟨hin, hnamed⟩ := hthere
    cases hx : s.find k with
    | none => rw [hmoved k, spotOf, hx, Option.map_none, Option.map_none]
    | some x =>
        refine (hkey k x hx).mpr ⟨?_, ?_⟩
        · by_cases hk : k = h
          · rw [if_pos hk]
            cases hdest : dest with
            | none => rfl
            | some d => exact (hin d hdest x (hk ▸ hx)).symm
          · rw [if_neg hk]
        · by_cases hk : taken = some k
          · rw [if_pos hk]
            exact (hnamed k hk x hx).symm
          · rw [if_neg hk]

end Store

namespace Fs

variable {fs fs₁ fs' : Fs Phone} {source target : Str}

/-! ## How a rename ends -/

/-- What the walks of a rename find: an object, its folder, the new folder, and what has the new
name there. -/
structure Relocation where
  handle : UInt32
  oldParent : UInt32
  newParent : UInt32
  newName : Str
  taken : Option UInt32
  fs : Fs Phone

namespace Relocation

variable (w : Relocation)

/-- The name of an object that moves aside. -/
def aside : Str := asideOf w.newName w.fs.spoolCount

/-- What has the new name moves aside. -/
def Clears : Prop := ∀ t, w.taken = some t → w.fs.mtp.session.Works (Mtp.renameRequest t w.aside)

/-- The device then. -/
def cleared : Phone :=
  match w.taken with
  | some t => (Phone.exec (Mtp.renameRequest t w.aside) w.fs.mtp.session).2
  | none => w.fs.mtp.session

/-- The move to the new folder. -/
def moving : Request := Mtp.moveRequest w.fs.mtp.storage w.handle w.newParent

/-- The folders differ, and the object does not come to the new one. -/
def StopsAtMove : Prop :=
  w.newParent ≠ w.oldParent ∧ ¬ (w.fs.mtp.canMove = true ∧ w.cleared.Works w.moving)

/-- The device once the object is in the new folder. -/
def across : Phone :=
  if w.newParent = w.oldParent then w.cleared else (Phone.exec w.moving w.cleared).2

/-- The change of the name. -/
def naming : Request := Mtp.renameRequest w.handle w.newName

/-- The names differ, and the object does not get the new one. -/
def StopsAtName : Prop :=
  w.fs.nameOf w.handle ≠ w.newName ∧ ¬ (w.fs.mtp.canRename = true ∧ w.across.Works w.naming)

/-- The object that moved aside gets its name again. -/
def PutsNameBack (t : UInt32) : Prop :=
  w.fs.mtp.canRename = true ∧
    (Phone.exec w.naming w.across).2.Works (Mtp.renameRequest t w.newName)

/-- The device once the object has its new name. -/
def renamed : Phone :=
  if w.fs.nameOf w.handle = w.newName then w.across else (Phone.exec w.naming w.across).2

/-- The device once the object that moved aside was removed. -/
def landed : Phone :=
  match w.taken with
  | some t => (Phone.exec (Mtp.deleteRequest t) w.renamed).2
  | none => w.renamed

/-- Where the rename stops, each object is in the folder it was in, and has the name it had. -/
structure Undone : Prop where
  move : w.StopsAtMove → ∀ t, w.taken = some t → w.fs.store.Named t w.aside
  crossed : ¬ w.StopsAtMove → w.StopsAtName → w.newParent ≠ w.oldParent →
    w.fs.store.In w.handle w.newParent
  restored : ¬ w.StopsAtMove → w.StopsAtName → ∀ t, w.taken = some t → w.PutsNameBack t →
    w.fs.store.Named t w.newName
  left : ¬ w.StopsAtMove → w.StopsAtName → ∀ t, w.taken = some t → ¬ w.PutsNameBack t →
    w.fs.store.Named t w.aside

/-- How the rename ends, once its walks are done. -/
inductive Ends : Except Int Int × Fs Phone → Prop
  | unmoved {rc : Int} {fs' : Fs Phone} (hclears : ¬ w.Clears) (hstore : fs'.store = w.fs.store) :
      Ends (.error rc, fs')
  | move {rc : Int} {fs' : Fs Phone} (hclears : w.Clears) (hstops : w.StopsAtMove)
      (hstore : fs'.store = w.cleared.store) : Ends (.error rc, fs')
  | name {rc : Int} {fs' : Fs Phone} (hclears : w.Clears) (hmoves : ¬ w.StopsAtMove)
      (hstops : w.StopsAtName)
      (hback : ∀ t, w.taken = some t → w.PutsNameBack t →
        fs'.store = w.across.store.rename t w.newName)
      (hleft : (∀ t, w.taken = some t → ¬ w.PutsNameBack t) → fs'.store = w.across.store) :
      Ends (.error rc, fs')
  | done {n : Int} {fs' : Fs Phone} (hclears : w.Clears) (hmoves : ¬ w.StopsAtMove)
      (hnamed : ¬ w.StopsAtName) (hstore : fs'.store = w.landed.store) : Ends (.ok n, fs')

variable {w}

/-! ### The store at each end -/

theorem displaced_cleared (hclears : w.Clears) :
    Store.Displaced w.handle none w.taken w.aside w.fs.store w.cleared.store := by
  have hstart := Store.displaced_none w.handle w.aside w.fs.store
  rw [cleared]
  cases htaken : w.taken with
  | none => exact hstart
  | some t =>
      dsimp only
      rw [Phone.store_of_rename_works (hclears t htaken)]
      exact hstart.rename (.inl rfl)

theorem idles_cleared (hidle : w.fs.mtp.session.Idles) : w.cleared.Idles := by
  rw [cleared]
  cases w.taken with
  | none => exact hidle
  | some t => exact hidle.exec _

/-- The folder that the object is in, where the rename gets past its move. -/
def dest (w : Relocation) : Option UInt32 :=
  if w.newParent = w.oldParent then none else some w.newParent

theorem displaced_across (hd : w.newParent ≠ 0xffffffff) (hclears : w.Clears)
    (hmoves : ¬ w.StopsAtMove) :
    Store.Displaced w.handle w.dest w.taken w.aside w.fs.store w.across.store := by
  have hcleared := displaced_cleared hclears
  rw [dest, across]
  by_cases hstays : w.newParent = w.oldParent
  · rw [if_pos hstays, if_pos hstays]
    exact hcleared
  · rw [if_neg hstays, if_neg hstays]
    have hworks : w.cleared.Works w.moving := by
      by_contra hnot
      exact hmoves ⟨hstays, fun hboth => hnot hboth.2⟩
    exact hcleared.move (Phone.store_of_move_works hd hworks)

/-- **Nothing changed its folder or its name** exactly when the rename undid what it did. -/
theorem Ends.same_iff {out : Except Int Int × Fs Phone} (hends : w.Ends out)
    (hd : w.newParent ≠ 0xffffffff) :
    (∀ rc, out.1 = .error rc → Store.SameSpots w.fs.store out.2.store) ↔
      (w.Clears → w.Undone) := by
  cases hends with
  | unmoved hclears hstore =>
      refine ⟨fun _ hyes => absurd hyes hclears, fun _ rc _ => ?_⟩
      rw [hstore]
      exact Store.sameSpots_refl _
  | move hclears hstops hstore =>
      have hsame := (displaced_cleared hclears).same_iff
      rw [← hstore] at hsame
      constructor
      · intro hall _
        exact ⟨fun _ => (hsame.mp (hall _ rfl)).2, fun hno => absurd hstops hno,
          fun hno => absurd hstops hno, fun hno => absurd hstops hno⟩
      · intro hundone rc _
        refine hsame.mpr ⟨?_, (hundone hclears).move hstops⟩
        intro d hnone
        cases hnone
  | name hclears hmoves hstops hback hleft =>
      have hacross := displaced_across hd hclears hmoves
      have hin : (∀ d, w.dest = some d → w.fs.store.In w.handle d) ↔
          (w.newParent ≠ w.oldParent → w.fs.store.In w.handle w.newParent) := by
        rw [dest]
        by_cases hstays : w.newParent = w.oldParent
        · simp [hstays]
        · simp [hstays]
      by_cases hputs : ∃ t, w.taken = some t ∧ w.PutsNameBack t
      · obtain ⟨t, htaken, hputs⟩ := hputs
        have hrestored : Store.Displaced w.handle w.dest (some t) w.newName w.fs.store
            (w.across.store.rename t w.newName) := hacross.rename (.inr htaken)
        have hsame := hrestored.same_iff
        rw [← hback t htaken hputs, hin] at hsame
        constructor
        · intro hall _
          obtain ⟨hthere, hnamed⟩ := hsame.mp (hall _ rfl)
          refine ⟨fun hmove => absurd hmove hmoves, fun _ _ => hthere, fun _ _ t' ht' _ => ?_,
            fun _ _ t' ht' hnot => ?_⟩
          · cases htaken.symm.trans ht'
            exact hnamed t rfl
          · cases htaken.symm.trans ht'
            exact absurd hputs hnot
        · intro hundone rc _
          refine hsame.mpr ⟨(hundone hclears).crossed hmoves hstops, ?_⟩
          intro t' ht'
          cases ht'
          exact (hundone hclears).restored hmoves hstops t htaken hputs
      · have hnot : ∀ t, w.taken = some t → ¬ w.PutsNameBack t := by
          intro t htaken hyes
          exact hputs ⟨t, htaken, hyes⟩
        have hsame := hacross.same_iff
        rw [← hleft hnot, hin] at hsame
        constructor
        · intro hall _
          obtain ⟨hthere, hnamed⟩ := hsame.mp (hall _ rfl)
          exact ⟨fun hmove => absurd hmove hmoves, fun _ _ => hthere,
            fun _ _ t ht hyes => absurd hyes (hnot t ht), fun _ _ t ht _ => hnamed t ht⟩
        · intro hundone rc _
          refine hsame.mpr ⟨(hundone hclears).crossed hmoves hstops, ?_⟩
          intro t ht
          exact (hundone hclears).left hmoves hstops t ht (hnot t ht)
  | done hclears hmoves hnamed hstore =>
      constructor
      · intro _ _
        exact ⟨fun hmove => absurd hmove hmoves, fun _ hname => absurd hname hnamed,
          fun _ hname => absurd hname hnamed, fun _ hname => absurd hname hnamed⟩
      · intro _ rc hok
        cases hok

/-! ### The steps -/

/-- Between two states of a rename the mount knows the same of the device, and the tree holds the same
objects. -/
structure Onward (fs fs' : Fs Phone) (p : Phone) : Prop where
  session : fs'.mtp.session = p
  info : fs'.mtp.info = fs.mtp.info
  storage : fs'.mtp.storage = fs.mtp.storage
  entries : fs'.tree.entries = fs.tree.entries

theorem clearTarget_ends {fs : Fs Phone} {target : Str}
    (htarget : (resolve target : Proc Int (Fs Phone) _) fs = (.ok w.taken, w.fs))
    (hother : ∀ t, w.taken = some t → t ≠ w.handle ∧ t ≠ root) :
    ∃ fs', Onward w.fs fs' w.cleared ∧
      ((w.Clears ∧
          clearTarget target w.newName w.handle w.newParent fs = (.ok (some w.taken), fs')) ∨
        (¬ w.Clears ∧
          ∃ rc, clearTarget target w.newName w.handle w.newParent fs = (.error rc, fs'))) := by
  rw [clearTarget, Proc.bind_ok htarget, cleared, Clears]
  cases htaken : w.taken with
  | none =>
      refine ⟨w.fs, ⟨rfl, rfl, rfl, rfl⟩, .inl ⟨?_, rfl⟩⟩
      intro t hnone
      cases hnone
  | some t =>
      obtain ⟨hself, hroot⟩ := hother t htaken
      dsimp only
      rw [if_neg hself, if_neg hroot, Proc.bind_ok asideName_run, Proc.bind_ok (tryMtp_run _ _)]
      obtain ⟨m, hanswered, ⟨hworks, hrun⟩ | ⟨hnot, e, hrun⟩⟩ :=
        Mtp.renameObject_ends t w.aside w.fs.mtp
      · refine ⟨{ w.fs with
            mtp := m
            spoolCount := w.fs.spoolCount + 1
            tree := w.fs.tree.forgetListing w.newParent },
          ⟨hanswered.session, hanswered.info, hanswered.storage, rfl⟩, .inl ⟨?_, ?_⟩⟩
        · intro t' ht'
          cases ht'
          exact hworks
        · rw [aside] at hrun
          dsimp only
          rw [hrun]
          rfl
      · refine ⟨{ w.fs with mtp := m, spoolCount := w.fs.spoolCount + 1 },
          ⟨hanswered.session, hanswered.info, hanswered.storage, rfl⟩, .inr ⟨?_, -Libc.EIO, ?_⟩⟩
        · intro hclears
          exact hnot (hclears t rfl)
        · rw [aside] at hrun
          dsimp only
          rw [hrun]
          rfl

theorem moveAcross_ends {fs : Fs Phone} (honward : Onward w.fs fs w.cleared) :
    ∃ fs', ((¬ w.StopsAtMove ∧ Onward w.fs fs' w.across ∧
          moveAcross w.handle w.oldParent w.newParent fs = (.ok (), fs')) ∨
        (w.StopsAtMove ∧ (fs'.mtp.session = w.cleared ∨
            ¬ w.cleared.Works w.moving ∧ fs'.mtp.session = (Phone.exec w.moving w.cleared).2) ∧
          ∃ rc, moveAcross w.handle w.oldParent w.newParent fs = (.error rc, fs'))) := by
  rw [moveAcross, Proc.bind_ok (Proc.get_run _)]
  by_cases hstays : w.newParent = w.oldParent
  · have hacross : w.across = w.cleared := if_pos hstays
    rw [if_neg fun hne => hne hstays, hacross]
    exact ⟨fs, .inl ⟨fun hstops => hstops.1 hstays, honward, rfl⟩⟩
  · have hacross : w.across = (Phone.exec w.moving w.cleared).2 := if_neg hstays
    rw [if_pos hstays, hacross]
    have hcan : fs.mtp.canMove = w.fs.mtp.canMove := by
      rw [Mtp.canMove, Mtp.canMove, honward.info]
    by_cases hsupports : w.fs.mtp.canMove = true
    · rw [hcan, if_pos hsupports, Proc.bind_ok (tryMtp_run _ _)]
      obtain ⟨m, hanswered, hends⟩ := Mtp.moveObject_ends w.handle w.newParent fs.mtp
      have hmoving : Mtp.moveRequest fs.mtp.storage w.handle w.newParent = w.moving := by
        rw [moving, honward.storage]
      rw [hmoving, honward.session] at hends
      have hsession : m.session = (Phone.exec w.moving w.cleared).2 := by
        rw [hanswered.session, hmoving, honward.session]
      refine ⟨{ fs with mtp := m }, ?_⟩
      rcases hends with ⟨hworks, hrun⟩ | ⟨hnot, e, hrun⟩
      · refine .inl ⟨fun hstops => hstops.2 ⟨hsupports, hworks⟩, ⟨hsession,
          hanswered.info.trans honward.info, hanswered.storage.trans honward.storage,
          honward.entries⟩, ?_⟩
        rw [hrun]
        rfl
      · refine .inr ⟨⟨hstays, fun hboth => hnot hboth.2⟩, .inr ⟨hnot, hsession⟩, -Libc.EIO, ?_⟩
        rw [hrun]
        rfl
    · rw [hcan, if_neg hsupports]
      exact ⟨fs, .inr ⟨⟨hstays, fun hboth => hsupports hboth.1⟩, .inl honward.session, _, rfl⟩⟩

theorem renameInPlace_ends {fs : Fs Phone} (honward : Onward w.fs fs w.across) :
    (¬ w.StopsAtName ∧ ∃ fs', fs'.mtp.session = w.renamed ∧
        renameInPlace w.handle w.newParent w.newName w.taken fs = (.ok (), fs')) ∨
      (w.StopsAtName ∧ ∃ rc fs', renameInPlace w.handle w.newParent w.newName w.taken fs =
          (.error rc, fs') ∧
        ((w.fs.mtp.canRename = false ∧ fs'.mtp.session = w.across) ∨
          (w.fs.mtp.canRename = true ∧ ¬ w.across.Works w.naming ∧
            fs'.mtp.session = w.taken.elim (Phone.exec w.naming w.across).2 fun t =>
              (Phone.exec (Mtp.renameRequest t w.newName) (Phone.exec w.naming w.across).2).2))) := by
  have hname : ((fs.tree.get w.handle).map Entry.name).getD [] = w.fs.nameOf w.handle := by
    rw [nameOf, Tree.get, Tree.get, honward.entries]
  have hcan : fs.mtp.canRename = w.fs.mtp.canRename := by
    rw [Mtp.canRename, Mtp.canRename, honward.info]
  rw [renameInPlace, Proc.bind_ok (Proc.get_run _)]
  dsimp only
  rw [hname, hcan]
  by_cases hsame : w.fs.nameOf w.handle = w.newName
  · have hrenamed : w.renamed = w.across := if_pos hsame
    rw [if_neg fun hne => hne hsame, hrenamed]
    exact .inl ⟨fun hstops => hstops.1 hsame, fs, honward.session, rfl⟩
  · have hrenamed : w.renamed = (Phone.exec w.naming w.across).2 := if_neg hsame
    rw [if_pos hsame, hrenamed]
    cases hsupports : w.fs.mtp.canRename with
    | false =>
        rw [if_neg Bool.false_ne_true]
        refine .inr ⟨⟨hsame, fun hboth => ?_⟩, _, fs, rfl, .inl ⟨rfl, honward.session⟩⟩
        rw [hsupports] at hboth
        cases hboth.1
    | true =>
        rw [if_pos rfl, Proc.bind_ok (tryMtp_run _ _)]
        obtain ⟨m, hanswered, hends⟩ := Mtp.renameObject_ends w.handle w.newName fs.mtp
        have hsession : m.session = (Phone.exec w.naming w.across).2 := by
          rw [hanswered.session, honward.session]
          rfl
        rw [honward.session] at hends
        rcases hends with ⟨hworks, hrun⟩ | ⟨hnot, e, hrun⟩
        · rw [hrun]
          exact .inl ⟨fun hstops => hstops.2 ⟨hsupports, hworks⟩, { fs with mtp := m }, hsession, rfl⟩
        · rw [hrun]
          refine .inr ⟨⟨hsame, fun hboth => hnot hboth.2⟩, -Libc.EIO, ?_⟩
          cases htaken : w.taken with
          | none => exact ⟨_, rfl, .inr ⟨rfl, hnot, hsession⟩⟩
          | some t =>
              refine ⟨_, rfl, .inr ⟨rfl, hnot, ?_⟩⟩
              rw [Option.elim_some, ← hsession]
              show (Mtp.renameObject t w.newName m).2.session = _
              obtain ⟨m', hanswered', ⟨-, hrun'⟩ | ⟨-, e', hrun'⟩⟩ :=
                Mtp.renameObject_ends t w.newName m
              · rw [hrun']
                exact hanswered'.session
              · rw [hrun']
                exact hanswered'.session

/-- The device, whose faults have no effect, after a rename that gave no name. -/
theorem store_across_naming (hidle : w.fs.mtp.session.Idles) (hnot : ¬ w.across.Works w.naming) :
    (Phone.exec w.naming w.across).2.Idles ∧
      (Phone.exec w.naming w.across).2.store = w.across.store := by
  have hacross : w.across.Idles := by
    rw [across]
    split
    · exact idles_cleared hidle
    · exact (idles_cleared hidle).exec _
  exact ⟨hacross.exec _, Phone.store_of_rename_not_works hacross hnot⟩

/-- **How a rename ends** on a device whose faults have no effect. -/
theorem relocate_ends {fs : Fs Phone} {target : Str}
    (htarget : (resolve target : Proc Int (Fs Phone) _) fs = (.ok w.taken, w.fs))
    (hother : ∀ t, w.taken = some t → t ≠ w.handle ∧ t ≠ root)
    (hd : w.newParent ≠ 0xffffffff) (hidle : w.fs.mtp.session.Idles) :
    w.Ends (relocate target w.newName w.handle w.oldParent w.newParent fs) := by
  obtain ⟨fs₁, hcleared, ⟨hclears, hrun⟩ | ⟨hnot, rc, hrun⟩⟩ := clearTarget_ends htarget hother
  · rw [relocate, Proc.bind_ok hrun]
    dsimp only
    obtain ⟨fs₂, ⟨hmoves, hacross, hrun₂⟩ | ⟨hstops, hstore, rc, hrun₂⟩⟩ := moveAcross_ends hcleared
    · rw [Proc.bind_ok hrun₂]
      rcases renameInPlace_ends hacross with
        ⟨hnamed, fs₃, hrenamed, hrun₃⟩ | ⟨hstops, rc, fs₃, hrun₃, hleft⟩
      · rw [Proc.bind_ok hrun₃]
        have hlanded : (dropAside w.taken fs₃).2.store = w.landed.store := by
          rw [landed]
          cases w.taken with
          | none => exact congrArg Phone.store hrenamed
          | some t =>
              show (Mtp.deleteObject t fs₃.mtp).2.session.store = _
              rw [Mtp.session_deleteObject, hrenamed]
        cases htaken : w.taken with
        | none =>
            rw [htaken] at hlanded
            exact .done hclears hmoves hnamed hlanded
        | some t =>
            rw [htaken] at hlanded
            exact .done hclears hmoves hnamed hlanded
      · rw [Proc.bind_error hrun₃]
        rcases hleft with ⟨hcannot, hsession⟩ | ⟨hcan, hfails, hsession⟩
        · refine .name hclears hmoves hstops (fun t _ hputs => ?_) fun _ => ?_
          · rw [hputs.1] at hcannot
            cases hcannot
          · rw [store, hsession]
        · obtain ⟨hidle', hsame⟩ := store_across_naming hidle hfails
          refine .name hclears hmoves hstops (fun t htaken hputs => ?_) fun hnot => ?_
          · rw [store, hsession, htaken, Option.elim_some,
              Phone.store_of_rename_works hputs.2, hsame]
          · rw [store, hsession]
            cases htaken : w.taken with
            | none => exact hsame
            | some t =>
                have hfails' := fun hworks => hnot t htaken ⟨hcan, hworks⟩
                rw [Option.elim_some, Phone.store_of_rename_not_works hidle' hfails', hsame]
    · rw [Proc.bind_error hrun₂]
      refine .move hclears hstops ?_
      rw [store]
      rcases hstore with hsession | ⟨hfails, hsession⟩
      · rw [hsession]
      · rw [hsession]
        exact Phone.store_of_move_not_works hd (idles_cleared hidle) hfails
  · rw [relocate, Proc.bind_error hrun]
    refine .unmoved hnot ?_
    rw [store, hcleared.session, cleared]
    cases htaken : w.taken with
    | none =>
        refine absurd ?_ hnot
        intro t hsome
        rw [htaken] at hsome
        cases hsome
    | some t =>
        refine Phone.store_of_rename_not_works hidle fun hworks => hnot ?_
        intro t' ht'
        cases htaken.symm.trans ht'
        exact hworks

end Relocation

/-! ## The walks -/

/-- The walks of a rename find an object, the two folders, and nothing or another object that has the
new name. -/
structure Walked (fs : Fs Phone) (source target : Str) (w : Relocation) : Prop where
  object : w.handle ≠ root
  newName : (splitParent target).2 = w.newName
  named : w.newName ≠ []
  other : ∀ t, w.taken = some t → t ≠ w.handle ∧ t ≠ root
  walks : ∃ fs₁ fs₂ fs₃, resolved source fs = (.ok w.handle, fs₁) ∧
    resolved (splitParent source).1 fs₁ = (.ok w.oldParent, fs₂) ∧
    resolved (splitParent target).1 fs₂ = (.ok w.newParent, fs₃) ∧
    (resolve target : Proc Int (Fs Phone) _) fs₃ = (.ok w.taken, w.fs)

/-- The faults of the device stay without effect. -/
theorem takes_idles : Mtp.Takes (fun _ => True)
    fun m m' : Mtp Phone => m.session.Idles → m'.session.Idles where
  refl _ hidle := hidle
  trans h h' hidle := h' (h hidle)
  exec r _ _ hidle := hidle.exec r
  cache _ _ hidle := hidle

theorem Walked.rename {w : Relocation} (hwalked : Walked fs source target w) (hknows : KnowsKinds fs)
    (hidle : fs.mtp.session.Idles) :
    w.fs.store = fs.store ∧ w.newParent ≠ 0xffffffff ∧ w.Ends (opRename source target fs) := by
  obtain ⟨fs₁, fs₂, fs₃, hsource, hold, hnew, htarget⟩ := hwalked.walks
  have hasks := takes_idles.asks (fun _ _ _ _ => trivial) fun _ hidle => hidle
  have hwalk := fun path => resolved_keeps takes_idles.toChains hasks.list path
  have hidle₁ : fs₁.mtp.session.Idles := by
    have hkeeps := (hwalk source fs).device
    rw [hsource] at hkeeps
    exact hkeeps hidle
  have hidle₂ : fs₂.mtp.session.Idles := by
    have hkeeps := (hwalk (splitParent source).1 fs₁).device
    rw [hold] at hkeeps
    exact hkeeps hidle₁
  have hidle₃ : fs₃.mtp.session.Idles := by
    have hkeeps := (hwalk (splitParent target).1 fs₂).device
    rw [hnew] at hkeeps
    exact hkeeps hidle₂
  have hidle₄ : w.fs.mtp.session.Idles := by
    have hkeeps := (resolve_keeps (E := Int) takes_idles.toChains hasks.list target fs₃).device
    rw [htarget] at hkeeps
    exact hkeeps hidle₃
  have hstore : w.fs.store = fs.store := by
    have hsame : w.fs.store = fs₃.store := (device_resolve htarget).store
    rw [hsame, store_resolved hnew, store_resolved hold, store_resolved hsource]
  have hd : w.newParent ≠ 0xffffffff :=
    found_of_resolved (knows_resolved (knows_resolved hknows hsource) hold) hnew
  refine ⟨hstore, hd, ?_⟩
  have hrun : opRename source target fs =
      relocate target w.newName w.handle w.oldParent w.newParent fs₃ := by
    have hnamed : (splitParent target).2 ≠ [] := by
      rw [hwalked.newName]
      exact hwalked.named
    rw [opRename_relocates hwalked.object hnamed hsource hold hnew, hwalked.newName]
  rw [hrun]
  exact Relocation.relocate_ends htarget hwalked.other hd hidle₄

/-- A rename that finds too little, or finds its own object, changes nothing on the device. -/
theorem walked_or_same (fs : Fs Phone) (source target : Str) :
    (∃ w, Walked fs source target w) ∨ (opRename source target fs).2.store = fs.store := by
  rcases opRename_cases source target fs with
    ⟨rc', fs₁, hrun', hdevice⟩ | ⟨handle, o, d, fs₁, fs₂, fs₃, hroot, hnamed, hsource, hold, hnew, h₃⟩
  · right
    rw [hrun']
    exact hdevice.store
  by_contra hnone
  rw [not_or] at hnone
  obtain ⟨hunwalked, hmoved⟩ := hnone
  apply hmoved
  rw [opRename_relocates hroot hnamed hsource hold hnew, relocate, Proc.bind_run, clearTarget,
    Proc.bind_run]
  rcases htarget : (resolve target : Proc Int (Fs Phone) _) fs₃ with ⟨rc | taken, fs₄⟩
  · exact (h₃.trans (device_resolve htarget)).store
  have hstore₄ : fs₄.store = fs.store := (h₃.trans (device_resolve htarget)).store
  have hnothing : ¬ ∀ t, taken = some t → t ≠ handle ∧ t ≠ root := by
    intro hother
    exact hunwalked ⟨⟨handle, o, d, (splitParent target).2, taken, fs₄⟩, hroot, rfl,
      hnamed, hother, fs₁, fs₂, fs₃, hsource, hold, hnew, htarget⟩
  cases taken with
  | none =>
      refine absurd ?_ hnothing
      intro t hnone
      cases hnone
  | some t =>
      dsimp only
      by_cases hself : t = handle
      · rw [if_pos hself]
        exact hstore₄
      · rw [if_neg hself]
        by_cases htop : t = root
        · rw [if_pos htop]
          exact hstore₄
        · refine absurd ?_ hnothing
          intro t' ht'
          cases ht'
          exact ⟨hself, htop⟩

theorem walked_or_unmoved (fs : Fs Phone) (source target : Str) :
    (∃ w, Walked fs source target w) ∨
      ∀ rc fs', opRename source target fs = (.error rc, fs') → fs'.store = fs.store := by
  apply (walked_or_same fs source target).imp_right
  intro hsame rc fs' hrun
  rw [hrun] at hsame
  exact hsame

/-- **A rename that fails leaves the folders as they were** exactly when, where it stops, each object is
in the folder it was in and has the name it had. -/
theorem rename_undone_iff (mtp : Mtp Phone) (host₀ : Host) (calls : List (Host × Call))
    (host : Host) (hidle : (reached mtp host₀ calls host).mtp.Idles) (source target : Str) :
    (∀ rc fs', opRename source target (reached mtp host₀ calls host) = (.error rc, fs') →
        Store.SameSpots (reached mtp host₀ calls host).store fs'.store) ↔
      ∀ w, Walked (reached mtp host₀ calls host) source target w → w.Clears → w.Undone := by
  have hknows : KnowsKinds (reached mtp host₀ calls host) :=
    ((informed_start mtp host₀).run calls).knows
  constructor
  · intro hsame w hwalked
    obtain ⟨hstore, hd, hends⟩ := hwalked.rename hknows hidle
    apply (hends.same_iff hd).mp
    intro rc herror
    rw [hstore]
    exact hsame rc _ (Prod.ext herror rfl)
  · intro hundone rc fs' hrun
    rcases walked_or_unmoved (reached mtp host₀ calls host) source target with ⟨w, hwalked⟩ | hsame
    · obtain ⟨hstore, hd, hends⟩ := hwalked.rename hknows hidle
      rw [hrun] at hends
      rw [← hstore]
      exact (hends.same_iff hd).mpr (hundone w hwalked) rc rfl
    · rw [hsame rc fs' hrun]
      exact Store.sameSpots_refl _

/-! ## A device that moves nothing -/

/-- The answer of a device to every move. -/
def unmovable : Fault := .code Resp.storeFull storeFull_ne_ok

/-- A device that does everything but a move. -/
def immobile : Policy :=
  { Policy.obliging with
    fault := fun _ _ r => if r.code = Op.moveObject then some unmovable else none }

/-- A mount of such a device, with a file and another one of that name in a folder. -/
def twins : List (Host × Call) :=
  [(Host.obliging, .mkdir ['/', 'd']), (Host.obliging, .create ['/', 'd', '/', 'a']),
    (Host.obliging, .release ['/', 'd', '/', 'a'] none), (Host.obliging, .create ['/', 'a']),
    (Host.obliging, .release ['/', 'a'] none)]

def immobileMount : Mtp Phone := Mtp.standard (Phone.holding Store.empty immobile)

/-- The mount after those calls. -/
def crowded : Fs Phone := reached immobileMount Host.obliging twins Host.obliging

theorem immobile_idle {log : List Request} {s : Store} {r : Request} {f : Fault}
    (hfault : immobile.fault log s r = some f) : f.Idle := by
  change (if r.code = Op.moveObject then some unmovable else none) = some f at hfault
  split at hfault
  · cases hfault
    exact trivial
  · cases hfault

theorem crowded_idle : crowded.mtp.Idles := fun _ _ _ _ hfault => immobile_idle hfault

/-- The file of the folder keeps the name that it got when it moved aside. -/
theorem move_leaves_name_aside : crowded.mtp.Idles ∧
    (opRename ['/', 'a'] ['/', 'd', '/', 'a'] crowded).1 = .error (-Libc.EIO) ∧
      ¬ Store.SameSpots crowded.store (opRename ['/', 'a'] ['/', 'd', '/', 'a'] crowded).2.store := by
  refine ⟨crowded_idle, by decide +kernel, fun hsame => ?_⟩
  have hname := hsame 2
  revert hname
  decide +kernel

/-- A rename that finds its name free fails too, and changes nothing. -/
theorem rename_undone_free :
    (opRename ['/', 'a'] ['/', 'd', '/', 'b'] crowded).1 = .error (-Libc.EIO) ∧
      ∀ w, Walked crowded ['/', 'a'] ['/', 'd', '/', 'b'] w → w.Clears → w.Undone := by
  refine ⟨by decide +kernel, (rename_undone_iff immobileMount Host.obliging twins Host.obliging
    crowded_idle ['/', 'a'] ['/', 'd', '/', 'b']).mp fun rc fs' hrun => ?_⟩
  have hnodes : (opRename ['/', 'a'] ['/', 'd', '/', 'b'] crowded).2.store.objects.nodes =
      crowded.store.objects.nodes := by decide +kernel
  have hend : fs' = (opRename ['/', 'a'] ['/', 'd', '/', 'b'] crowded).2 := congrArg Prod.snd hrun.symm
  intro k
  rw [hend, Store.spotOf, Store.spotOf, Store.find, Store.find, Forest.find, Forest.find, hnodes]
  rfl

end Fs

end Bsdroid
