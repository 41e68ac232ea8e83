import Bsdroid.Mtpfs.Coherent

/-!
# The cache never changes an answer

A walk takes a listing that the tree holds in place of one from the device.  Where each
listing matches the device, the walk finds what a walk of the device finds, whatever was
cached before (`Fs.cache_never_changes`).
-/

namespace Bsdroid

namespace Store

/-- A walk looks into at most one folder for each part of the path. -/
theorem length_asked_le {s : Store} {q : UInt32} (parts : List Str) :
    (s.asked q parts).length ≤ parts.length := by
  induction parts generalizing q with
  | nil => exact Nat.le_refl _
  | cons part parts ih =>
      rw [asked, List.length_cons, List.length_cons]
      apply Nat.succ_le_succ
      cases s.child q part with
      | none => exact Nat.zero_le _
      | some x => exact ih

end Store

namespace Fs

variable {fs : Fs Phone} {path : Str}

/-- Fewer folders are unread than the path has parts. -/
theorem unread_lt (hshort : (splitPath path).length < maxWalk) :
    (fs.unread path).length < maxWalk := by
  have hasked : (fs.store.asked root (splitPath path)).length ≤ (splitPath path).length :=
    Store.length_asked_le _
  have hunread : (fs.unread path).length ≤ (fs.store.asked root (splitPath path)).length :=
    List.length_filter_le _ _
  omega

/-- A walk of a short path is a walk of the device. -/
theorem resolve_short {E : Type} (hcoherent : fs.tree.Coherent fs.store)
    (hlists : fs.ListsFolders) (hshort : (splitPath path).length < maxWalk) :
    ∃ fs', (resolve path : Proc E (Fs Phone) (Option UInt32)) fs = (.ok (fs.names path), fs') ∧
      fs'.store = fs.store ∧ fs'.tree.Coherent fs'.store := by
  obtain ⟨fs', hrun, hlooked, -⟩ :=
    @resolveIn_lists _ E path (shown_of_coherent hcoherent path) hlists maxWalk
  rw [if_pos (unread_lt hshort)] at hrun
  refine ⟨fs', hrun, hlooked.store, ?_⟩
  rw [hlooked.store]
  exact hlooked.coherent hcoherent

/-- **The cache never changes an answer.**  On a device that lists its folders, and from a
tree whose listings match it, a walk of a path gives the handle that the folders of the device
lead to, and `none` where they lead nowhere; the listings match the device again, and any
other tree whose listings match the device gives the same handle. -/
theorem cache_never_changes {E : Type} (hcoherent : fs.tree.Coherent fs.store)
    (hlists : fs.ListsFolders) (hshort : (splitPath path).length < maxWalk) :
    (∃ fs', (resolve path : Proc E (Fs Phone) (Option UInt32)) fs =
        (.ok (fs.store.walk root (splitPath path)), fs') ∧
      fs'.store = fs.store ∧ fs'.tree.Coherent fs'.store) ∧
    ∀ other : Fs Phone, other.store = fs.store → other.tree.Coherent other.store →
      other.ListsFolders →
      ((resolve path : Proc E (Fs Phone) (Option UInt32)) other).1 =
        ((resolve path : Proc E (Fs Phone) (Option UInt32)) fs).1 := by
  obtain ⟨fs', hrun, hstore, hcoherent'⟩ := @resolve_short _ _ E hcoherent hlists hshort
  refine ⟨⟨fs', hrun, hstore, hcoherent'⟩, ?_⟩
  intro other hsame hother hlistsOther
  obtain ⟨other', hrunOther, -⟩ := @resolve_short _ _ E hother hlistsOther hshort
  rw [hrun, hrunOther, names, names, hsame]

/-- A mount of a device with one file. -/
def oneFile : Fs Phone := start (Mtp.mountOfZeros 3 Mtp.three_fits) Host.obliging

/-- The same mount after a call that read the root into the tree. -/
def rootRead : Fs Phone := (opGetattr ['/', 'a'] oneFile).2

theorem sees_oneFile : Sees oneFile :=
  ⟨fun _ hq => absurd hq Bool.false_ne_true, fun _ _ _ _ => rfl⟩

theorem looked_rootRead : Looked oneFile rootRead ∧ rootRead.unread ['/', 'a'] = [] := by
  have hhit : oneFile.hit ['/', 'a'] = some 1 := by decide +kernel
  obtain ⟨fs₁, hrun, hlooked, hread⟩ := resolved_of_hit (sees_oneFile.way ['/', 'a']) hhit
  have hsame : rootRead = fs₁ := by
    rw [rootRead, opGetattr, Proc.bind_ok (Proc.get_run _)]
    have hpending : oneFile.pending ['/', 'a'] = none := rfl
    rw [hpending]
    dsimp only
    rw [Proc.bind_ok hrun, Proc.bind_ok (Proc.get_run _), if_neg (by decide)]
    cases fs₁.tree.get 1 with
    | none => rfl
    | some e =>
        dsimp only
        split
        · rfl
        · rfl
  rw [hsame]
  exact ⟨hlooked, hread⟩

/-- One mount knows the root, the other knows nothing yet: both walks give the file. -/
theorem cache_never_changes_oneFile : rootRead.unread ['/', 'a'] = [] ∧
    oneFile.unread ['/', 'a'] = [root] ∧
    (∃ fs', (resolve ['/', 'a'] : Proc Int (Fs Phone) (Option UInt32)) rootRead =
        (.ok (some 1), fs') ∧ fs'.store = rootRead.store ∧ fs'.tree.Coherent fs'.store) ∧
      ((resolve ['/', 'a'] : Proc Int (Fs Phone) (Option UInt32)) oneFile).1 =
        ((resolve ['/', 'a'] : Proc Int (Fs Phone) (Option UInt32)) rootRead).1 := by
  obtain ⟨hlooked, hread⟩ := looked_rootRead
  have hsees : Sees rootRead := hlooked.sees sees_oneFile
  have hlists : rootRead.ListsFolders :=
    fun m hm q hq => .inl (lists_of_answers hsees.answers hm hq)
  have hlists' : oneFile.ListsFolders :=
    fun m hm q hq => .inl (lists_of_answers sees_oneFile.answers hm hq)
  obtain ⟨⟨fs', hrun, hstore, hcoherent⟩, hother⟩ :=
    @cache_never_changes _ ['/', 'a'] Int hsees.coherent hlists (by decide)
  have hwalk : oneFile.store.walk root (splitPath ['/', 'a']) = some 1 := by decide +kernel
  rw [hlooked.store, hwalk] at hrun
  have hunread : oneFile.unread ['/', 'a'] = [root] := by decide +kernel
  exact ⟨hread, hunread, ⟨fs', hrun, hstore, hcoherent⟩,
    hother oneFile hlooked.store.symm sees_oneFile.coherent hlists'⟩

end Fs

end Bsdroid
