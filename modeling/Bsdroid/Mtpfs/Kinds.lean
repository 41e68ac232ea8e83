import Bsdroid.Mtpfs.Coherent
import Bsdroid.Mtpfs.Learning

/-!
# The kind of an object

No operation turns a file into a folder, and a device gives no handle twice.  So what is
under a handle is of the kind it had when the device gave the handle, or is gone
(`Store.Kind`).

The mount asks for the kind once, when it lists a folder, and believes the tree from then
on.  `Fs.Informed.run` says that it may: in every state a mount reaches, the kind that the
tree holds is the kind on the device, and an entry replaces a file.
-/

namespace Bsdroid

namespace Store

variable {s s' : Store} {h : UInt32} {x : Object} {folder : Bool}

/-- The device gave the handle to one object, and what it holds under it is of this kind. -/
structure Kind (s : Store) (h : UInt32) (folder : Bool) : Prop where
  given : h ∈ s.used
  single : h ≠ 0xffffffff
  inside : h ≠ root
  kind : ∀ x, s.find h = some x → x.folder = folder

theorem kind_of_find (hx : s.find h = some x) : s.Kind h x.folder := by
  have hmem := mem_of_find hx
  obtain rfl := find_key hx
  refine ⟨s.covers x hmem, (s.sound x hmem).single, s.objects.rootless x hmem, fun y hy => ?_⟩
  rw [hx] at hy
  cases hy
  rfl

/-- A change that maps the object under each handle, and keeps its kind. -/
theorem Kind.of_map {f : UInt32 → Object → Object} (hkind : s.Kind h folder)
    (hused : s'.used = s.used) (hfind : ∀ k, s'.find k = (s.find k).map (f k))
    (hkeeps : ∀ k x, (f k x).folder = x.folder) : s'.Kind h folder := by
  refine ⟨hused ▸ hkind.given, hkind.single, hkind.inside, fun y hy => ?_⟩
  rw [hfind] at hy
  obtain ⟨x, hx, rfl⟩ := Option.map_eq_some_iff.mp hy
  rw [hkeeps]
  exact hkind.kind x hx

/-- Below a file there is the file alone. -/
theorem Kind.below {k : UInt32} (hkind : s.Kind h false) (hk : k ∈ s.objects.below h) : k = h := by
  refine s.objects.below_of_childless (List.eq_nil_iff_forall_not_mem.mpr fun x hx => ?_) k hk
  obtain ⟨hmem, rfl⟩ := s.objects.mem_children.mp hx
  rcases s.objects.housed x hmem with hroot | ⟨f, hf, hkey, hfolder⟩
  · exact hkind.inside hroot
  · have hfile := hkind.kind f (s.objects.find_eq_some.mpr ⟨hf, hkey⟩)
    rw [hfolder] at hfile
    cases hfile

theorem Kind.insert (hkind : s.Kind h folder) (hins : s.insert x = some s') : s'.Kind h folder := by
  obtain ⟨hfresh, -, hused⟩ := insert_eq_some hins
  refine ⟨hused ▸ List.mem_cons_of_mem _ hkind.given, hkind.single, hkind.inside, fun y hy => ?_⟩
  rw [find_insert hins, if_neg] at hy
  · exact hkind.kind y hy
  · intro hsame
    subst hsame
    exact hfresh hkind.given

/-- **No change touches the kind of an object.** -/
theorem Change.kind (hchange : Change s s') (hkind : s.Kind h folder) : s'.Kind h folder := by
  cases hchange with
  | same => exact hkind
  | removed k =>
      refine ⟨hkind.given, hkind.single, hkind.inside, fun y hy => ?_⟩
      rw [find_remove] at hy
      split at hy
      · cases hy
      · exact hkind.kind y hy
  | renamed k name =>
      refine hkind.of_map rfl (fun _ => find_rename) fun k x => ?_
      split
      · rfl
      · rfl
  | moved hmove =>
      refine hkind.of_map (move_eq_some hmove).2 (fun _ => find_move hmove) fun k x => ?_
      split
      · rfl
      · rfl
  | added hins => exact hkind.insert hins
  | filled hfill =>
      unfold Phone.fill at hfill
      split at hfill
      · exact hkind.insert hfill
      · split at hfill
        · cases hfill
        · refine hkind.of_map (write_eq_some hfill).2 (fun _ => find_write hfill) fun k x => ?_
          split
          · rfl
          · rfl

end Store

/-! ## What a listing says of the objects -/

namespace Mtp

variable {m m' : Mtp Phone} {parent : UInt32} {es : List Entry}

/-- Each entry of a listing has the kind and the name of an object of the device. -/
def Accurate (s : Store) (es : List Entry) : Prop :=
  ∀ e ∈ es, ∃ x, s.find e.handle = some x ∧ e.isDir = x.folder ∧ e.name = x.name

theorem Accurate.kind {s : Store} (h : Accurate s es) {e : Entry} (he : e ∈ es) :
    s.Kind e.handle e.isDir := by
  obtain ⟨x, hx, hdir, -⟩ := h e he
  rw [hdir]
  exact Store.kind_of_find hx

theorem accurate_entry (s : Store) : Accurate s ((s.children parent).map Object.entry) := by
  intro e he
  obtain ⟨x, hx, rfl⟩ := List.mem_map.mp he
  exact ⟨x, s.find_of_mem_children hx, rfl, rfl⟩

theorem find_of_objectInfo {h : UInt32} {raw : Bytes}
    (hrun : operation "GetObjectInfo" Op.getObjectInfo [h] m = (.ok raw, m')) :
    ∃ x, m.session.store.find h = some x ∧ raw = m.session.dataset x := by
  obtain ⟨hok, hraw, -⟩ := operation_ok hrun
  have hserve : (m.session.serve Op.getObjectInfo [h] []).1 = m.session.objectInfo [h] := rfl
  rw [hserve, Phone.objectInfo] at hok hraw
  cases hx : m.session.store.find h with
  | none =>
      rw [hx] at hok
      cases hok
  | some x =>
      rw [hx] at hraw
      exact ⟨x, rfl, hraw⟩

/-- The older way asks for each handle, whatever handles it has. -/
theorem infoEntries_tells {handles : List UInt32}
    (hrun : infoEntries parent handles m = (.ok es, m')) : Accurate m.session.store es := by
  induction handles generalizing m m' es with
  | nil =>
      cases hrun
      intro e he
      cases he
  | cons h handles ih =>
      rw [infoEntries] at hrun
      obtain ⟨raw, m₁, hop, hrun⟩ := Proc.bind_eq_ok hrun
      obtain ⟨more, m₂, hmore, hrun⟩ := Proc.bind_eq_ok hrun
      have hsame : SameDevice m m₁ := by
        have hcode : Op.getObjectInfo ∈ readsOnly := by decide
        have hstep := operation_steps "GetObjectInfo" [h] hcode m
        rw [hop] at hstep
        exact hstep
      have hrest := ih hmore
      rw [hsame.store] at hrest
      obtain ⟨x, hx, rfl⟩ := find_of_objectInfo hop
      obtain ⟨hmem, rfl⟩ := m.session.store.objects.find_eq_some.mp hx
      obtain ⟨info, hparse, hname, hfolder, -⟩ :=
        ObjectInfo.parse_phone (p := m.session) (m.session.store.sound x hmem)
      rw [hparse] at hrun
      cases hrun
      intro e he
      rcases List.mem_cons.mp he with rfl | he
      · exact ⟨x, hx, hfolder, hname⟩
      · exact hrest e he

theorem listOneAtATime_tells (hrun : listOneAtATime parent m = (.ok es, m')) :
    Accurate m.session.store es := by
  rw [listOneAtATime, Proc.bind_ok (Proc.get_run m)] at hrun
  obtain ⟨data, m₁, hop, hrun⟩ := Proc.bind_eq_ok hrun
  have hsame : SameDevice m m₁ := by
    have hcode : Op.getObjectHandles ∈ readsOnly := by decide
    have hstep := operation_steps "GetObjectHandles" [m.storage, 0,
      if parent = root then Association.rootOnly else parent] hcode m
    rw [hop] at hstep
    exact hstep
  have htells := infoEntries_tells hrun
  rw [hsame.store] at htells
  exact htells

/-- **A listing tells the objects**, in whichever way the mount got it. -/
theorem list_tells (hrun : list parent m = (.ok es, m')) : Accurate m.session.store es := by
  rw [list, Proc.bind_ok (Proc.get_run m)] at hrun
  by_cases hfast : m.fastList = true
  · rw [if_pos hfast] at hrun
    obtain ⟨answer, m₁, hfirst, hrun⟩ := Proc.bind_eq_ok hrun
    have hsame : SameDevice m m₁ := by
      have hstep := sameDevice_asks.listByProperties parent m
      rw [Proc.attempt, Prod.mk.injEq] at hfirst
      rwa [hfirst.2] at hstep
    split at hrun
    · cases hrun
      rw [Proc.attempt, Prod.mk.injEq, Except.ok.injEq] at hfirst
      rw [(listByProperties_ok (Prod.ext hfirst.1 hfirst.2)).1]
      exact accurate_entry m.session.store
    · obtain ⟨⟨⟩, m₂, hslow, hrun⟩ := Proc.bind_eq_ok hrun
      cases hslow
      have htells := listOneAtATime_tells hrun
      dsimp only at htells
      rw [hsame.store] at htells
      exact htells
  · rw [if_neg hfast] at hrun
    exact listOneAtATime_tells hrun

/-- What the device knows of the kinds stays. -/
def KeepsKinds (m m' : Mtp Phone) : Prop := ∀ h folder,
  m.session.store.Kind h folder → m'.session.store.Kind h folder

theorem takes_kinds : Takes (fun _ => True) KeepsKinds where
  refl _ _ _ hkind := hkind
  trans h h' _ _ hkind := h' _ _ (h _ _ hkind)
  exec r _ m _ _ hkind := (Phone.exec_served m.session r).change.kind hkind
  cache _ _ _ _ hkind := hkind

end Mtp

/-! ## What the tree knows -/

theorem Tree.record_cases {es : List Entry} {m : UInt32 → Option Entry} {h : UInt32} {e : Entry}
    (hrecord : es.foldl (fun (m : UInt32 → Option Entry) e => Function.update m e.handle (some e)) m
      h = some e) : m h = some e ∨ e ∈ es ∧ e.handle = h := by
  induction es generalizing m with
  | nil => exact .inl hrecord
  | cons a es ih =>
      rcases ih hrecord with hfirst | ⟨hmem, hkey⟩
      · dsimp only at hfirst
        by_cases hh : h = a.handle
        · rw [hh, Function.update_self] at hfirst
          cases hfirst
          exact .inr ⟨List.mem_cons_self, hh.symm⟩
        · rw [Function.update_of_ne hh] at hfirst
          exact .inl hfirst
      · exact .inr ⟨List.mem_cons_of_mem _ hmem, hkey⟩

namespace Fs

variable {fs fs' : Fs Phone}

/-- The tree has each object under its handle, and the kind it holds is the kind on the
device. -/
def KnowsKinds (fs : Fs Phone) : Prop := ∀ h e, fs.tree.entries h = some e →
  e.handle = h ∧ fs.store.Kind h e.isDir

/-- **What the mount learns of the kinds is right**, and stays right. -/
theorem learns_kinds : Learns Mtp.KeepsKinds fun fs fs' => KnowsKinds fs → KnowsKinds fs' where
  operations := respects_of_takes Mtp.takes_kinds fun _ _ _ hkind => hkind
  trans h h' hknows := h' (h hknows)
  learns fs parent entries m hlist hknows := by
    have hasked := Mtp.sameDevice_asks.list parent fs.mtp
    rw [hlist] at hasked
    intro h e he
    have hstore : store { fs with mtp := m, tree := fs.tree.setChildren parent entries } =
        fs.store := hasked.store
    rw [hstore]
    rcases Tree.record_cases he with hold | ⟨hmem, rfl⟩
    · exact hknows h e hold
    · exact ⟨rfl, (Mtp.list_tells hlist).kind hmem⟩
  device htree hkeeps hknows h e he :=
    (hknows h e (htree ▸ he)).imp_right fun hkind => hkeeps h _ hkind
  forgets fs parent hknows := hknows

/-- The tree is right about the kinds, and what an entry replaces is a file. -/
structure Informed (fs : Fs Phone) : Prop where
  knows : KnowsKinds fs
  replaces : ∀ path p old, fs.pending path = some p → p.replaces = some old →
    fs.store.Kind old false

theorem informed_start (mtp : Mtp Phone) (host : Host) : Informed (start mtp host) where
  knows _ _ he := by cases he
  replaces _ _ _ hp := by cases hp

/-- After a send the entry replaces what it did, or nothing. -/
theorem sendPending_replaces_less {E : Type} (p : Pending) :
    Proc.Yields (fun a : Int × Pending => a.2.replaces = p.replaces ∨ a.2.replaces = none)
      (sendPending p : Proc E (Fs Phone) (Int × Pending)) := by
  have hdeliver : ∀ q oldCopyExists, Proc.Yields
      (fun a : Int × Pending => a.2.replaces = p.replaces ∨ a.2.replaces = none)
      (deliver q oldCopyExists : Proc E (Fs Phone) (Int × Pending)) := by
    intro q oldCopyExists
    refine .after fun fs => .after fun answer => ?_
    split
    · split
      · exact .after fun _ => .after fun _ => .pure (.inr rfl)
      · exact .after fun _ => .pure (.inr rfl)
    · split
      · exact .after fun _ => .after fun _ => .pure (.inr rfl)
      · exact .after fun _ => .pure (.inr rfl)
  refine .after fun answer => ?_
  split
  · exact .pure (.inl rfl)
  · exact hdeliver _ _

/-- The pending files of a state replace nothing but files. -/
theorem Informed.keeps (hinformed : Informed fs) (hknows : KnowsKinds fs')
    (hdevice : Mtp.KeepsKinds fs.mtp fs'.mtp)
    (hpending : ∀ path p old, fs'.pending path = some p → p.replaces = some old →
      (∃ path' p', fs.pending path' = some p' ∧ p'.replaces = some old) ∨
        fs'.store.Kind old false) : Informed fs' := by
  refine ⟨hknows, fun path p old hp hold => ?_⟩
  rcases hpending path p old hp hold with ⟨path', p', hp', hold'⟩ | hfile
  · exact hdevice old false (hinformed.replaces path' p' old hp' hold')
  · exact hfile

/-- A file that a walk found is a file. -/
theorem Reaches.file_kind {R : Mtp Phone → Mtp Phone → Prop} {path : Str} {handle : UInt32}
    {entry : Entry} {fs₁ : Fs Phone} (hreaches : Reaches R path fs handle entry fs₁)
    (hknows : KnowsKinds fs) :
    fs₁.store.Kind handle false := by
  have hwalk := learns_kinds.looks.resolved path fs hknows
  rw [hreaches.resolved] at hwalk
  have hkind := (hwalk handle entry hreaches.found).2
  rw [hreaches.file] at hkind
  exact hkind

/-- **One call keeps the mount informed.** -/
theorem Effect.informed {c : Call} {answer : Except Int Int}
    (heffect : Effect Mtp.KeepsKinds fs c answer fs') (hinformed : Informed fs)
    (hknows : KnowsKinds fs') : Informed fs' := by
  have hdevice := heffect.device learns_kinds.operations.toChains
  refine hinformed.keeps hknows hdevice fun path' p' old hp' hold => ?_
  cases heffect with
  | keeps hkeeps => exact .inl ⟨path', p', hkeeps.pending ▸ hp', hold⟩
  | @wrote path bytes offset p done file hp hdown hall =>
      rcases pending_withEntry.mp hp' with ⟨rfl, rfl⟩ | ⟨-, hp'⟩
      · exact .inl ⟨_, p, hp, hold⟩
      · exact .inl ⟨_, _, hp', hold⟩
  | @broke path bytes offset p rc file hp =>
      rcases pending_withEntry.mp hp' with ⟨rfl, rfl⟩ | ⟨-, hp'⟩
      · exact .inl ⟨_, p, hp, hold⟩
      · exact .inl ⟨_, _, hp', hold⟩
  | @resized path size p hp =>
      rcases pending_withEntry.mp hp' with ⟨rfl, rfl⟩ | ⟨-, hp'⟩
      · exact .inl ⟨_, p, hp, hold⟩
      · exact .inl ⟨_, _, hp', hold⟩
  | @flushed path fi p q rc fs₁ hfi hp hsent hsend hkeeps hsame =>
      rcases pending_withEntry.mp hp' with ⟨rfl, rfl⟩ | ⟨-, hp'⟩
      · rcases sendPending_replaces_less p _ _ _ hsend with hreplaces | hnone
        · exact .inl ⟨_, p, hp, hreplaces ▸ hold⟩
        · rw [hnone] at hold
          cases hold
      · rw [hkeeps.pending] at hp'
        exact .inl ⟨_, _, (pending_without.mp hp').2, hold⟩
  | released hfi hp hsend hkeeps hsame =>
      rw [pending_dropped, hkeeps.pending] at hp'
      exact .inl ⟨_, _, (pending_without.mp hp').2, hold⟩
  | created hkeeps =>
      rw [pending_replaced] at hp'
      rcases pending_withEntry.mp hp' with ⟨-, rfl⟩ | ⟨-, hp'⟩
      · cases hold
      · exact .inl ⟨path', p', hkeeps.pending ▸ hp', hold⟩
  | opened hwrites hreaches hfills hdisk hempty =>
      rcases pending_withEntry.mp hp' with ⟨-, rfl⟩ | ⟨-, hp'⟩
      · cases hold
        exact .inr (hfills.device _ _ (hreaches.file_kind hinformed.knows))
      · exact .inl ⟨_, _, hreaches.keeps.pending ▸ hfills.pending ▸ hp', hold⟩
  | openStray hwrites hreaches hcopy hfills =>
      exact .inl ⟨_, _, hreaches.keeps.pending ▸ hfills.pending ▸ hp', hold⟩
  | truncateStray hreaches hcopy hfills =>
      exact .inl ⟨_, _, hreaches.keeps.pending ▸ hfills.pending ▸ hp', hold⟩
  | truncateLeft hreaches hadopts hfills hdisk hresizes =>
      rcases pending_withEntry.mp hp' with ⟨-, rfl⟩ | ⟨-, hp'⟩
      · cases hold
        exact .inr (hfills.device _ _ (hreaches.file_kind hinformed.knows))
      · exact .inl ⟨_, _, hreaches.keeps.pending ▸ hfills.pending ▸ hp', hold⟩
  | truncated hreaches hadopts hfills hdisk hresizes hsend hkeeps hsame =>
      rw [pending_dropped, hkeeps.pending] at hp'
      exact .inl ⟨_, _, hreaches.keeps.pending ▸ hfills.pending ▸ hp', hold⟩

theorem Informed.step (hinformed : Informed fs) (e : Host × Call) : Informed (fs.step e) := by
  have hinformed' : Informed { fs with host := e.1 } := ⟨hinformed.knows, hinformed.replaces⟩
  exact (call_effect learns_kinds.operations fs e).informed hinformed'
    (learns_kinds.number e.2 _ hinformed'.knows)

/-- **The mount is informed** in every state it reaches. -/
theorem Informed.run (hinformed : Informed fs) (calls : List (Host × Call)) :
    Informed (fs.run calls) := by
  induction calls generalizing fs with
  | nil => exact hinformed
  | cons e calls ih => exact ih (hinformed.step e)

end Fs

end Bsdroid
