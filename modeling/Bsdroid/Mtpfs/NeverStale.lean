import Bsdroid.Mtpfs.Readers
import Bsdroid.Mtpfs.ReadRuns
import Bsdroid.Mtpfs.Replacing

/-!
# A read is never stale

Between two reads of a program the mount can rename, move, replace and remove any object, each
request can fail or lose its answer, and another program can read another object into the same
cache.  `Fs.reads_never_stale` says that a read gives bytes of its object all the same: in every
state a mount reaches, what a read gives is what the object holds there, from the offset on.
-/

namespace Bsdroid

namespace Mtp

/-! ## Questions and changes -/

theorem operation_onward (step : String) (code : UInt16) (params : List UInt32) :
    Proc.Steps Onward (operation step code params : Proc Error (Mtp Phone) Bytes) :=
  .bind (R := Onward) Onward.trans (exec_onward _) fun out =>
    .bind (R := Onward) Onward.trans (checked_onward step out) fun _ => .pure Onward.refl _

theorem asks_onward : Asks Onward where
  refl := .refl
  trans := .trans
  operation step params code _ := operation_onward step code params
  slow _ := ⟨.refl _, rfl, rfl, .inl rfl⟩

theorem storageInfo_onward :
    Proc.Steps Onward (storageInfo : Proc Error (Mtp Phone) (Nat × Nat)) :=
  .bind (R := Onward) Onward.trans (.get Onward.refl) fun _ =>
    .bind (R := Onward) Onward.trans (operation_onward _ _ _) fun _ =>
      .bind (R := Onward) Onward.trans (.mapError (.ofExcept Onward.refl _)) fun _ =>
        .pure Onward.refl _

/-! ## A read -/

/-- A mount that names whole offsets, with a cache that holds what this store holds. -/
structure Honest (s : Store) (m : Mtp Phone) : Prop where
  store : m.session.store = s
  op : m.partialRead = Op.getPartialObject64
  cache : m.CacheOk

/-- The bytes stand in the object from the offset on, as long as there is one. -/
def FrontOf (s : Store) (h : UInt32) (offset : Nat) (data : Bytes) : Prop :=
  ∀ x, s.find h = some x → data <+: x.content.bytes.drop offset

section

variable {s : Store} {h : UInt32} {offset want size : Nat} {data out : Bytes}

theorem frontOf_nil : FrontOf s h offset [] := fun _ _ => List.nil_prefix

/-- What comes after a front is a front of the rest. -/
theorem FrontOf.append (hout : FrontOf s h offset out)
    (hdata : FrontOf s h (offset + out.length) data) : FrontOf s h offset (out ++ data) := by
  intro x hx
  apply prefix_append_of_drop (hout x hx)
  rw [List.drop_drop]
  exact hdata x hx

theorem FrontOf.take (hdata : FrontOf s h offset data) (n : Nat) :
    FrontOf s h offset (data.take n) :=
  fun x hx => (List.take_prefix n data).trans (hdata x hx)

/-- The device reads from the offset the host meant. -/
theorem serve_wideRead (p : Phone) {m : Mtp Phone} (hop : m.partialRead = Op.getPartialObject64)
    (hoffset : offset < 2 ^ 64) : (p.serve m.partialRead (partialParams m h offset want) []).1 =
      p.partialObject h offset (UInt32.ofNat want).toNat := by
  have hlow : (UInt32.ofNat (offset % 2 ^ 32)).toNat = offset % 2 ^ 32 :=
    UInt32.toNat_ofNat_of_lt' (by rw [UInt32.size]; omega)
  have hhigh : (UInt32.ofNat (offset / 2 ^ 32)).toNat = offset / 2 ^ 32 :=
    UInt32.toNat_ofNat_of_lt' (by rw [UInt32.size]; omega)
  rw [partialParams, if_pos hop, hop]
  change p.partialObject h ((UInt32.ofNat (offset % 2 ^ 32)).toNat +
    (UInt32.ofNat (offset / 2 ^ 32)).toNat * 2 ^ 32) (UInt32.ofNat want).toNat = _
  rw [hlow, hhigh]
  congr 1
  omega

/-- An answer of the device is of an object it holds. -/
def HandedBack (s : Store) (h : UInt32) (offset want : Nat) (data : Bytes) : Prop :=
  ∃ x, s.find h = some x ∧ data <+: x.content.bytes.drop offset ∧ data.length ≤ want

theorem HandedBack.front (hgiven : HandedBack s h offset want data) : FrontOf s h offset data := by
  intro x hx
  obtain ⟨y, hy, hfront, -⟩ := hgiven
  cases hx.symm.trans hy
  exact hfront

theorem partialReadAt_given (hoffset : offset < 2 ^ 64) :
    Proc.Triple (Honest s) (partialReadAt h offset want)
      (fun data m => Honest s m ∧ HandedBack s h offset want data) fun _ m => Honest s m := by
  intro m hm
  have hsame : SameDevice m (partialReadAt h offset want m).2 := by
    apply reads_unmoved.partialReadAt
    rw [hm.op]
    decide
  have honward : Onward m (partialReadAt h offset want m).2 := operation_onward _ _ _ m
  have hafter : Honest s (partialReadAt h offset want m).2 :=
    ⟨hsame.store.trans hm.store, hsame.partialRead.trans hm.op, hm.cache.onward honward⟩
  rcases hrun : partialReadAt h offset want m with ⟨e | data, m'⟩
  · rw [hrun] at hafter
    exact hafter
  · rw [hrun] at hafter
    refine ⟨hafter, ?_⟩
    rw [partialReadAt_run] at hrun
    obtain ⟨hok, hdata, -⟩ := operation_ok hrun
    rw [serve_wideRead _ hm.op hoffset, Phone.partialObject, hm.store] at hok hdata
    cases hx : s.find h with
    | none =>
        rw [hx] at hok
        exact absurd hok (by rw [Phone.refuse_isOk (by decide)]; exact Bool.false_ne_true)
    | some x =>
        rw [hx] at hdata
        have hwant : (UInt32.ofNat want).toNat ≤ want := by
          rw [UInt32.toNat_ofNat']
          exact Nat.mod_le _ _
        refine ⟨x, hx, ?_, ?_⟩
        · rw [hdata, Phone.accept_data]
          exact (List.take_prefix _ _).trans (List.take_prefix _ _)
        · rw [hdata, Phone.accept_data, List.length_take, List.length_take]
          omega

/-- The sum that the release profile checks stays a word. -/
theorem checkedAdd_eq_ok {a b c : Nat} (hsum : checkedAdd a b = .ok c) :
    c = a + b ∧ a + b < 2 ^ 64 := by
  unfold checkedAdd at hsum
  split at hsum
  · rename_i hfits
    cases hsum
    exact ⟨rfl, hfits⟩
  · cases hsum

theorem checkedSub_eq_ok {a b c : Nat} (hdiff : checkedSub a b = .ok c) : c = a - b ∧ b ≤ a := by
  unfold checkedSub at hdiff
  split at hdiff
  · rename_i hle
    cases hdiff
    exact ⟨rfl, hle⟩
  · cases hdiff

theorem HandedBack.append (hgiven : HandedBack s h offset want data) {more : Nat} {tail : Bytes}
    (htail : HandedBack s h (offset + data.length) more tail) :
    HandedBack s h offset (want + more) (data ++ tail) := by
  obtain ⟨x, hx, -, hlength⟩ := id hgiven
  obtain ⟨-, -, -, hmore⟩ := id htail
  refine ⟨x, hx, hgiven.front.append htail.front x hx, ?_⟩
  rw [List.length_append]
  omega

theorem HandedBack.mono (hgiven : HandedBack s h offset want data) {want' : Nat} (hle : want ≤ want') :
    HandedBack s h offset want' data := by
  obtain ⟨x, hx, hfront, hlength⟩ := hgiven
  exact ⟨x, hx, hfront, hlength.trans hle⟩

theorem readFromDevice_given (hoffset : offset < 2 ^ 64) :
    Proc.Triple (Honest s) (readFromDevice h offset want size)
      (fun data m => Honest s m ∧ HandedBack s h offset want data) fun _ m => Honest s m := by
  unfold readFromDevice
  apply Proc.Triple.get_bind
  intro m
  rcases hsplit : splitFinalRead offset want size m.packet with ⟨first, short⟩
  have hcases := splitFinalRead_cases hsplit
  dsimp only
  refine .bind (.weaken (partialReadAt_given hoffset) (fun _ hm => hm.1) (fun _ _ hm => hm)
    fun _ _ hm => hm) fun data => ?_
  by_cases hshort : short = true ∧ data.length = first
  · rw [if_pos hshort]
    refine .bind (.ofExcept (Q := fun last m => Honest s m ∧ HandedBack s h offset first data ∧
      last = offset + first ∧ last < 2 ^ 64) ?_ fun _ _ _ hm => hm.1) fun last => ?_
    · intro last m hsum hm
      obtain ⟨hlast, hword⟩ := checkedAdd_eq_ok hsum
      exact ⟨hm.1, hm.2, hlast, hlast ▸ hword⟩
    intro m hm
    obtain ⟨hhonest, hgiven, hlast, hword⟩ := hm
    have htail : Proc.Triple (Honest s) (partialReadAt h last 1) _ _ := partialReadAt_given hword
    refine Proc.Triple.bind htail (fun tail => ?_) m hhonest
    refine .pure fun m' hm' => ⟨hm'.1, ?_⟩
    have hone : first + 1 = want := splitFinalRead_short hsplit hshort.1
    rw [← hone]
    apply hgiven.append
    rw [hshort.2, ← hlast]
    exact hm'.2
  · rw [if_neg hshort]
    exact .pure fun m' hm' => ⟨hm'.1, hm'.2.mono (by omega)⟩

/-- The bytes read in advance are a front of the object from the offset on. -/
theorem cached_front : Proc.Triple (Honest s) (cached h offset want)
    (fun answer m => Honest s m ∧ ∀ bytes, answer = some bytes →
      FrontOf s h offset bytes ∧ bytes.length ≤ want) fun _ m => Honest s m := by
  unfold cached
  apply Proc.Triple.get_bind
  intro m
  cases hcache : m.cache with
  | none => exact .pure fun _ hm => ⟨hm.1, fun _ hnone => nomatch hnone⟩
  | some c =>
      refine .ofExcept ?_ fun _ _ _ hm => hm.1
      intro answer m' hget hboth
      obtain ⟨hm, rfl⟩ := hboth
      refine ⟨hm, ?_⟩
      intro bytes hsame
      subst hsame
      obtain ⟨rfl, hstart, hbytes, hle, -⟩ := cacheGet_ok hget
      refine ⟨?_, hle⟩
      intro x hx
      have hdata : c.data <+: x.content.bytes.drop c.start :=
        ((hm.cache c hcache).2 x (hm.store.symm ▸ hx)).2
      have hdrop := List.IsPrefix.drop hdata (offset - c.start)
      rw [List.drop_drop, Nat.add_sub_cancel' hstart] at hdrop
      exact hbytes.trans hdrop

/-- Bytes that the device gave go into the cache. -/
theorem Honest.remember {m : Mtp Phone} (hm : Honest s m) (hgiven : HandedBack s h offset want data)
    (hne : data ≠ []) : Honest s { m with cache := some ⟨h, offset, data⟩ } := by
  obtain ⟨x, hx, hfront, -⟩ := hgiven
  refine ⟨hm.store, hm.op, CacheOk.store ?_ hfront hne⟩
  rw [hm.store]
  exact hx

/-- **What a read fills in** stands in the object, whatever the device and the cache give. -/
theorem fillFrom_front (rounds : Nat) (hout : FrontOf s h offset out) (hlength : out.length ≤ want) :
    Proc.Triple (Honest s) (fillFrom h offset want size rounds out)
      (fun data m => Honest s m ∧ FrontOf s h offset data ∧ data.length ≤ want)
      fun _ m => Honest s m := by
  induction rounds generalizing out with
  | zero => exact .pure fun _ hm => ⟨hm, hout, hlength⟩
  | succ rounds ih =>
      unfold fillFrom
      split
      · rename_i hmore
        -- The place of the round is a word, because the sum is checked.
        refine .bind (.ofExcept (Q := fun pos m => Honest s m ∧ pos = offset + out.length ∧
          pos < 2 ^ 64) ?_ fun _ _ _ hm => hm) fun pos => ?_
        · intro pos m hsum hm
          obtain ⟨hpos, hword⟩ := checkedAdd_eq_ok hsum
          exact ⟨hm, hpos, hpos ▸ hword⟩
        intro m hm
        obtain ⟨hhonest, rfl, hword⟩ := hm
        rw [checkedSub_of_le hlength, Proc.bind_ok (Proc.ofExcept_ok _ _)]
        refine Proc.Triple.bind cached_front (fun answer => ?_) m hhonest
        intro m hm
        obtain ⟨hhonest, hhit⟩ := hm
        cases answer with
        | some bytes =>
            obtain ⟨hbytes, hle⟩ := hhit bytes rfl
            refine ih (hout.append hbytes) ?_ m hhonest
            rw [List.length_append]
            omega
        | none =>
            refine Proc.Triple.bind (Q := fun _ m => Honest s m)
              (.ofExcept (fun _ _ _ hm => hm) fun _ _ _ hm => hm) (fun left => ?_) m hhonest
            refine .bind (readFromDevice_given hword) fun data => ?_
            by_cases hnone : data.isEmpty
            · rw [if_pos hnone]
              exact .pure fun _ hm => ⟨hm.1, hout, hlength⟩
            · rw [if_neg hnone]
              intro m hm
              obtain ⟨hhonest, hgiven⟩ := hm
              rw [Proc.bind_ok (Proc.modify_run _ _)]
              refine ih (hout.append (hgiven.front.take _)) ?_ _
                (hhonest.remember hgiven (by simpa using hnone))
              rw [List.length_append, List.length_take]
              omega
      · exact .pure fun _ hm => ⟨hm, hout, hlength⟩

/-- **A read stands in its object**, and the mount stays honest. -/
theorem readAt_front : Proc.Triple (Honest s) (readAt h offset want size)
    (fun data m => Honest s m ∧ FrontOf s h offset data ∧ data.length ≤ min want (size - offset))
    fun _ m => Honest s m := by
  unfold readAt
  split
  · exact .pure fun _ hm => ⟨hm, frontOf_nil, Nat.zero_le _⟩
  · refine .bind (.ofExcept (Q := fun left m => Honest s m ∧ left = size - offset) ?_
      fun _ _ _ hm => hm) fun left => ?_
    · intro left m hdiff hm
      exact ⟨hm, (checkedSub_eq_ok hdiff).1⟩
    · intro m hm
      obtain ⟨hhonest, rfl⟩ := hm
      exact fillFrom_front _ frontOf_nil (Nat.zero_le _) m hhonest

end

/-! ## Every operation of a mount -/

/-- A step after which the mount is honest, where it was before. -/
def StaysHonest (m m' : Mtp Phone) : Prop :=
  Honest m.session.store m → Honest m'.session.store m'

theorem Onward.staysHonest {m m' : Mtp Phone} (h : Onward m m') : StaysHonest m m' :=
  fun hm => ⟨rfl, h.partialRead.trans hm.op, hm.cache.onward h⟩

theorem readAt_staysHonest (h : UInt32) (offset want size : Nat) :
    Proc.Steps StaysHonest (readAt h offset want size : Proc Error (Mtp Phone) Bytes) := by
  intro m hm
  have hread := @readAt_front m.session.store h offset want size m hm
  rcases hrun : readAt h offset want size m with ⟨e | data, m'⟩
  · rw [hrun] at hread
    exact ⟨rfl, hread.op, hread.cache⟩
  · rw [hrun] at hread
    exact ⟨rfl, hread.1.op, hread.1.cache⟩

end Mtp

namespace Fs

variable {fs fs' fs₁ : Fs Phone} {path : Str} {size offset : Nat} {fi : Option Nat} {bytes : Bytes}
  {h : UInt32}

open Mtp in
theorem respects_honest : RespectsSends StaysHonest where
  refl _ hm := hm
  trans h h' hm := h' (h hm)
  list parent m := (asks_onward.list parent m).staysHonest
  read := readAt_staysHonest
  info m := (storageInfo_onward m).staysHonest
  rename h name m := (renameObject_onward h name m).staysHonest
  move h p m := (moveObject_onward h p m).staysHonest
  delete h m := (deleteObject_onward h m).staysHonest
  send parent name data isFolder m := (sendObject_onward parent name data isFolder m).staysHonest
  stream parent name reader size m := (sendObjectStream_onward parent name reader size m).staysHonest

/-- The object a read is about: that of the handle, or the one that the path names. -/
def ReadOf (path : Str) (fi : Option Nat) (fs : Fs Phone) (h : UInt32) (fs₁ : Fs Phone) : Prop :=
  (∃ fh, fi = some fh ∧ fhHandle fh ≠ 0 ∧ h = fhHandle fh ∧ fs₁ = fs) ∨
    (∀ fh, fi = some fh → fhHandle fh = 0) ∧ resolved path fs = (.ok h, fs₁)

/-- A read of a file that no program writes asks the device for the object. -/
theorem opRead_object (hfree : fs.pending path = none)
    (hrun : opRead path size offset fi fs = (.ok bytes, fs')) :
    ∃ h fs₁, ReadOf path fi fs h fs₁ ∧ bytesOf h size offset fs₁ = (.ok bytes, fs') := by
  rw [opRead, Proc.bind_ok (Proc.get_run _), hfree] at hrun
  dsimp only at hrun
  have hwalk : (∀ fh, fi = some fh → fhHandle fh = 0) →
      (resolved path >>= fun h => bytesOf h size offset) fs = (.ok bytes, fs') →
      ∃ h fs₁, ReadOf path fi fs h fs₁ ∧ bytesOf h size offset fs₁ = (.ok bytes, fs') := by
    intro hzero hwalk
    obtain ⟨h, fs₁, hresolved, hbytes⟩ := Proc.bind_eq_ok hwalk
    exact ⟨h, fs₁, .inr ⟨hzero, hresolved⟩, hbytes⟩
  cases fi with
  | none =>
      apply hwalk
      · intro fh hnone
        cases hnone
      · exact hrun
  | some fh =>
      dsimp only at hrun
      by_cases hzero : fhHandle fh = 0
      · rw [if_neg (not_not.mpr hzero)] at hrun
        refine hwalk ?_ hrun
        intro _ hnothing
        cases hnothing
        exact hzero
      · rw [if_pos hzero] at hrun
        exact ⟨fhHandle fh, fs, .inl ⟨fh, rfl, hzero, rfl, rfl⟩, hrun⟩

/-- A read is about one object. -/
theorem ReadOf.unique {h' : UInt32} {fs₁' : Fs Phone} (hof : ReadOf path fi fs h fs₁)
    (hof' : ReadOf path fi fs h' fs₁') : h' = h ∧ fs₁' = fs₁ := by
  rcases hof with ⟨fh, rfl, hne, rfl, rfl⟩ | ⟨hzero, hresolved⟩
  · rcases hof' with ⟨fh', hfh, -, rfl, rfl⟩ | ⟨hzero', -⟩
    · cases hfh
      exact ⟨rfl, rfl⟩
    · exact absurd (hzero' fh rfl) hne
  · rcases hof' with ⟨fh', rfl, hne', -⟩ | ⟨-, hresolved'⟩
    · exact absurd (hzero fh' rfl) hne'
    · cases hresolved.symm.trans hresolved'
      exact ⟨rfl, rfl⟩

/-- Looking for the object changes nothing on the device, and the mount stays honest. -/
theorem ReadOf.honest (hof : ReadOf path fi fs h fs₁) (hm : Mtp.Honest fs.store fs.mtp) :
    Mtp.Honest fs.store fs₁.mtp ∧ fs₁.mtp.session.policy = fs.mtp.session.policy := by
  rcases hof with ⟨fh, -, -, -, rfl⟩ | ⟨-, hresolved⟩
  · exact ⟨hm, rfl⟩
  · have hsame := (walks_keeps Mtp.reads_unmoved.toChains Mtp.reads_unmoved.list).looks.resolved
      path fs
    have hhonest := (walks_keeps respects_honest.toChains respects_honest.list).looks.resolved
      path fs
    rw [hresolved] at hsame hhonest
    have hdevice : Mtp.SameDevice fs.mtp fs₁.mtp := by
      apply hsame.device
      rw [hm.op]
      decide
    have hafter := hhonest.device hm
    exact ⟨⟨hdevice.store, hafter.op, hafter.cache⟩, hdevice.policy⟩

/-- **A read of an honest mount** gives bytes of the object, from the offset on and no more than
the caller and the listing allow; from a generous device it gives all of them. -/
theorem bytesOf_front (hm : Mtp.Honest fs.store fs.mtp)
    (hrun : bytesOf h size offset fs = (.ok bytes, fs')) :
    ∃ e, fs.tree.get h = some e ∧ Mtp.FrontOf fs.store h offset bytes ∧
      bytes.length ≤ min size (e.size - offset) ∧
      ∀ x, fs.store.find h = some x → x.size = e.size → fs.mtp.session.policy.Generous →
        size < 2 ^ 32 → bytes = (x.content.bytes.drop offset).take size := by
  rw [bytesOf, Proc.bind_ok (Proc.get_run _)] at hrun
  cases he : fs.tree.get h with
  | none =>
      rw [he] at hrun
      cases hrun
  | some e =>
      rw [he] at hrun
      dsimp only at hrun
      refine ⟨e, rfl, ?_⟩
      by_cases hpast : offset ≥ e.size
      · rw [if_pos hpast] at hrun
        cases hrun
        refine ⟨Mtp.frontOf_nil, Nat.zero_le _, ?_⟩
        intro x hx hsize hgenerous hcount
        rw [List.drop_of_length_le (hsize.trans_le hpast), List.take_nil]
      rw [if_neg hpast, Proc.bind_ok (tryMtp_run _ _)] at hrun
      have hread := @Mtp.readAt_front fs.store h offset (min size (e.size - offset)) e.size fs.mtp hm
      rcases hanswer : Mtp.readAt h offset (min size (e.size - offset)) e.size fs.mtp with
        ⟨err | data, m'⟩
      · rw [hanswer] at hrun
        cases hrun
      rw [hanswer] at hrun hread
      cases hrun
      obtain ⟨-, hfront, hlength⟩ := hread
      refine ⟨hfront.take _, ?_, ?_⟩
      · rw [List.length_take]
        omega
      · intro x hx hsize hgenerous hcount
        have hexact := Mtp.readAt_exact offset hgenerous (hm.store.symm ▸ hx) hm.cache hm.op
          (show min size (e.size - offset) < 2 ^ 32 by omega)
        rw [← hsize] at hanswer
        rw [← hsize, hanswer] at hexact
        cases hexact
        rw [List.drop_take, List.take_take, List.take_eq_take_iff, List.length_drop, Object.size]
        omega

/-! ## Runs -/

/-- A later device: a whole object that is still there holds what it held. -/
structure Aged (m m' : Mtp Phone) : Prop where
  later : Store.Later m.session.store m'.session.store
  policy : m'.session.policy = m.session.policy

theorem respects_aged : RespectsSends Aged := by
  have htakes : Mtp.Takes (fun _ => True) Aged := {
    refl := fun m => ⟨.refl _, rfl⟩
    trans := fun h h' => ⟨h.later.trans h'.later, h'.policy.trans h.policy⟩
    exec := fun r _ m => ⟨(Phone.exec_served m.session r).change.later,
      (Phone.exec_served m.session r).policy⟩
    cache := fun _ _ => ⟨.refl _, rfl⟩ }
  exact respects_of_takes htakes fun _ => ⟨.refl _, rfl⟩

/-- A mount that starts with nothing read in advance is honest in every state it reaches. -/
theorem honest_run {m : Mtp Phone} (hcold : m.cache = none)
    (hop : m.partialRead = Op.getPartialObject64) (host : Host) (calls : List (Host × Call)) :
    Mtp.Honest ((start m host).run calls).store ((start m host).run calls).mtp := by
  apply run_device respects_honest (start m host) calls
  refine ⟨rfl, hop, ?_⟩
  intro c hc
  rw [show (start m host).mtp.cache = none from hcold] at hc
  cases hc

/-- **A read is never stale.**  In every state a mount reaches, whatever failed on the way, a read
of a file that no program writes gives what its object holds from the offset on, and no more than
the caller asked for and the listing says; a device that gives a byte of every range gives all of
it. -/
theorem reads_never_stale {m : Mtp Phone} (hcold : m.cache = none)
    (hop : m.partialRead = Op.getPartialObject64) (host : Host) (calls : List (Host × Call))
    (hfree : ((start m host).run calls).pending path = none)
    (hread : (opRead path size offset fi ((start m host).run calls)).1 = .ok bytes) :
    ∃ h fs₁ e, ReadOf path fi ((start m host).run calls) h fs₁ ∧ fs₁.tree.get h = some e ∧
      bytes.length ≤ min size (e.size - offset) ∧
      ∀ x, ((start m host).run calls).store.find h = some x →
        bytes <+: x.content.bytes.drop offset ∧
        (x.size = e.size → m.session.policy.Generous → size < 2 ^ 32 →
          bytes = (x.content.bytes.drop offset).take size) := by
  obtain ⟨h, fs₁, hof, hbytes⟩ := opRead_object hfree (Prod.ext hread rfl)
  obtain ⟨hhonest, hpolicy⟩ := hof.honest (honest_run hcold hop host calls)
  have hstore : fs₁.store = ((start m host).run calls).store := hhonest.store
  have hsame : fs₁.mtp.session.policy = m.session.policy :=
    hpolicy.trans (run_device respects_aged (start m host) calls).policy
  obtain ⟨e, he, hfront, hlength, hall⟩ := bytesOf_front (hstore.symm ▸ hhonest) hbytes
  refine ⟨h, fs₁, e, hof, he, hlength, ?_⟩
  intro x hx
  rw [← hstore] at hx
  exact ⟨hfront x hx, fun hsize hgenerous => hall x hx hsize (hsame.symm ▸ hgenerous)⟩

/-- A device that loses the answer to every rename. -/
def Policy.forgetful : Policy :=
  { Policy.obliging with
    fault := fun _ _ r =>
      if r.code = Op.setObjectPropValue then some (.lost (.incomplete r.step 12 0))
      else none }

/-- A program reads a file of three zeros, and another one gives it a new name. -/
def renamedBetween : List (Host × Call) :=
  [(Host.obliging, .read ['/', 'a'] 3 0 none), (Host.obliging, .rename ['/', 'a'] ['/', 'b'])]

/-- The mount after that, on a device whose answer to the rename was lost. -/
def afterRename : Fs Phone :=
  (start (Mtp.standard (Phone.holding (Mtp.storeOfZeros 3 Mtp.three_fits) Policy.forgetful))
    Host.obliging).run renamedBetween

/-- A read of the new name gives the bytes that the file holds. -/
theorem reads_never_stale_renamed : ∃ h fs₁ e, ReadOf ['/', 'b'] none afterRename h fs₁ ∧
    fs₁.tree.get h = some e ∧ ([0, 0] : Bytes).length ≤ min 5 (e.size - 1) ∧
    ∀ x, afterRename.store.find h = some x → [0, 0] <+: x.content.bytes.drop 1 := by
  obtain ⟨h, fs₁, e, hof, he, hlength, hbytes⟩ := @reads_never_stale ['/', 'b'] 5 1 none [0, 0]
    (Mtp.standard (Phone.holding (Mtp.storeOfZeros 3 Mtp.three_fits) Policy.forgetful)) rfl rfl
    Host.obliging renamedBetween rfl (by decide +kernel)
  exact ⟨h, fs₁, e, hof, he, hlength, fun x hx => (hbytes x hx).1⟩

end Fs

end Bsdroid
