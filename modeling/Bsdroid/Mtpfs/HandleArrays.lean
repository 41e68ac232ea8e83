import Bsdroid.Cellphone.Device

/-!
# Arrays of handles

`GetObjectHandles` and `GetStorageIDs` answer with an array: a count and so many
words.  `Outcome.asU32Array` checks the count, and the filesystem drops it.  The two
agree exactly about an array whose count is the count of words that follow
(`Mtp.arrays_alike_iff`).
-/

namespace Bsdroid

namespace Reader

/-- Words one after the other. -/
theorem repeated_readU32 (field : String) {n : Nat} {rest : Bytes} (h : 4 * n ≤ rest.length) :
    repeated (readU32 field) n rest = (.ok ((wordsOf rest).take n), rest.drop (4 * n)) := by
  induction n generalizing rest with
  | zero => rfl
  | succ n ih =>
      match rest, h with
      | a :: b :: c :: d :: rest, h =>
          have hlen : 4 * n ≤ rest.length := by
            simp only [List.length_cons] at h
            omega
          have hword : readU32 field (a :: b :: c :: d :: rest) =
              (.ok (fromLe32 [a, b, c, d]), rest) :=
            Proc.bind_ok (@take_append [a, b, c, d] 4 rfl field rest)
          rw [repeated, Proc.bind_ok hword, Proc.bind_ok (ih hlen)]
          rfl
      | [], h => simp at h
      | [_], h => simp at h; omega
      | [_, _], h => simp at h; omega
      | [_, _, _], h => simp at h; omega

/-- An array is a count and so many elements. -/
theorem readArray_run {α : Type} (field : String) (width : Nat) (read : String → Reader α)
    (data : Bytes) : readArray field width read data = match readU32 field data with
      | (.ok count, rest) =>
          if rest.length < count.toNat * width then
            (.error (.truncated field (count.toNat * width) rest.length), rest)
          else repeated (read field) count.toNat rest
      | (.error e, rest) => (.error e, rest) := by
  rcases hcount : readU32 field data with ⟨e | count, rest⟩
  · exact Proc.bind_error hcount
  · exact Proc.bind_ok hcount

end Reader

theorem length_wordsOf (data : Bytes) : (wordsOf data).length = data.length / 4 := by
  fun_induction wordsOf data with
  | case1 a b c d rest ih =>
      rw [List.length_cons, ih, show (a :: b :: c :: d :: rest).length = rest.length + 4 from rfl]
      omega
  | case2 data hshort =>
      rcases data with _ | ⟨a, _ | ⟨b, _ | ⟨c, _ | ⟨d, rest⟩⟩⟩⟩
      case cons.cons.cons.cons => exact absurd rfl (hshort a b c d rest)
      all_goals simp

/-- The count in front of an array. -/
def arrayCount (data : Bytes) : Nat := (fromLe32 (data.take 4)).toNat

/-- **The checked decoder** takes as many words as the count says, when they are there. -/
theorem parseU32Array_eq_ok {data : Bytes} {hs : List UInt32} :
    parseU32Array data = .ok hs ↔ 4 ≤ data.length ∧ 4 * arrayCount data ≤ data.length - 4 ∧
      hs = (wordsOf (data.drop 4)).take (arrayCount data) := by
  by_cases hlen : data.length < 4
  · have hshort : parseU32Array data = .error (.truncated "array" 4 data.length) := by
      have htake : Reader.take 4 "array" data =
          (.error (.truncated "array" 4 data.length), data) := by
        rw [Reader.take, if_pos hlen]
      have hcount : Reader.readU32 "array" data =
          (.error (.truncated "array" 4 data.length), data) := Proc.bind_error htake
      rw [parseU32Array, Reader.readU32Array, Reader.readArray_run, hcount]
    rw [hshort]
    refine ⟨fun h => ?_, fun h => absurd h.1 (by omega)⟩
    cases h
  · have hcount : Reader.readU32 "array" data =
        (.ok (fromLe32 (data.take 4)), data.drop 4) := by
      have htake : Reader.take 4 "array" data = (.ok (data.take 4), data.drop 4) := by
        rw [Reader.take, if_neg hlen]
      exact Proc.bind_ok htake
    rw [parseU32Array, Reader.readU32Array, Reader.readArray_run, hcount]
    dsimp only
    rw [List.length_drop]
    by_cases hneed : data.length - 4 < (fromLe32 (data.take 4)).toNat * 4
    · rw [if_pos hneed]
      constructor
      · intro h
        cases h
      · intro h
        have hle := h.2.1
        rw [arrayCount] at hle
        omega
    · have hfits : 4 * arrayCount data ≤ (data.drop 4).length := by
        rw [List.length_drop, arrayCount]
        omega
      rw [if_neg hneed]
      show (Reader.repeated (Reader.readU32 "array") (arrayCount data) (data.drop 4)).1 = _ ↔ _
      rw [Reader.repeated_readU32 "array" hfits, List.length_drop] at *
      dsimp only
      constructor
      · intro hok
        exact ⟨by omega, hfits, (Except.ok.inj hok).symm⟩
      · rintro ⟨-, -, rfl⟩
        rfl

theorem Outcome.asU32Array_eq_ok {out : Outcome} {hs : List UInt32} :
    out.asU32Array = .ok hs ↔ (out.data = [] ∧ hs = []) ∨
      (4 ≤ out.data.length ∧ 4 * arrayCount out.data ≤ out.data.length - 4 ∧
        hs = (wordsOf (out.data.drop 4)).take (arrayCount out.data)) := by
  by_cases hnil : out.data = []
  · rw [Outcome.asU32Array, if_pos (List.isEmpty_iff.mpr hnil), hnil]
    constructor
    · intro hok
      exact .inl ⟨rfl, (Except.ok.inj hok).symm⟩
    · rintro (⟨-, rfl⟩ | ⟨hlen, -⟩)
      · rfl
      · simp at hlen
  · rw [Outcome.asU32Array, if_neg (mt List.isEmpty_iff.mp hnil), parseU32Array_eq_ok]
    exact ⟨.inr, fun h => h.resolve_left fun hno => hnil hno.1⟩

/-- The first word of an array is all the filesystem reads of a list of storages. -/
theorem wordsOf_take_four (rest : Bytes) : wordsOf (rest.take 4) = (wordsOf rest).take 1 := by
  rcases rest with _ | ⟨a, _ | ⟨b, _ | ⟨c, _ | ⟨d, rest⟩⟩⟩⟩
  all_goals simp [wordsOf]

namespace Mtp

variable {m : Mtp Device} {parent : UInt32} {out : Outcome} {data : Bytes} {attempts : Nat}

/-! ## Handles -/

/-- The request for the handles of a folder. -/
def handlesRequest (m : Mtp Device) (parent : UInt32) : Request :=
  ⟨"GetObjectHandles", Op.getObjectHandles,
    [m.storage, 0, if parent = root then Association.rootOnly else parent], none⟩

/-- The request for one object. -/
def infoRequest (h : UInt32) : Request := ⟨"GetObjectInfo", Op.getObjectInfo, [h], none⟩

theorem infoRequest_injective : Function.Injective infoRequest := by
  intro h h' heq
  injection heq with _ _ hparams _
  injection hparams

/-- The device answers every question about an object. -/
def TellsObjects (d : Device) : Prop :=
  ∀ log h, ∃ out, d.answer log (infoRequest h) = .ok out ∧ out.isOk = true

/-- Each handle is asked for, in order. -/
theorem infoEntries_asks (htells : TellsObjects m.session) (hs : List UInt32) :
    ∃ es m', infoEntries parent hs m = (.ok es, m') ∧
      m'.session.log = m.session.log ++ hs.map infoRequest := by
  induction hs generalizing m with
  | nil => exact ⟨[], m, rfl, by simp⟩
  | cons h hs ih =>
      obtain ⟨out, hanswer, hok⟩ := htells m.session.log h
      have hop : operation "GetObjectInfo" Op.getObjectInfo [h] m =
          (.ok out.data, m.told (infoRequest h)) := operation_done hanswer hok
      obtain ⟨es, m', hmore, hlog⟩ := @ih (m.told (infoRequest h)) htells
      have hall : m'.session.log = m.session.log ++ (h :: hs).map infoRequest := by
        rw [hlog, told_log, List.append_assoc]
        rfl
      rw [infoEntries, Proc.bind_ok hop, Proc.bind_ok hmore]
      cases hparse : ObjectInfo.parse out.data with
      | error e => exact ⟨_, m', rfl, hall⟩
      | ok info => exact ⟨_, m', rfl, hall⟩

/-- A folder is read with one question for each word that follows the count. -/
theorem listOneAtATime_asks (htells : TellsObjects m.session)
    (hanswer : m.answerTo (handlesRequest m parent) = .ok out) (hok : out.isOk = true) :
    ∃ es m', listOneAtATime parent m = (.ok es, m') ∧
      m'.session.log = m.session.log ++ handlesRequest m parent ::
        (wordsOf (out.data.drop 4)).map infoRequest := by
  have hop : operation "GetObjectHandles" Op.getObjectHandles
      [m.storage, 0, if parent = root then Association.rootOnly else parent] m =
        (.ok out.data, m.told (handlesRequest m parent)) := operation_done hanswer hok
  obtain ⟨es, m', hmore, hlog⟩ :=
    @infoEntries_asks (m.told (handlesRequest m parent)) parent htells (wordsOf (out.data.drop 4))
  refine ⟨es, m', ?_, ?_⟩
  · rw [listOneAtATime, Proc.bind_ok (Proc.get_run _), Proc.bind_ok hop]
    exact hmore
  · rw [hlog, told_log, List.append_assoc]
    rfl

/-- A folder is read as the checked decoder reads the answer: each handle it gives is asked
for, in order, and where it fails the listing fails. -/
def HandlesAlike (data : Bytes) : Prop :=
  ∀ (m : Mtp Device) (parent : UInt32) (out : Outcome), TellsObjects m.session →
    m.answerTo (handlesRequest m parent) = .ok out → out.isOk = true → out.data = data →
      match out.asU32Array with
      | .ok hs => ∃ es m', listOneAtATime parent m = (.ok es, m') ∧
          m'.session.log = m.session.log ++ handlesRequest m parent :: hs.map infoRequest
      | .error _ => ∃ e m', listOneAtATime parent m = (.error e, m')

/-- The count of an array is the count of the words that follow it. -/
def Counted (data : Bytes) : Prop :=
  data = [] ∨ 4 ≤ data.length ∧ arrayCount data = (data.length - 4) / 4

theorem tells_alwaysGives (data : Bytes) : TellsObjects (Device.alwaysGives data) :=
  fun _ _ => ⟨_, rfl, rfl⟩

theorem handlesAlike_iff : HandlesAlike data ↔ Counted data := by
  constructor
  · intro halike
    have hrun := halike (fresh (Device.alwaysGives data) usb2Packet) root _ (tells_alwaysGives data) rfl
      rfl rfl
    obtain ⟨es, m', hlists, hlog⟩ := @listOneAtATime_asks (fresh (Device.alwaysGives data) usb2Packet)
      root _ (tells_alwaysGives data) rfl rfl
    cases hdecoded : (⟨Resp.ok, data, [], 1⟩ : Outcome).asU32Array with
    | error e =>
        rw [hdecoded] at hrun
        obtain ⟨e', m₂, hfails⟩ := hrun
        cases hlists.symm.trans hfails
    | ok hs =>
        rw [hdecoded] at hrun
        obtain ⟨es', m₂, hlists', hlog'⟩ := hrun
        cases hlists.symm.trans hlists'
        have hmap := List.append_cancel_left (hlog.symm.trans hlog')
        have hwords : wordsOf (data.drop 4) = hs :=
          infoRequest_injective.list_map (List.cons.inj hmap).2
        rcases Outcome.asU32Array_eq_ok.mp hdecoded with ⟨hnil, -⟩ | ⟨hlen, hcount, rfl⟩
        · exact .inl hnil
        · refine .inr ⟨hlen, ?_⟩
          have hlength := congrArg List.length hwords
          simp only [List.length_take, length_wordsOf, List.length_drop] at hlength hcount
          omega
  · intro hcounted m parent out htells hanswer hok hdata
    have hdecoded : out.asU32Array = .ok (wordsOf (out.data.drop 4)) := by
      rw [Outcome.asU32Array_eq_ok, hdata]
      rcases hcounted with rfl | ⟨hlen, hcount⟩
      · exact .inl ⟨rfl, rfl⟩
      · refine .inr ⟨hlen, by omega, ?_⟩
        rw [List.take_of_length_le]
        rw [length_wordsOf, List.length_drop, hcount]
    rw [hdecoded]
    exact listOneAtATime_asks htells hanswer hok

/-! ## Storages -/

/-- The request for the storages. -/
def storageRequest : Request := ⟨"GetStorageIDs", Op.getStorageIds, [], none⟩

/-- One attempt takes the first word behind the count, or leads to the next attempt. -/
theorem firstStorageIn_step (hanswer : m.answerTo storageRequest = .ok out)
    (hok : out.isOk = true) : firstStorageIn (attempts + 1) m =
      match wordsOf (out.data.drop 4) with
      | id :: _ => (.ok id, m.told storageRequest)
      | [] => firstStorageIn attempts (m.told storageRequest) := by
  have hop : operation "GetStorageIDs" Op.getStorageIds [] m =
      (.ok out.data, m.told storageRequest) := operation_done hanswer hok
  rw [firstStorageIn, Proc.bind_ok hop, wordsOf_take_four]
  cases wordsOf (out.data.drop 4) with
  | nil => rfl
  | cons id ids => rfl

/-- Each attempt is one request more. -/
theorem length_log_firstStorageIn (attempts : Nat) (m : Mtp Device) :
    m.session.log.length + min attempts 1 ≤
      (firstStorageIn attempts m).2.session.log.length := by
  induction attempts generalizing m with
  | zero => exact Nat.le_refl _
  | succ attempts ih =>
      have htold : (m.told storageRequest).session.log.length = m.session.log.length + 1 :=
        List.length_append
      rcases operation_told m "GetStorageIDs" Op.getStorageIds [] with
        ⟨out, hanswer, hok, -⟩ | ⟨e, -, hfails⟩
      · rw [firstStorageIn_step hanswer hok]
        split
        · dsimp only
          omega
        · have hmore := ih (m.told storageRequest)
          omega
      · rw [firstStorageIn, Proc.bind_error hfails]
        change _ ≤ (m.told storageRequest).session.log.length
        omega

/-- Where no attempt is left, and only there, nothing is asked. -/
theorem attempts_eq_zero {answer : Except Error UInt32}
    (hrun : firstStorageIn attempts m = (answer, m)) : attempts = 0 := by
  have hlength := length_log_firstStorageIn attempts m
  rw [hrun] at hlength
  dsimp only at hlength
  omega

/-- An attempt with more attempts to follow reads the answer as the checked decoder does: it
takes the first of some storages, asks again when there is none, and fails where the decoder
fails. -/
def StorageAlike (attempts : Nat) (data : Bytes) : Prop :=
  ∀ (m : Mtp Device) (out : Outcome), m.answerTo storageRequest = .ok out → out.isOk = true →
    out.data = data →
      match out.asU32Array with
      | .ok (id :: _) => firstStorageIn (attempts + 1) m = (.ok id, m.told storageRequest)
      | .ok [] =>
          firstStorageIn (attempts + 1) m = firstStorageIn attempts (m.told storageRequest)
      | .error _ => ∃ e, firstStorageIn (attempts + 1) m = (.error e, m.told storageRequest)

/-- An array of storages that is whole, or one that is empty and holds no word behind its
count.  The last attempt may also meet a damaged one without a word. -/
def StorageCounted (attempts : Nat) (data : Bytes) : Prop :=
  data = [] ∨ (0 < arrayCount data ∧ 4 * arrayCount data ≤ data.length - 4) ∨
    (data.length < 8 ∧ (attempts = 0 ∨ 4 ≤ data.length ∧ arrayCount data = 0))

theorem storageAlike_iff : StorageAlike attempts data ↔ StorageCounted attempts data := by
  have hlength : (wordsOf (data.drop 4)).length = (data.length - 4) / 4 := by
    rw [length_wordsOf, List.length_drop]
  constructor
  · intro halike
    have hrun := halike (fresh (Device.alwaysGives data) usb2Packet) _ rfl rfl rfl
    have hstep := @firstStorageIn_step (fresh (Device.alwaysGives data) usb2Packet) _ attempts rfl rfl
    dsimp only at hstep
    cases hdecoded : (⟨Resp.ok, data, [], 1⟩ : Outcome).asU32Array with
    | error e =>
        rw [hdecoded] at hrun
        obtain ⟨e', hfails⟩ := hrun
        rw [hfails] at hstep
        cases hwords : wordsOf (data.drop 4) with
        | cons id ids =>
            rw [hwords] at hstep
            cases hstep
        | nil =>
            rw [hwords] at hstep hlength
            rw [List.length_nil] at hlength
            exact .inr (.inr ⟨by omega, .inl (attempts_eq_zero hstep.symm)⟩)
    | ok hs =>
        rw [hdecoded] at hrun
        rcases Outcome.asU32Array_eq_ok.mp hdecoded with ⟨hnil, -⟩ | ⟨hlen, hcount, rfl⟩
        · exact .inl hnil
        dsimp only at hlen hcount hrun
        by_cases hzero : arrayCount data = 0
        · rw [hzero, List.take_zero] at hrun
          dsimp only at hrun
          rw [hrun] at hstep
          cases hwords : wordsOf (data.drop 4) with
          | cons id ids =>
              rw [hwords] at hstep
              obtain rfl := attempts_eq_zero hstep
              cases hstep
          | nil =>
              rw [hwords, List.length_nil] at hlength
              exact .inr (.inr ⟨by omega, .inr ⟨hlen, hzero⟩⟩)
        · exact .inr (.inl ⟨Nat.pos_of_ne_zero hzero, hcount⟩)
  · intro hcounted m out hanswer hok hdata
    have hstep := @firstStorageIn_step m out attempts hanswer hok
    rw [hdata] at hstep
    cases hwords : wordsOf (data.drop 4) with
    | cons id ids =>
        -- There is a word, so only a whole array is left.
        rw [hwords, List.length_cons] at hlength
        rw [hwords] at hstep
        have hwhole : 0 < arrayCount data ∧ 4 * arrayCount data ≤ data.length - 4 := by
          rcases hcounted with rfl | hwhole | ⟨hshort, -⟩
          · simp at hlength
          · exact hwhole
          · omega
        obtain ⟨count, hsucc⟩ := Nat.exists_eq_succ_of_ne_zero hwhole.1.ne'
        have hdecoded : out.asU32Array = .ok (id :: ids.take count) := by
          rw [Outcome.asU32Array_eq_ok, hdata]
          refine .inr ⟨by omega, hwhole.2, ?_⟩
          rw [hwords, hsucc]
          rfl
        rw [hdecoded]
        exact hstep
    | nil =>
        rw [hwords, List.length_nil] at hlength
        rw [hwords] at hstep
        cases hdecoded : out.asU32Array with
        | ok hs =>
            have hnone : hs = [] := by
              rcases Outcome.asU32Array_eq_ok.mp hdecoded with ⟨-, rfl⟩ | ⟨-, -, rfl⟩
              · rfl
              · rw [hdata, hwords, List.take_nil]
            rw [hnone]
            exact hstep
        | error e =>
            have hlast : attempts = 0 := by
              by_contra hmore
              have hok' : out.asU32Array = .ok [] := by
                rw [Outcome.asU32Array_eq_ok, hdata]
                rcases hcounted with hnil | hwhole | ⟨hshort, hzero | ⟨hlen, hcount⟩⟩
                · exact .inl ⟨hnil, rfl⟩
                · omega
                · exact absurd hzero hmore
                · exact .inr ⟨hlen, by omega, by rw [hcount, List.take_zero]⟩
              cases hdecoded.symm.trans hok'
            rw [hlast] at hstep ⊢
            exact ⟨_, hstep⟩

/-- **An array decodes the same everywhere** exactly when its count is the count of the words
that follow, for handles, and when it is whole or shows no storage, for storages. -/
theorem arrays_alike_iff (attempts : Nat) (data : Bytes) :
    (HandlesAlike data ↔ Counted data) ∧
      (StorageAlike attempts data ↔ StorageCounted attempts data) :=
  ⟨handlesAlike_iff, storageAlike_iff⟩

/-- An array that says two handles and holds one: the decoder fails, and the filesystem lists
one object. -/
theorem damaged_array_listed : ¬ HandlesAlike [2, 0, 0, 0, 5, 0, 0, 0] := by
  intro halike
  rcases handlesAlike_iff.mp halike with hnil | ⟨-, hcount⟩
  · cases hnil
  · revert hcount
    decide

end Mtp

end Bsdroid
