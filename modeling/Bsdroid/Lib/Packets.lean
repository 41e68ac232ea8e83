import Mathlib.Data.List.Basic

/-!
# Transfers as packets

A transfer goes over the wire in packets of one size.  Every packet but the last
is full, and a packet that is not full ends what is read on the other side.  A
message whose length is a whole number of packets therefore needs an empty packet
behind it (`framed`), and `untilShort` and `collect` are the two ways a receiver
puts packets together: up to the first packet that is not full, and up to a
capacity.
-/

namespace Packets

variable {α : Type*} {size : Nat}

/-- Cuts bytes into packets.  Each round takes at least one byte, so the length
bounds the rounds. -/
def cutIn (size : Nat) : Nat → List α → List (List α)
  | 0, _ => []
  | rounds + 1, bytes =>
      if bytes = [] then [] else bytes.take size :: cutIn size rounds (bytes.drop size)

/-- The packets that carry some bytes. -/
def cut (size : Nat) (bytes : List α) : List (List α) := cutIn size bytes.length bytes

/-- The packets of one transfer: an empty transfer is an empty packet. -/
def carry (size : Nat) (bytes : List α) : List (List α) :=
  if bytes = [] then [[]] else cut size bytes

/-- The packets of a message that ends with a packet that is not full. -/
def framed (size : Nat) (bytes : List α) : List (List α) :=
  cut size bytes ++ if size ∣ bytes.length then [[]] else []

/-- The bytes up to the first packet that is not full, and the packets behind
it. -/
def untilShort (size : Nat) : List (List α) → Option (List α × List (List α))
  | [] => none
  | p :: rest =>
      if p.length < size then some (p, rest)
      else (untilShort size rest).map fun r => (p ++ r.1, r.2)

/-- The bytes a receiver with room for `capacity` takes at once: it stops when the
room is used up or a packet is not full.  With neither it waits. -/
def collect (size : Nat) : Nat → List (List α) → Option (List α × List (List α))
  | room, [] => if room = 0 then some ([], []) else none
  | room, p :: rest =>
      if room = 0 then some ([], p :: rest)
      else if p.length < size then some (p, rest)
      else (collect size (room - size) rest).map fun r => (p ++ r.1, r.2)

/-! ## Cutting -/

/-- Rounds beyond the length change nothing. -/
theorem cutIn_eq_cutIn (hsize : 0 < size) {rounds rounds' : Nat} {bytes : List α}
    (h : bytes.length ≤ rounds) (h' : bytes.length ≤ rounds') :
    cutIn size rounds bytes = cutIn size rounds' bytes := by
  induction rounds generalizing rounds' bytes with
  | zero =>
      rw [List.length_eq_zero_iff.mp (Nat.le_zero.mp h)]
      cases rounds' <;> rfl
  | succ rounds ih =>
      cases bytes with
      | nil => cases rounds' <;> rfl
      | cons b bytes =>
          rw [List.length_cons] at h h'
          obtain ⟨rounds', rfl⟩ : ∃ r, rounds' = r + 1 := ⟨rounds' - 1, by omega⟩
          have hdrop : ((b :: bytes).drop size).length ≤ bytes.length := by
            rw [List.length_drop, List.length_cons]
            omega
          have hsame : cutIn size rounds ((b :: bytes).drop size) =
              cutIn size rounds' ((b :: bytes).drop size) := ih (by omega) (by omega)
          rw [cutIn, cutIn, if_neg (List.cons_ne_nil b bytes),
            if_neg (List.cons_ne_nil b bytes), hsame]

@[simp] theorem cut_nil : cut size ([] : List α) = [] := rfl

/-- The first packet, and the packets of the rest. -/
theorem cut_of_ne_nil (hsize : 0 < size) {bytes : List α} (h : bytes ≠ []) :
    cut size bytes = bytes.take size :: cut size (bytes.drop size) := by
  have hpos := List.length_pos_iff.mpr h
  obtain ⟨rounds, hrounds⟩ : ∃ r, bytes.length = r + 1 := ⟨bytes.length - 1, by omega⟩
  rw [cut, hrounds, cutIn, if_neg h, cut]
  rw [cutIn_eq_cutIn hsize (by rw [List.length_drop]; omega) (Nat.le_refl _)]

/-- **Induction packet by packet.** -/
theorem cut_induction (hsize : 0 < size) {motive : List α → Prop} (hnil : motive [])
    (hcons : ∀ bytes, bytes ≠ [] → motive (bytes.drop size) → motive bytes)
    (bytes : List α) : motive bytes := by
  induction hn : bytes.length using Nat.strongRecOn generalizing bytes with
  | _ n ih =>
      by_cases h : bytes = []
      · rw [h]
        exact hnil
      · have hpos := List.length_pos_iff.mpr h
        exact hcons bytes h (ih (bytes.drop size).length (by rw [List.length_drop]; omega) _ rfl)

/-- **The packets of some bytes hold the bytes.** -/
theorem flatten_cut (hsize : 0 < size) (bytes : List α) : (cut size bytes).flatten = bytes := by
  induction bytes using cut_induction hsize with
  | hnil => rfl
  | hcons bytes h ih => rw [cut_of_ne_nil hsize h, List.flatten_cons, ih, List.take_append_drop]

theorem flatten_carry (hsize : 0 < size) (bytes : List α) :
    (carry size bytes).flatten = bytes := by
  rw [carry]
  by_cases h : bytes = []
  · rw [if_pos h, h]
    rfl
  · rw [if_neg h, flatten_cut hsize]

/-- The bytes of the first packets. -/
theorem flatten_take_cut (hsize : 0 < size) (count : Nat) (bytes : List α) :
    ((cut size bytes).take count).flatten = bytes.take (count * size) := by
  induction count generalizing bytes with
  | zero => simp
  | succ count ih =>
      by_cases h : bytes = []
      · simp [h]
      · rw [cut_of_ne_nil hsize h, List.take_succ_cons, List.flatten_cons, ih,
          Nat.succ_mul, Nat.add_comm, List.take_add]

/-- A whole number of packets has no packet that is not full. -/
theorem length_of_mem_cut (hsize : 0 < size) {bytes p : List α} (hdvd : size ∣ bytes.length)
    (hp : p ∈ cut size bytes) : p.length = size := by
  induction bytes using cut_induction hsize with
  | hnil => cases hp
  | hcons bytes h ih =>
      have hle := Nat.le_of_dvd (List.length_pos_iff.mpr h) hdvd
      rw [cut_of_ne_nil hsize h] at hp
      rcases List.mem_cons.mp hp with rfl | hp
      · rw [List.length_take]
        exact Nat.min_eq_left hle
      · exact ih (by rw [List.length_drop]; exact Nat.dvd_sub hdvd (Nat.dvd_refl size)) hp

/-- A packet that is not full is the last one. -/
theorem le_of_mem_take_cut (hsize : 0 < size) {count : Nat} {bytes p : List α}
    (hp : p ∈ (cut size bytes).take count) (hshort : p.length < size) :
    bytes.length ≤ count * size := by
  induction bytes using cut_induction hsize generalizing count with
  | hnil => exact Nat.zero_le _
  | hcons bytes h ih =>
      cases count with
      | zero =>
          rw [List.take_zero] at hp
          cases hp
      | succ count =>
          rw [cut_of_ne_nil hsize h, List.take_succ_cons] at hp
          rw [Nat.succ_mul]
          rcases List.mem_cons.mp hp with rfl | hp
          · rw [List.length_take] at hshort
            omega
          · have hrest := ih hp
            rw [List.length_drop] at hrest
            omega

/-! ## Reading until a packet is not full -/

/-- Full packets do not end a read. -/
theorem untilShort_cut_of_dvd (hsize : 0 < size) {bytes : List α} (hdvd : size ∣ bytes.length)
    (rest : List (List α)) :
    untilShort size (cut size bytes ++ rest) =
      (untilShort size rest).map fun r => (bytes ++ r.1, r.2) := by
  induction bytes using cut_induction hsize with
  | hnil => simp
  | hcons bytes h ih =>
      have hle := Nat.le_of_dvd (List.length_pos_iff.mpr h) hdvd
      have hdrop : size ∣ (bytes.drop size).length := by
        rw [List.length_drop]
        exact Nat.dvd_sub hdvd (Nat.dvd_refl size)
      have hfull : ¬ (bytes.take size).length < size := by
        rw [List.length_take]
        omega
      rw [cut_of_ne_nil hsize h, List.cons_append, untilShort, if_neg hfull, ih hdrop,
        Option.map_map]
      congr 1
      funext r
      simp only [Function.comp_apply, ← List.append_assoc, List.take_append_drop]

/-- A packet that is not full ends a read. -/
theorem untilShort_cut_of_not_dvd (hsize : 0 < size) {bytes : List α}
    (hdvd : ¬ size ∣ bytes.length) (rest : List (List α)) :
    untilShort size (cut size bytes ++ rest) = some (bytes, rest) := by
  induction bytes using cut_induction hsize with
  | hnil => exact absurd (Nat.dvd_zero size) hdvd
  | hcons bytes h ih =>
      have hpos := List.length_pos_iff.mpr h
      rw [cut_of_ne_nil hsize h, List.cons_append, untilShort, List.length_take]
      by_cases hlt : bytes.length < size
      · rw [if_pos (by omega), List.take_of_length_le (by omega),
          List.drop_of_length_le (by omega)]
        rfl
      · have hdrop : ¬ size ∣ (bytes.drop size).length := by
          intro hrest
          rw [List.length_drop] at hrest
          exact hdvd ((Nat.dvd_sub_iff_left (by omega) (Nat.dvd_refl size)).mp hrest)
        rw [if_neg (by omega), ih hdrop, Option.map_some, List.take_append_drop]

/-- **A framed message comes out whole.** -/
theorem untilShort_framed (hsize : 0 < size) (bytes : List α) (rest : List (List α)) :
    untilShort size (framed size bytes ++ rest) = some (bytes, rest) := by
  rw [framed, List.append_assoc]
  by_cases hdvd : size ∣ bytes.length
  · rw [if_pos hdvd, untilShort_cut_of_dvd hsize hdvd, List.singleton_append, untilShort,
      List.length_nil, if_pos hsize, Option.map_some, List.append_nil]
  · rw [if_neg hdvd, List.nil_append, untilShort_cut_of_not_dvd hsize hdvd]

/-- **Transfers that are whole packets, up to the last one, come out as one
message.** -/
theorem untilShort_carry (hsize : 0 < size) {data : List (List α)}
    (hsome : ∀ w ∈ data, w ≠ []) (hwhole : ∀ w ∈ data.dropLast, size ∣ w.length) :
    untilShort size
        ((data ++ if size ∣ data.flatten.length then [[]] else []).flatMap (carry size)) =
      some (data.flatten, []) := by
  induction data with
  | nil =>
      rw [List.flatten_nil, List.length_nil, if_pos (Nat.dvd_zero size), List.nil_append,
        List.flatMap_singleton, carry, if_pos rfl, untilShort, List.length_nil, if_pos hsize]
  | cons w data ih =>
      have hw : carry size w = cut size w := if_neg (hsome w List.mem_cons_self)
      have hrest := ih (fun v hv => hsome v (List.mem_cons_of_mem w hv))
      rw [List.cons_append, List.flatMap_cons, hw, List.flatten_cons, List.length_append]
      by_cases hlast : data = []
      · subst hlast
        have hframed : cut size w ++
            (if size ∣ w.length then [([] : List α)] else []).flatMap (carry size) =
            framed size w := by
          rw [framed]
          split
          · rw [List.flatMap_singleton, carry, if_pos rfl]
          · rfl
        have hmessage := untilShort_framed hsize w []
        rw [List.append_nil] at hmessage
        simp only [List.flatten_nil, List.length_nil, Nat.add_zero, List.nil_append,
          List.append_nil, hframed, hmessage]
      · obtain ⟨v, data', rfl⟩ := List.exists_cons_of_ne_nil hlast
        rw [List.dropLast_cons_of_ne_nil hlast] at hwhole
        have hdvd := hwhole w List.mem_cons_self
        rw [untilShort_cut_of_dvd hsize hdvd, if_congr (Nat.dvd_add_right hdvd) rfl rfl,
          hrest (fun v hv => hwhole v (List.mem_cons_of_mem w hv)), Option.map_some]

/-! ## Reading up to a capacity -/

/-- **One read of a framed message** takes as much of it as fits, and the packet
that ends it when there is room left. -/
theorem collect_framed (hsize : 0 < size) {room : Nat} (hroom : size ∣ room) (bytes : List α)
    (rest : List (List α)) :
    collect size room (framed size bytes ++ rest) =
      some (bytes.take room,
        if bytes.length < room then rest else framed size (bytes.drop room) ++ rest) := by
  induction bytes using cut_induction hsize generalizing room with
  | hnil =>
      by_cases hzero : room = 0
      · subst hzero
        simp [framed, collect]
      · have hpos : 0 < room := Nat.pos_of_ne_zero hzero
        simp [framed, collect, hzero, hsize, hpos]
  | hcons bytes h ih =>
      by_cases hzero : room = 0
      · subst hzero
        rw [List.take_zero, List.drop_zero, if_neg (Nat.not_lt_zero _)]
        cases hpackets : framed size bytes ++ rest with
        | nil => rfl
        | cons p packets => rfl
      · have hpos := List.length_pos_iff.mpr h
        have hle := Nat.le_of_dvd (Nat.pos_of_ne_zero hzero) hroom
        rw [framed, cut_of_ne_nil hsize h, List.cons_append, List.cons_append, collect,
          if_neg hzero, List.length_take]
        by_cases hlt : bytes.length < size
        · have hdvd : ¬ size ∣ bytes.length := fun hdvd =>
            absurd (Nat.le_of_dvd hpos hdvd) (by omega)
          rw [if_pos (by omega), if_neg hdvd, if_pos (by omega),
            List.take_of_length_le (by omega), List.drop_of_length_le (by omega),
            List.take_of_length_le (by omega)]
          rfl
        · have hsame : size ∣ bytes.length ↔ size ∣ (bytes.drop size).length := by
            rw [List.length_drop]
            exact (Nat.dvd_sub_iff_left (by omega) (Nat.dvd_refl size)).symm
          have hrest : cut size (bytes.drop size) ++ (if size ∣ bytes.length then [[]] else []) ++
              rest = framed size (bytes.drop size) ++ rest := by
            rw [framed, if_congr hsame rfl rfl]
          rw [if_neg (by omega), hrest, ih (Nat.dvd_sub hroom (Nat.dvd_refl size)),
            Option.map_some, List.length_drop, List.drop_drop, Nat.add_sub_cancel' hle]
          have htake : bytes.take size ++ (bytes.drop size).take (room - size) =
              bytes.take room := by
            rw [← List.take_add, Nat.add_sub_cancel' hle]
          have hiff : bytes.length - size < room - size ↔ bytes.length < room := by omega
          rw [htake, if_congr hiff rfl rfl]

end Packets
