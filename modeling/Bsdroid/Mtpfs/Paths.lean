import Bsdroid.Mtpfs.Fs

/-!
# The two ways to take a path apart

The tree walks the parts of a path, and a callback that makes or moves an object
splits a path into its folder and its name.  Where the name is one a folder can
hold, the two agree: the parts of the path are the parts of its folder, and then
the name (`splitPath_eq`).
-/

namespace Bsdroid

/-- A name a program can give a file: not empty, no `.` and no `..`, and with no null.
(The name of a path never holds a separator.) -/
structure Filename (name : Str) : Prop where
  nonempty : name ≠ []
  here : name ≠ ['.']
  up : name ≠ ['.', '.']
  ended : '\x00' ∉ name

namespace Fs

theorem lastSlash_none {path : Str} : lastSlash path = none ↔ '/' ∉ path := by
  induction path with
  | nil => simp [lastSlash]
  | cons c cs ih =>
      rw [lastSlash]
      cases hcs : lastSlash cs with
      | none =>
          have hout := ih.mp hcs
          by_cases hc : c = '/'
          · simp [hc]
          · simp [hc, hout, eq_comm]
      | some i =>
          have hin : '/' ∈ cs := by
            by_contra hout
            rw [ih.mpr hout] at hcs
            cases hcs
          simp [hin]

/-- The last separator cuts the path in two, and the second part holds no other. -/
theorem lastSlash_some {path : Str} {i : Nat} (h : lastSlash path = some i) :
    path = path.take i ++ '/' :: path.drop (i + 1) ∧ '/' ∉ path.drop (i + 1) := by
  induction path generalizing i with
  | nil => cases h
  | cons c cs ih =>
      rw [lastSlash] at h
      cases hcs : lastSlash cs with
      | none =>
          rw [hcs] at h
          dsimp only at h
          by_cases hc : c = '/'
          · rw [if_pos hc] at h
            cases h
            rw [hc]
            exact ⟨rfl, lastSlash_none.mp hcs⟩
          · rw [if_neg hc] at h
            cases h
      | some j =>
          rw [hcs] at h
          cases h
          obtain ⟨hcut, hout⟩ := ih hcs
          refine ⟨?_, hout⟩
          rw [List.take_succ_cons, List.drop_succ_cons, List.cons_append, ← hcut]

/-- The name of a path holds no separator. -/
theorem splitParent_name (path : Str) : '/' ∉ (splitParent path).2 := by
  rw [splitParent]
  cases h : lastSlash path with
  | none => exact lastSlash_none.mp h
  | some i =>
      cases i with
      | zero => exact (lastSlash_some h).2
      | succ i => exact (lastSlash_some h).2

theorem shownName_eq {name : Str} (hslash : '/' ∉ name) (hended : '\x00' ∉ name) :
    shownName name = name := by
  rw [shownName]
  refine (List.map_congr_left fun c hc => ?_).trans (List.map_id _)
  rw [if_neg]
  · rfl
  · intro hcases
    rcases hcases with rfl | rfl
    · exact hslash hc
    · exact hended hc

end Fs

theorem splitPath_append (front back : Str) :
    splitPath (front ++ '/' :: back) = splitPath front ++ splitPath back := by
  rw [splitPath, List.splitOn_append_cons_of_beq _ _ (by decide), List.filter_append]
  rfl

theorem splitPath_part {name : Str} (hslash : '/' ∉ name) (hnonempty : name ≠ [])
    (hhere : name ≠ ['.']) : splitPath name = [name] := by
  rw [splitPath, List.splitOn_eq_singleton hslash]
  simp [hnonempty, hhere]

theorem splitPath_name {name : Str} (hslash : '/' ∉ name) (h : Filename name) :
    splitPath name = [name] := splitPath_part hslash h.nonempty h.here

/-- The parts of a path are the parts of its folder, and those of its name. -/
theorem splitPath_split (path : Str) :
    splitPath path = splitPath (Fs.splitParent path).1 ++ splitPath (Fs.splitParent path).2 := by
  have hroot : splitPath ['/'] = [] := by decide
  cases hlast : Fs.lastSlash path with
  | none =>
      rw [Fs.splitParent, hlast]
      dsimp only
      rw [hroot, List.nil_append]
  | some i =>
      obtain ⟨hcut, -⟩ := Fs.lastSlash_some hlast
      have hparts : splitPath path =
          splitPath (path.take i) ++ splitPath (path.drop (i + 1)) := by
        rw [← splitPath_append, ← hcut]
      cases i with
      | zero =>
          rw [Fs.splitParent, hlast, hparts]
          show splitPath [] ++ _ = splitPath ['/'] ++ _
          rw [hroot]
          rfl
      | succ i =>
          rw [Fs.splitParent, hlast]
          exact hparts

/-- A name has one part at most. -/
theorem length_splitPath_name (path : Str) :
    (splitPath (Fs.splitParent path).2).length ≤ 1 := by
  rw [splitPath, List.splitOn_eq_singleton (Fs.splitParent_name path)]
  exact List.length_filter_le _ _

/-- **The parts of a path** are the parts of its folder, and then its name. -/
theorem splitPath_eq {path : Str} (h : Filename (Fs.splitParent path).2) :
    splitPath path = splitPath (Fs.splitParent path).1 ++ [(Fs.splitParent path).2] := by
  rw [splitPath_split, splitPath_name (Fs.splitParent_name path) h]

end Bsdroid
