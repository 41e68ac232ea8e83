import Bsdroid.Lib.Run
import Bsdroid.Mtpfs.Fs

/-!
# Names of objects that move aside

A name that moves aside gets a suffix and a number of the counter.  The name goes out as a
string of at most 254 units, so a long one loses the number, or all of the suffix.  The number
is new in this mount only: an earlier mount can have left an object under it, because the counter
starts at 0 with each mount.  `Fs.aside_fresh` says what holds while neither happens.
-/

namespace Bsdroid

namespace Fs

variable {σ : Type} {fs : Fs σ} {name name' aside : Str} {n n' : Nat} {folder : List Str}

/-- The name a device decodes from the bytes of a name. -/
def asSent (name : Str) : Except ParseError Str := (Reader.readString "name" (pushString name)).1

theorem asSent_eq (name : Str) : asSent name = .ok (Utf16.fit 254 name) := by
  have hread := Reader.readString_pushString "name" name []
  rw [List.append_nil] at hread
  rw [asSent, hread]

theorem asideName_run :
    (asideName name : Proc Int (Fs σ) Str) fs =
      (.ok (asideOf name fs.spoolCount), { fs with spoolCount := fs.spoolCount + 1 }) := rfl

/-- The units the suffix and the number take. -/
theorem length_encode_asideOf (name : Str) (n : Nat) :
    (Utf16.encode (asideOf name n)).length =
      (Utf16.encode name).length + 13 + (Utf16.encode (Nat.toDigits 10 n)).length := by
  rw [asideOf, Utf16.encode_append, Utf16.encode_append, List.length_append, List.length_append]
  rfl

theorem asideOf_ne (name : Str) (n : Nat) : asideOf name n ≠ name := by
  intro heq
  have hlength := length_encode_asideOf name n
  rw [heq] at hlength
  omega

/-- From its end an aside name reads the number up to the first dash. -/
theorem takeWhile_asideOf (name : Str) (n : Nat) :
    (asideOf name n).reverse.takeWhile (· ≠ '-') = (Nat.toDigits 10 n).reverse := by
  have hdigits : ∀ c ∈ (Nat.toDigits 10 n).reverse, decide (c ≠ '-') = true := by
    intro c hc
    have hdigit := Nat.isDigit_of_mem_toDigits (by decide) (by decide) (List.mem_reverse.mp hc)
    apply decide_eq_true
    intro hsame
    subst hsame
    exact absurd hdigit (by decide)
  rw [asideOf, List.reverse_append, List.takeWhile_append_of_pos hdigits, List.reverse_append]
  exact List.append_nil _

/-- So an aside name tells its number. -/
theorem asideOf_number (h : asideOf name n = asideOf name' n') : n = n' := by
  have hdigits : (Nat.toDigits 10 n).reverse = (Nat.toDigits 10 n').reverse := by
    rw [← takeWhile_asideOf name n, h, takeWhile_asideOf]
  have hvalue := congrArg (fun ds => Nat.ofDigitChars 10 ds 0) (List.reverse_injective hdigits)
  simpa only [Nat.ofDigitChars_ten_toDigits] using hvalue

/-! ## A run of calls -/

/-- The calls that take a number of the counter, with the names a folder holds at a call that
moves an object of it aside. -/
inductive CountCall where
  | spool
  | aside (name : Str) (folder : List Str)

/-- One call, beside the names that went out for the calls before it. -/
def countStep (p : Fs σ × List (Except ParseError Str)) :
    CountCall → Fs σ × List (Except ParseError Str)
  | .spool => ((makeSpool p.1).2, p.2)
  | .aside name _ =>
      match (asideName name : Proc Int (Fs σ) Str) p.1 with
      | (.ok aside, fs) => (fs, p.2 ++ [asSent aside])
      | (.error _, fs) => (fs, p.2)

/-- A name that goes out for an object that moves aside is free. -/
structure Fresh (name aside : Str) (earlier : List (Except ParseError Str)) (folder : List Str) :
    Prop where
  name : asSent aside ≠ .ok name
  earlier : asSent aside ∉ earlier
  folder : ∀ object ∈ folder, asSent aside ≠ .ok object

/-- What stands between a name and the number of an object that moved aside. -/
def asideMark : Str := ['.', 'b', 's', 'd', 'r', 'o', 'i', 'd', '-', 'o', 'l', 'd', '-']

/-- The number under which a mount, this one or an earlier one, left an object of this name
aside. -/
def leftUnder (name object : Str) : Option Nat :=
  let digits := object.drop (name ++ asideMark).length
  if (name ++ asideMark) <+: object ∧ digits.all Char.isDigit then
    some (Nat.ofDigitChars 10 digits 0)
  else none

/-- The name has room for the suffix and the number, and the counter is past every number that an
object of the folder was left aside under.  The counter of the source has 64 bits, and did not go
round. -/
def Roomy (p : Fs σ × List (Except ParseError Str)) : CountCall → Prop
  | .spool => True
  | .aside name folder =>
      (Utf16.encode name).length + 13 +
          (Utf16.encode (Nat.toDigits 10 p.1.spoolCount)).length ≤ 254 ∧
        (∀ object ∈ folder, ∀ n, leftUnder name object = some n → n < p.1.spoolCount) ∧
          p.1.spoolCount < 2 ^ 64

/-- An aside name tells a later mount its number. -/
theorem leftUnder_asideOf (name : Str) (n : Nat) : leftUnder name (asideOf name n) = some n := by
  have hparts : asideOf name n = (name ++ asideMark) ++ Nat.toDigits 10 n := rfl
  have hdrop : (asideOf name n).drop (name ++ asideMark).length = Nat.toDigits 10 n := by
    rw [hparts, List.drop_left]
  have hdigits : (Nat.toDigits 10 n).all Char.isDigit = true := by
    apply List.all_eq_true.mpr
    intro c hc
    exact Nat.isDigit_of_mem_toDigits (by decide) (by decide) hc
  have hfront : (name ++ asideMark) <+: asideOf name n := hparts ▸ List.prefix_append _ _
  rw [leftUnder, hdrop, if_pos ⟨hfront, hdigits⟩, Nat.ofDigitChars_ten_toDigits]

variable {p : Fs σ × List (Except ParseError Str)} {call : CountCall}

theorem countStep_spool : (countStep p .spool).1.spoolCount = p.1.spoolCount + 1 ∧
    (countStep p .spool).2 = p.2 := by
  refine ⟨?_, rfl⟩
  show (makeSpool p.1).2.spoolCount = _
  rw [makeSpool, Proc.bind_ok (nextCount_run _), Proc.bind_ok (Proc.get_run _)]
  by_cases hmakes : p.1.host.makes = true
  · rw [if_pos hmakes]
    rfl
  · rw [if_neg hmakes]
    rfl

theorem countStep_aside (p : Fs σ × List (Except ParseError Str)) (name : Str)
    (folder : List Str) : countStep p (.aside name folder) =
      ({ p.1 with spoolCount := p.1.spoolCount + 1 },
        p.2 ++ [asSent (asideOf name p.1.spoolCount)]) := rfl

/-- Every name that went out is whole, and has a number below the counter. -/
def Numbered (p : Fs σ × List (Except ParseError Str)) : Prop :=
  ∀ sent ∈ p.2, ∃ name n, n < p.1.spoolCount ∧ sent = .ok (asideOf name n)

/-- A name with room for its suffix goes out whole. -/
theorem asSent_asideOf (h : Roomy p (.aside name folder)) :
    asSent (asideOf name p.1.spoolCount) = .ok (asideOf name p.1.spoolCount) := by
  rw [asSent_eq, Utf16.fit_eq_self]
  rw [length_encode_asideOf]
  exact h.1

theorem numbered_step (h : Numbered p) (hroomy : Roomy p call) :
    Numbered (countStep p call) := by
  intro sent hsent
  cases call with
  | spool =>
      obtain ⟨hcount, hsame⟩ := @countStep_spool σ p
      rw [hsame] at hsent
      obtain ⟨name, n, hn, heq⟩ := h sent hsent
      exact ⟨name, n, by omega, heq⟩
  | aside name folder =>
      rw [countStep_aside] at hsent ⊢
      rcases List.mem_append.mp hsent with hbefore | hnow
      · obtain ⟨name', n, hn, heq⟩ := h sent hbefore
        exact ⟨name', n, Nat.lt_succ_of_lt hn, heq⟩
      · rw [List.mem_singleton.mp hnow]
        exact ⟨name, _, Nat.lt_succ_self _, asSent_asideOf hroomy⟩

/-- One call under the condition gives a free name. -/
theorem free_of_roomy (h : Numbered p) (hroomy : Roomy p (.aside name folder)) :
    Fresh name (asideOf name p.1.spoolCount) p.2 folder := by
  have hwhole := asSent_asideOf hroomy
  refine ⟨?_, ?_, ?_⟩
  · intro heq
    rw [hwhole] at heq
    exact asideOf_ne _ _ (Except.ok.inj heq)
  · intro hmem
    obtain ⟨name', n, hn, heq⟩ := h _ hmem
    rw [hwhole] at heq
    have hnumber := asideOf_number (Except.ok.inj heq)
    omega
  · intro object hobject heq
    rw [hwhole] at heq
    have hleft : leftUnder name object = some p.1.spoolCount := by
      rw [← Except.ok.inj heq]
      exact leftUnder_asideOf name p.1.spoolCount
    exact Nat.lt_irrefl _ (hroomy.2.1 object hobject _ hleft)

/-- **The aside name is free** at every call of a run whose calls leave room for the number, and
whose counter is past the numbers that earlier mounts left in the folder. -/
theorem aside_fresh {before rest : List CountCall}
    (hrun : Run.Meets countStep Roomy (fs, []) (before ++ .aside name folder :: rest)) :
    ∃ aside fs', (asideName name : Proc Int (Fs σ) Str) (Run.after countStep (fs, []) before).1 =
        (.ok aside, fs') ∧
      Fresh name aside (Run.after countStep (fs, []) before).2 folder := by
  refine ⟨_, _, asideName_run, ?_⟩
  have hstart : Numbered (fs, []) := fun sent hsent => absurd hsent List.not_mem_nil
  have hfree := @Run.Meets.at_event _ _ countStep Roomy Numbered
    (fun p call => ∀ name folder, call = .aside name folder →
      Fresh name (asideOf name p.1.spoolCount) p.2 folder)
    (fun _ _ h hroomy => numbered_step h hroomy)
    (by
      intro p call h hroomy name folder hcall
      subst hcall
      exact free_of_roomy h hroomy) _ _ _ _ hstart hrun
  exact hfree name folder rfl

/-- A mount whose calls move names aside and ask the device nothing. -/
def quiet : Fs Unit := start (Mtp.fresh () usb2Packet) Host.obliging

/-- A short name moves aside twice, with a spool file between. -/
theorem aside_fresh_twice :
    ∃ aside fs', (asideName ['a'] : Proc Int (Fs Unit) Str)
        (Run.after countStep (quiet, []) [.aside ['a'] [['a']], .spool]).1 = (.ok aside, fs') ∧
      Fresh ['a'] aside (Run.after countStep (quiet, []) [.aside ['a'] [['a']], .spool]).2
        [['a'], asideOf ['a'] 0] := by
  have hnone : leftUnder ['a'] ['a'] = none := by decide
  have hfirst : ∀ object ∈ [['a']], ∀ n, leftUnder ['a'] object = some n → n < 0 := by
    intro object hobject n hleft
    rw [List.mem_singleton.mp hobject, hnone] at hleft
    cases hleft
  have hsecond : ∀ object ∈ [['a'], asideOf ['a'] 0], ∀ n, leftUnder ['a'] object = some n →
      n < 2 := by
    intro object hobject n hleft
    rcases List.mem_cons.mp hobject with rfl | hobject
    · rw [hnone] at hleft
      cases hleft
    · rw [List.mem_singleton.mp hobject, leftUnder_asideOf] at hleft
      cases hleft
      decide
  have hrun : Run.Meets countStep Roomy (quiet, [])
      ([.aside ['a'] [['a']], .spool] ++ .aside ['a'] [['a'], asideOf ['a'] 0] :: []) :=
    ⟨⟨by decide, hfirst, by decide⟩, trivial, ⟨by decide, hsecond, by decide⟩, trivial⟩
  exact aside_fresh hrun

/-- A name of 250 letters. -/
def longName : Str := List.replicate 250 'a'

/-- The long name goes out the same each time it moves aside. -/
theorem long_name_not_fresh : ¬ ∀ (before : List CountCall) (name : Str) (folder : List Str)
    (aside : Str) (fs' : Fs Unit), name ≠ [] → (name.map Char.utf8Size).sum ≤ 255 →
      (asideName name : Proc Int (Fs Unit) Str) (Run.after countStep (quiet, []) before).1 =
        (.ok aside, fs') →
      Fresh name aside (Run.after countStep (quiet, []) before).2 folder := by
  intro hclaim
  have hfree := hclaim [.aside longName []] longName [] (asideOf longName 1) _
    (by decide) (by decide +kernel) rfl
  have hsame : asSent (asideOf longName 1) = asSent (asideOf longName 0) := by
    rw [asSent_eq, asSent_eq]
    decide +kernel
  exact hfree.earlier (List.mem_singleton.mpr hsame)

end Fs

end Bsdroid
