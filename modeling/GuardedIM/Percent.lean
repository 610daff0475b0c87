import Mathlib.Algebra.GroupWithZero.Nat
import Mathlib.Tactic.SplitIfs

/-!
# Percent-encoding

A byte that must not stand for itself in some part of a text is written as `%` and two hexadecimal
digits. Which bytes these are, and what a decoder refuses, differs from part to part: this is a
`Coding`.

* `unescape_escape`: decoding undoes encoding, also when the two are for different parts.
* `forall_mem_escape`: what an encoded text is made of, so that it cannot contain a separator.
-/

namespace Percent

/-- A hexadecimal digit, in upper case. -/
def upperhex (n : ℕ) : UInt8 := UInt8.ofNat (if n < 10 then 48 + n else 55 + n)

/-- Its value, in either case. -/
def unhex (c : UInt8) : Option ℕ :=
  if 48 ≤ c.toNat ∧ c.toNat ≤ 57 then some (c.toNat - 48)
  else if 97 ≤ c.toNat ∧ c.toNat ≤ 102 then some (c.toNat - 87)
  else if 65 ≤ c.toNat ∧ c.toNat ≤ 70 then some (c.toNat - 55)
  else none

/-- The rules of one part of a text. -/
structure Coding where
  /-- the bytes that stand for themselves -/
  keep : UInt8 → Bool
  /-- a blank is written as a plus sign -/
  blankPlus : Bool
  /-- the bytes that a decoder takes for themselves -/
  literal : UInt8 → Bool
  /-- the bytes that a decoder takes in their encoded form -/
  coded : UInt8 → Bool
  /-- a percent sign does not stand for itself -/
  percent_coded : keep 37 = false
  /-- nor does a plus sign that stands for a blank -/
  plus_coded : blankPlus = true → keep 43 = false

variable {k k' : Coding} {c : UInt8} {s : List UInt8}

/-- One byte. -/
def escapeByte (k : Coding) (c : UInt8) : List UInt8 :=
  if k.keep c then [c]
  else if k.blankPlus && c = 32 then [43]
  else [37, upperhex (c.toNat / 16), upperhex (c.toNat % 16)]

/-- Encode. -/
def escape (k : Coding) (s : List UInt8) : List UInt8 := s.flatMap (escapeByte k)

/-- Decode; `none` for a percent sign without two digits, and for what the coding refuses. -/
def unescape (k : Coding) : List UInt8 → Option (List UInt8)
  | [] => some []
  | c :: s =>
    if c = 37 then
      match s with
      | a :: b :: rest =>
        match unhex a, unhex b with
        | some x, some y =>
          if k.coded (UInt8.ofNat (x * 16 + y)) then
            (unescape k rest).map (UInt8.ofNat (x * 16 + y) :: ·)
          else none
        | _, _ => none
      | _ => none
    else if k.literal c then
      (unescape k s).map ((if k.blankPlus && c = 43 then 32 else c) :: ·)
    else none

theorem unhex_upperhex {n : ℕ} (h : n < 16) : unhex (upperhex n) = some n := by
  have hval : (upperhex n).toNat = if n < 10 then 48 + n else 55 + n := by
    rw [upperhex, UInt8.toNat_ofNat']
    split_ifs
    · omega
    · omega
  rw [unhex, hval]
  split_ifs
  all_goals
    first
    | omega
    | exact congrArg some (by omega)

/-- One encoded byte is read back. -/
theorem unescape_percent (hcoded : k.coded c = true) (s : List UInt8) :
    unescape k (37 :: upperhex (c.toNat / 16) :: upperhex (c.toNat % 16) :: s) =
      (unescape k s).map (c :: ·) := by
  have hlt := c.toNat_lt
  have hsplit : c.toNat / 16 * 16 + c.toNat % 16 = c.toNat := by omega
  rw [unescape, if_pos rfl]
  simp only [unhex_upperhex (show c.toNat / 16 < 16 by omega),
    unhex_upperhex (show c.toNat % 16 < 16 by omega), hsplit, UInt8.ofNat_toNat, if_pos hcoded]

/-- One byte that stands for itself. -/
theorem unescape_literal (hpercent : c ≠ 37) (hliteral : k.literal c = true) (s : List UInt8) :
    unescape k (c :: s) =
      (unescape k s).map ((if k.blankPlus && c = 43 then 32 else c) :: ·) := by
  conv =>
    lhs
    unfold unescape
  rw [if_neg hpercent, if_pos hliteral]

/-- A text of bytes that stand for themselves is its own encoding. -/
theorem unescape_plain (h : ∀ c ∈ s, c ≠ 37 ∧ c ≠ 43 ∧ k.literal c = true) :
    unescape k s = some s := by
  induction s with
  | nil => rfl
  | cons c s ih =>
    obtain ⟨⟨hpercent, hplus, hliteral⟩, hs⟩ := List.forall_mem_cons.mp h
    rw [unescape_literal hpercent hliteral, ih hs]
    simp [hplus]

/-- A decoder that refuses nothing. -/
def Coding.Open (k : Coding) : Prop := ∀ c, k.literal c = true ∧ k.coded c = true

theorem unescape_escapeByte (hblank : k.blankPlus = k'.blankPlus) (hopen : k'.Open) (c : UInt8)
    (s : List UInt8) : unescape k' (escapeByte k c ++ s) = (unescape k' s).map (c :: ·) := by
  rw [escapeByte]
  split_ifs with hkeep hplus
  · have hpercent : c ≠ 37 := by
      rintro rfl
      rw [k.percent_coded] at hkeep
      cases hkeep
    have hsign : ¬ (k'.blankPlus && c = 43) = true := by
      rw [← hblank]
      intro hsign
      simp only [Bool.and_eq_true, decide_eq_true_eq] at hsign
      rw [hsign.2, k.plus_coded hsign.1] at hkeep
      cases hkeep
    rw [List.singleton_append, unescape_literal hpercent (hopen c).1, if_neg hsign]
  · simp only [Bool.and_eq_true, decide_eq_true_eq] at hplus
    have hsign : (k'.blankPlus && decide ((43 : UInt8) = 43)) = true := by
      rw [← hblank, hplus.1]
      rfl
    rw [List.singleton_append, unescape_literal (by decide) (hopen 43).1, if_pos hsign, hplus.2]
  · exact unescape_percent (hopen c).2 s

/-- **Decoding undoes encoding.** -/
theorem unescape_escape (hblank : k.blankPlus = k'.blankPlus) (hopen : k'.Open) (s : List UInt8) :
    unescape k' (escape k s) = some s := by
  induction s with
  | nil => rfl
  | cons c s ih =>
    rw [escape, List.flatMap_cons, unescape_escapeByte hblank hopen, ← escape, ih, Option.map_some]

/-- **What an encoded text is made of**: bytes that stand for themselves, percent signs, digits and
plus signs. -/
theorem forall_mem_escape {P : UInt8 → Prop} (hkeep : ∀ c, k.keep c = true → P c) (hpercent : P 37)
    (hplus : P 43) (hdigit : ∀ n, n < 16 → P (upperhex n)) : ∀ c ∈ escape k s, P c := by
  intro c hc
  obtain ⟨d, -, hd⟩ := List.mem_flatMap.mp hc
  have hlt := d.toNat_lt
  rw [escapeByte] at hd
  split_ifs at hd with h₁ h₂
  · exact List.mem_singleton.mp hd ▸ hkeep d h₁
  · exact List.mem_singleton.mp hd ▸ hplus
  · simp only [List.mem_cons, List.not_mem_nil, or_false] at hd
    rcases hd with rfl | rfl | rfl
    · exact hpercent
    · exact hdigit _ (by omega)
    · exact hdigit _ (by omega)

end Percent
