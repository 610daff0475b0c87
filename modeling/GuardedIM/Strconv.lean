import Mathlib.Algebra.Ring.Int.Defs
import GuardedIM.Address

/-!
# Numbers as texts: `strconv`

`Itoa` and `Atoi` for the `int` of a 64-bit platform. `Atoi` takes more texts than `Itoa` writes: a
plus sign and leading zeros are fine for it.

* `atoi_itoa`: the round trip.
* `itoa_nonneg`: what is written for a number that is not negative is the decimal text.
-/

namespace GuardedIM

/-- The digits of a number from the left, behind digits worth `n`. -/
def readDigits (n : ℕ) : Bytes → Option ℕ
  | [] => some n
  | c :: s =>
    if 48 ≤ c.toNat ∧ c.toNat ≤ 57 then readDigits (n * 10 + (c.toNat - 48)) s else none

/-- The sign, if there is one, and the rest: whether the number is negative. -/
def readSign : Bytes → Bool × Bytes
  | 45 :: s => (true, s)
  | 43 :: s => (false, s)
  | s => (false, s)

/-- `strconv.Atoi`, which also raises when the number does not fit. -/
def atoi (s : Bytes) : Option ℤ :=
  let (negative, digits) := readSign s
  if digits = [] then none
  else
    (readDigits 0 digits).bind fun n =>
      let v : ℤ := if negative then -n else n
      if -2 ^ 63 ≤ v ∧ v < 2 ^ 63 then some v else none

/-- `strconv.Itoa` -/
def itoa (n : ℤ) : Bytes := if n < 0 then 45 :: decimal n.natAbs else decimal n.natAbs

/-- Digits are read from left to right. -/
theorem readDigits_append (n : ℕ) (s t : Bytes) :
    readDigits n (s ++ t) = (readDigits n s).bind fun m => readDigits m t := by
  induction s generalizing n with
  | nil => rfl
  | cons c s ih =>
    rw [List.cons_append, readDigits, readDigits]
    split_ifs
    · exact ih _
    · rfl

/-- The digits of a number are its value, by induction on the number. -/
theorem readDigits_decimal (n : ℕ) : readDigits 0 (decimal n) = some n := by
  have hdigit : ∀ m d, d < 10 → readDigits m [UInt8.ofNat (48 + d)] = some (m * 10 + d) := by
    intro m d hd
    have hval : (UInt8.ofNat (48 + d)).toNat = 48 + d := by
      rw [UInt8.toNat_ofNat']
      omega
    rw [readDigits, hval, if_pos (by omega), readDigits]
    congr 1
    omega
  induction n using Nat.strong_induction_on with
  | _ n ih =>
    by_cases hsmall : n < 10
    · rw [decimal_digit hsmall, hdigit 0 n hsmall, Nat.zero_mul, Nat.zero_add]
    · have hsplit : n = n / 10 * 10 + n % 10 := by omega
      rw [hsplit, decimal_append (by omega) (Nat.mod_lt _ (by decide)), readDigits_append,
        ih _ (by omega), Option.bind_some, hdigit _ _ (Nat.mod_lt _ (by decide))]

/-- A number that is not negative has no sign. -/
theorem readSign_decimal (n : ℕ) : readSign (decimal n) = (false, decimal n) := by
  obtain ⟨c, s, hcs⟩ := List.exists_cons_of_ne_nil (decimal_ne_nil n)
  have hc := digit_of_mem_decimal (hcs ▸ List.mem_cons_self .. : c ∈ decimal n)
  rw [hcs, readSign.eq_def]
  split
  · rename_i heq
    obtain ⟨rfl, -⟩ := List.cons.inj heq
    exact absurd hc.1 (by decide)
  · rename_i heq
    obtain ⟨rfl, -⟩ := List.cons.inj heq
    exact absurd hc.1 (by decide)
  · rfl

/-- So its text is its digits. -/
theorem itoa_nonneg (n : ℕ) : itoa n = decimal n := by
  rw [itoa, if_neg (by omega), Int.natAbs_natCast]

/-- What `Atoi` makes of a sign and digits whose value fits. -/
theorem atoi_of_digits {s digits : Bytes} {negative : Bool} {n : ℕ} {v : ℤ}
    (hsign : readSign s = (negative, digits)) (hne : digits ≠ [])
    (hdigits : readDigits 0 digits = some n) (hv : (if negative then -(n : ℤ) else n) = v)
    (hlow : -2 ^ 63 ≤ v) (hhigh : v < 2 ^ 63) : atoi s = some v := by
  subst hv
  rw [atoi, hsign]
  dsimp only
  rw [if_neg hne, hdigits, Option.bind_some, if_pos ⟨hlow, hhigh⟩]

/-- **`Atoi` reads what `Itoa` wrote**, for every `int`. -/
theorem atoi_itoa {n : ℤ} (hlow : -2 ^ 63 ≤ n) (hhigh : n < 2 ^ 63) : atoi (itoa n) = some n := by
  rw [itoa]
  split_ifs with hneg
  · refine atoi_of_digits rfl (decimal_ne_nil _) (readDigits_decimal _) ?_ hlow
      hhigh
    rw [if_pos rfl]
    omega
  · refine atoi_of_digits (readSign_decimal _) (decimal_ne_nil _) (readDigits_decimal _) ?_ hlow
      hhigh
    rw [if_neg Bool.false_ne_true]
    omega

end GuardedIM
