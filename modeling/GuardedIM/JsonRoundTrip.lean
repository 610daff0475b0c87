import Mathlib.Data.List.Chain
import GuardedIM.Loads

/-!
# `json.loads` after `json.dumps`

A value that came from `json.loads` is `Canonical`: its strings have their surrogate pairs
joined, its floats are their own `repr`, its dictionaries have each key once, its integers
are not too long and its lists and dictionaries not too deep.

* `loads_dumps`: a canonical value is read back from what `dumps` writes.
* `loads_canonical`: what is read from text that came as UTF-8 is canonical.
-/

namespace GuardedIM

namespace Json

variable {F : Interpreter}

/-! ## Numerals -/

/-- What follows a value inside an array or an object, or at the end. -/
def Delimited (s : Str) : Prop :=
  ∀ c ∈ s.head?, c = cp ',' ∨ c = cp ']' ∨ c = cp '\x7d'

theorem delimited_cons {c : CodePoint} {s : Str}
    (h : c = cp ',' ∨ c = cp ']' ∨ c = cp '\x7d') : Delimited (c :: s) := by
  intro d hd
  obtain rfl := Option.some.inj hd
  exact h

/-- A delimiter is none of the characters a numeral is made of. -/
theorem Delimited.stops {s : Str} (h : Delimited s) {p : CodePoint → Bool}
    (hp : p (cp ',') = false ∧ p (cp ']') = false ∧ p (cp '\x7d') = false) :
    ∀ c ∈ s.head?, p c = false := by
  intro c hc
  rcases h c hc with rfl | rfl | rfl
  · exact hp.1
  · exact hp.2.1
  · exact hp.2.2

theorem Delimited.digit {s : Str} (h : Delimited s) : ∀ c ∈ s.head?, isDigit c = false :=
  h.stops ⟨rfl, rfl, rfl⟩

theorem takeWhile_append_stop {p : CodePoint → Bool} {r : Str}
    (h : ∀ c ∈ r.head?, p c = false) (s : Str) : (s ++ r).takeWhile p = s.takeWhile p := by
  induction s with
  | nil =>
    cases r with
    | nil => rfl
    | cons c r => simp [h c rfl]
  | cons c s ih =>
    rw [List.cons_append, List.takeWhile_cons, List.takeWhile_cons, ih]

theorem dropWhile_append_stop {p : CodePoint → Bool} {r : Str}
    (h : ∀ c ∈ r.head?, p c = false) (s : Str) :
    (s ++ r).dropWhile p = s.dropWhile p ++ r := by
  induction s with
  | nil =>
    cases r with
    | nil => rfl
    | cons c r => simp [h c rfl]
  | cons c s ih =>
    rw [List.cons_append, List.dropWhile_cons, List.dropWhile_cons, ih]
    split_ifs <;> rfl

theorem numeralSign_append {p : CodePoint → Bool} {r : Str} (h : ∀ c ∈ r.head?, p c = false)
    (s : Str) :
    numeralSign p (s ++ r) = ((numeralSign p s).1, (numeralSign p s).2 ++ r) := by
  cases s with
  | nil =>
    cases r with
    | nil => rfl
    | cons c r => simp [numeralSign, h c rfl]
  | cons c s =>
    rw [List.cons_append, numeralSign, numeralSign]
    split_ifs <;> rfl

theorem numeralInt_append {r : Str} (h : Delimited r) (s : Str) :
    numeralInt (s ++ r) = (numeralInt s).map fun x => (x.1, x.2 ++ r) := by
  cases s with
  | nil =>
    cases r with
    | nil => rfl
    | cons c r =>
      have hzero : c ≠ cp '0' := by
        rintro rfl
        exact absurd (h.digit _ rfl) (by decide)
      simp [numeralInt, h.digit c rfl, hzero]
  | cons c s =>
    rw [List.cons_append, numeralInt, numeralInt, takeWhile_append_stop h.digit,
      dropWhile_append_stop h.digit]
    split_ifs <;> rfl

theorem numeralFrac_append {r : Str} (h : Delimited r) (s : Str) :
    numeralFrac (s ++ r) = ((numeralFrac s).1, (numeralFrac s).2 ++ r) := by
  cases s with
  | nil =>
    cases r with
    | nil => rfl
    | cons c r =>
      have hdot : c ≠ cp '.' := by
        rintro rfl
        exact absurd (h _ rfl) (by decide)
      simp [numeralFrac, hdot]
  | cons c s =>
    rw [List.cons_append, numeralFrac, numeralFrac, takeWhile_append_stop h.digit,
      dropWhile_append_stop h.digit]
    split_ifs <;> rfl

theorem numeralExp_append {r : Str} (h : Delimited r) (s : Str) :
    numeralExp (s ++ r) = ((numeralExp s).1, (numeralExp s).2 ++ r) := by
  cases s with
  | nil =>
    cases r with
    | nil => rfl
    | cons c r =>
      have he : ¬ (c = cp 'e' ∨ c = cp 'E') := by
        rintro (rfl | rfl)
        · exact absurd (h _ rfl) (by decide)
        · exact absurd (h _ rfl) (by decide)
      simp [numeralExp, he]
  | cons c s =>
    simp only [List.cons_append, numeralExp]
    rw [numeralSign_append (h.stops ⟨rfl, rfl, rfl⟩), takeWhile_append_stop h.digit,
      dropWhile_append_stop h.digit]
    split_ifs <;> rfl

/-- A delimiter behind a text does not change the numeral in front of it. -/
theorem scanNumeral_append {r : Str} (h : Delimited r) (s : Str) :
    scanNumeral (s ++ r) = (scanNumeral s).map fun x => (x.1, x.2 ++ r) := by
  simp only [scanNumeral]
  rw [numeralSign_append (h.stops ⟨rfl, rfl, rfl⟩), numeralInt_append h]
  cases numeralInt (numeralSign (· = cp '-') s).2 with
  | none => rfl
  | some whole =>
    simp only [Option.map_some]
    rw [numeralFrac_append h, numeralExp_append h]

/-! ## Integers -/

theorem val_cp_digit {c : Char} (h : c.isDigit = true) :
    (cp c).val = c.toNat ∧ 0x30 ≤ c.toNat ∧ c.toNat ≤ 0x39 := by
  simp only [Char.isDigit, Bool.and_eq_true, decide_eq_true_eq, ge_iff_le] at h
  have hlow : 0x30 ≤ c.toNat := UInt32.le_iff_toNat_le.mp h.1
  have hhigh : c.toNat ≤ 0x39 := UInt32.le_iff_toNat_le.mp h.2
  refine ⟨?_, hlow, hhigh⟩
  simp only [cp, Fin.ofNat]
  omega

theorem isDigit_cp {c : Char} (h : c.isDigit = true) : isDigit (cp c) = true := by
  obtain ⟨hval, hlow, hhigh⟩ := val_cp_digit h
  simp [isDigit, hval, hlow, hhigh]

/-- No leading zero. -/
theorem toDigits_head {n : ℕ} (h : 0 < n) :
    ∃ c l, Nat.toDigits 10 n = c :: l ∧ cp c ≠ cp '0' := by
  induction n using Nat.strongRecOn with
  | ind n ih =>
    by_cases hn : n < 10
    · refine ⟨_, _, Nat.toDigits_of_lt_base hn, fun hzero => ?_⟩
      have hval := congrArg Fin.val hzero
      simp only [cp, Fin.ofNat, Nat.toNat_digitChar_of_lt_ten hn, Char.reduceToNat] at hval
      omega
    · obtain ⟨c, l, htext, hc⟩ := ih (n / 10) (by omega) (by omega)
      rw [Nat.toDigits_of_base_le (by decide) (by omega), htext]
      exact ⟨c, l ++ _, rfl, hc⟩

theorem isDigit_toDigits (n : ℕ) : ∀ c ∈ (Nat.toDigits 10 n).map cp, isDigit c = true := by
  intro c hc
  obtain ⟨d, hd, rfl⟩ := List.mem_map.mp hc
  exact isDigit_cp (Nat.isDigit_of_mem_toDigits (by decide) (by decide) hd)

/-- The digits of a number are one numeral. -/
theorem numeralInt_toDigits (n : ℕ) :
    numeralInt ((Nat.toDigits 10 n).map cp) = some ((Nat.toDigits 10 n).map cp, []) := by
  have hdigits := isDigit_toDigits n
  rcases Nat.eq_zero_or_pos n with rfl | hn
  · rfl
  · obtain ⟨c, l, htext, hc⟩ := toDigits_head hn
    rw [htext, List.map_cons] at hdigits ⊢
    obtain ⟨hd, hl⟩ := List.forall_mem_cons.mp hdigits
    rw [numeralInt, if_neg hc, if_pos hd, List.takeWhile_eq_self_iff.mpr hl,
      List.dropWhile_eq_nil_iff.mpr hl]

theorem natValue_toDigits (n : ℕ) : natValue ((Nat.toDigits 10 n).map cp) = n := by
  have hstep : ∀ (l : List Char) (m : ℕ), (∀ c ∈ l, c.isDigit = true) →
      (l.map cp).foldl (fun n c => 10 * n + (c.val - 0x30)) m = Nat.ofDigitChars 10 l m := by
    intro l
    induction l with
    | nil => simp
    | cons c l ih =>
      intro m hl
      obtain ⟨hc, hl⟩ := List.forall_mem_cons.mp hl
      rw [List.map_cons, List.foldl_cons, (val_cp_digit hc).1, ih _ hl, Nat.ofDigitChars_cons]
      rfl
  rw [natValue, hstep _ _ fun c hc => Nat.isDigit_of_mem_toDigits (by decide) (by decide) hc,
    Nat.ofDigitChars_ten_toDigits]

/-- The first character of the digits of a number. -/
theorem toDigits_cons (n : ℕ) :
    ∃ c l, (Nat.toDigits 10 n).map cp = c :: l ∧ isDigit c = true := by
  rcases hd : (Nat.toDigits 10 n).map cp with _ | ⟨c, l⟩
  · exact absurd (List.map_eq_nil_iff.mp hd) Nat.toDigits_ne_nil
  · exact ⟨c, l, rfl, isDigit_toDigits n c (hd ▸ List.mem_cons_self ..)⟩

theorem ne_of_isDigit {c d : CodePoint} (h : isDigit c = true) (hd : isDigit d = false) :
    c ≠ d := by
  rintro rfl
  rw [h] at hd
  cases hd

theorem scanNumeral_decimal (n : ℤ) : scanNumeral (decimal n) = some ((decimal n, false), []) := by
  obtain ⟨c, l, htext, hc⟩ := toDigits_cons n.natAbs
  have hint := numeralInt_toDigits n.natAbs
  have hminus : c ≠ cp '-' := ne_of_isDigit hc rfl
  rw [htext] at hint
  simp only [decimal]
  rw [htext]
  split_ifs with hneg
  · simp [scanNumeral, numeralSign, hint, numeralFrac, numeralExp]
  · simp [scanNumeral, numeralSign, hint, numeralFrac, numeralExp, hminus]

theorem intValue_decimal (n : ℤ) : intValue (decimal n) = n := by
  have hvalue := natValue_toDigits n.natAbs
  simp only [decimal]
  split_ifs with hneg
  · rw [intValue, if_pos rfl, hvalue]
    omega
  · obtain ⟨c, l, htext, hc⟩ := toDigits_cons n.natAbs
    rw [htext] at hvalue ⊢
    rw [intValue, if_neg (ne_of_isDigit hc rfl), hvalue]
    omega

/-- The text of the integer is one that `int` takes. -/
def IntFits (n : ℤ) : Prop := (decimal n).countP isDigit ≤ maxStrDigits

/-- A sign is no digit. -/
theorem countP_decimal (n : ℤ) :
    (decimal n).countP isDigit = (Nat.toDigits 10 n.natAbs).length := by
  have hdigits : ((Nat.toDigits 10 n.natAbs).map cp).countP isDigit =
      (Nat.toDigits 10 n.natAbs).length := by
    rw [List.countP_eq_length.mpr (isDigit_toDigits _), List.length_map]
  simp only [decimal]
  split_ifs
  · rw [List.countP_cons_of_neg (by decide), hdigits]
  · exact hdigits

theorem natValue_lt {s : Str} (h : ∀ c ∈ s, isDigit c = true) : natValue s < 10 ^ s.length := by
  have hstep : ∀ (l : Str) (m : ℕ), (∀ c ∈ l, isDigit c = true) →
      l.foldl (fun n c => 10 * n + (c.val - 0x30)) m < (m + 1) * 10 ^ l.length := by
    intro l
    induction l with
    | nil => simp
    | cons c l ih =>
      intro m hl
      obtain ⟨hc, hl⟩ := List.forall_mem_cons.mp hl
      simp only [isDigit, Bool.and_eq_true, decide_eq_true_eq] at hc
      calc (c :: l).foldl (fun n c => 10 * n + (c.val - 0x30)) m
          < (10 * m + (c.val - 0x30) + 1) * 10 ^ l.length := ih _ hl
        _ ≤ ((m + 1) * 10) * 10 ^ l.length := Nat.mul_le_mul_right _ (by omega)
        _ = (m + 1) * 10 ^ (c :: l).length := by
          rw [List.length_cons, Nat.pow_succ', Nat.mul_assoc]
  simpa [natValue] using hstep s 0 h

/-- The digits in front of a text. -/
theorem numeralInt_digits {s : Str} {x : Str × Str} (h : numeralInt s = some x) :
    ∀ c ∈ x.1, isDigit c = true := by
  cases s with
  | nil => cases h
  | cons c s =>
    rw [numeralInt] at h
    split_ifs at h with hzero hdigit
    · obtain rfl := Option.some.inj h
      rw [hzero]
      exact List.forall_mem_singleton.mpr (by decide)
    · obtain rfl := Option.some.inj h
      exact List.forall_mem_cons.mpr ⟨hdigit, fun d hd => List.mem_takeWhile_imp hd⟩

/-- A numeral without fraction and exponent is a sign and digits. -/
theorem scanNumeral_int {s t r : Str} (h : scanNumeral s = some ((t, false), r)) :
    ∃ w, (∀ c ∈ w, isDigit c = true) ∧ (t = w ∨ t = cp '-' :: w) := by
  simp only [scanNumeral] at h
  split at h
  · cases h
  · rename_i whole hwhole
    obtain ⟨htext, hplain⟩ := Prod.mk.inj (Prod.mk.inj (Option.some.inj h)).1
    simp only [Bool.not_eq_false', Bool.and_eq_true, List.isEmpty_iff] at hplain
    rw [hplain.1, hplain.2, List.append_nil, List.append_nil] at htext
    refine ⟨whole.1, numeralInt_digits hwhole, ?_⟩
    cases s with
    | nil => cases hwhole
    | cons c s =>
      rw [numeralSign] at htext
      split_ifs at htext with hminus
      · exact .inr (by rw [← htext, of_decide_eq_true hminus, List.singleton_append])
      · exact .inl htext.symm

/-- An integer that was read is not longer than its text. -/
theorem intFits_intValue {s t r : Str} (h : scanNumeral s = some ((t, false), r))
    (hdigits : t.countP isDigit ≤ maxStrDigits) : IntFits (intValue t) := by
  obtain ⟨w, hw, htext⟩ := scanNumeral_int h
  have hcount : w.countP isDigit = w.length := List.countP_eq_length.mpr hw
  obtain ⟨hvalue, hlen⟩ : (intValue t).natAbs = natValue w ∧ w.length ≤ maxStrDigits := by
    rcases htext with rfl | rfl
    · refine ⟨?_, hcount ▸ hdigits⟩
      cases t with
      | nil => rfl
      | cons c l =>
        have hminus : c ≠ cp '-' := ne_of_isDigit (hw c (List.mem_cons_self ..)) rfl
        rw [intValue, if_neg hminus, Int.natAbs_natCast]
    · rw [List.countP_cons_of_neg (by decide), hcount] at hdigits
      exact ⟨by rw [intValue, if_pos rfl, Int.natAbs_neg, Int.natAbs_natCast], hdigits⟩
  have hpos : 0 < maxStrDigits := by decide
  rw [IntFits, countP_decimal, hvalue, Nat.length_toDigits_le_iff (by decide) hpos]
  exact (natValue_lt hw).trans_le (Nat.pow_le_pow_right (by decide) hlen)

/-! ## String literals -/

/-- No high surrogate in front of a low one: text in which every pair is one character. -/
def Joined (s : Str) : Prop := s.IsChain fun c d => ¬ (IsHigh c ∧ IsLow d)

/-- `dumps` writes the character as itself or with a short escape. -/
def isShort (c : CodePoint) : Bool :=
  (0x20 ≤ c.val && c.val ≤ 0x7E) || c = cp '\n' || c = cp '\r' || c = cp '\t' || c.val = 0xC ||
    c.val = 0x8

/-- The marked characters `dumps` makes of one. -/
def marked (c : CodePoint) : List (CodePoint × Bool) :=
  if c.val < 0x10000 then [(c, !isShort c)]
  else [(Fin.ofNat _ (0xD800 + (c.val - 0x10000) / 0x400), true),
    (Fin.ofNat _ (0xDC00 + (c.val - 0x10000) % 0x400), true)]

theorem hexValue_digitChar {d : ℕ} (h : d < 16) : hexValue (cp (Nat.digitChar d)) = some d := by
  have hall : ∀ d < 16, hexValue (cp (Nat.digitChar d)) = some d := by decide
  exact hall d h

/-- Four hexadecimal digits are read back. -/
theorem scanChars_hex {n : ℕ} (h : n < 0x10000) (s : Str) :
    scanChars (.hex 4 0) (hex 4 n ++ s) =
      (scanChars .plain s).map fun r => ((Fin.ofNat _ n, true) :: r.1, r.2) := by
  have htext : hex 4 n =
      [cp (Nat.digitChar (n / 16 ^ 3 % 16)), cp (Nat.digitChar (n / 16 ^ 2 % 16)),
        cp (Nat.digitChar (n / 16 ^ 1 % 16)), cp (Nat.digitChar (n / 16 ^ 0 % 16))] := rfl
  have hvalue : (((0 * 16 + n / 16 ^ 3 % 16) * 16 + n / 16 ^ 2 % 16) * 16 + n / 16 ^ 1 % 16) * 16 +
      n / 16 ^ 0 % 16 = n := by omega
  have hdigit : ∀ k, hexValue (cp (Nat.digitChar (k % 16))) = some (k % 16) := fun k =>
    hexValue_digitChar (Nat.mod_lt _ (by omega))
  rw [htext]
  simp only [List.cons_append, List.nil_append, scanChars, hdigit]
  simp only [Nat.reduceEqDiff, if_false, Nat.reduceSub, if_true]
  rw [hvalue]

theorem scanChars_escape_u {n : ℕ} (h : n < 0x10000) (s : Str) :
    scanChars .plain (GuardedIM.str "\\u" ++ hex 4 n ++ s) =
      (scanChars .plain s).map fun r => ((Fin.ofNat _ n, true) :: r.1, r.2) := by
  have hu : scanChars .plain (GuardedIM.str "\\u" ++ hex 4 n ++ s) =
      scanChars (.hex 4 0) (hex 4 n ++ s) := by
    rw [List.append_assoc]
    rfl
  rw [hu, scanChars_hex h]

/-- A backslash and the letter of a short escape. -/
theorem scanChars_short {e c : CodePoint} (hu : e ≠ cp 'u') (h : unescape e = some c) (s : Str) :
    scanChars .plain (cp '\\' :: e :: s) =
      (scanChars .plain s).map fun r => ((c, false) :: r.1, r.2) := by
  have hquote : cp '\\' ≠ cp '"' := by decide
  rw [scanChars, if_neg hquote, if_pos rfl, scanChars, if_neg hu, h]

/-- The ways to write a character. -/
inductive Written (c : CodePoint) : Str → Prop where
  /-- a short escape -/
  | short (e : CodePoint) : e.val < 0x80 → e ≠ cp 'u' → unescape e = some c → isShort c = true →
      c.val < 0x10000 → Written c [cp '\\', e]
  /-- the character itself -/
  | plain : 0x20 ≤ c.val → c.val ≤ 0x7E → c ≠ cp '"' → c ≠ cp '\\' → Written c [c]
  /-- one escape -/
  | escape : isShort c = false → c.val < 0x10000 → Written c (GuardedIM.str "\\u" ++ hex 4 c.val)
  /-- a pair of them -/
  | pair : 0x10000 ≤ c.val → Written c
      (GuardedIM.str "\\u" ++ hex 4 (0xD800 + (c.val - 0x10000) / 0x400) ++
        (GuardedIM.str "\\u" ++ hex 4 (0xDC00 + (c.val - 0x10000) % 0x400)))

/-- How `dumps` does it. -/
theorem written_dumpChar (c : CodePoint) : Written c (dumpChar c) := by
  unfold dumpChar
  by_cases h₁ : c = cp '"'
  · rw [if_pos h₁, h₁]
    exact .short (cp '"') (by decide) (by decide) rfl rfl (by decide)
  rw [if_neg h₁]
  by_cases h₂ : c = cp '\\'
  · rw [if_pos h₂, h₂]
    exact .short (cp '\\') (by decide) (by decide) rfl rfl (by decide)
  rw [if_neg h₂]
  by_cases h₃ : c = cp '\n'
  · rw [if_pos h₃, h₃]
    exact .short (cp 'n') (by decide) (by decide) rfl rfl (by decide)
  rw [if_neg h₃]
  by_cases h₄ : c = cp '\r'
  · rw [if_pos h₄, h₄]
    exact .short (cp 'r') (by decide) (by decide) rfl rfl (by decide)
  rw [if_neg h₄]
  by_cases h₅ : c = cp '\t'
  · rw [if_pos h₅, h₅]
    exact .short (cp 't') (by decide) (by decide) rfl rfl (by decide)
  rw [if_neg h₅]
  by_cases h₆ : c.val = 0xC
  · rw [if_pos h₆, (Fin.ext h₆ : c = 0xC)]
    exact .short (cp 'f') (by decide) (by decide) rfl rfl (by decide)
  rw [if_neg h₆]
  by_cases h₇ : c.val = 0x8
  · rw [if_pos h₇, (Fin.ext h₇ : c = 0x8)]
    exact .short (cp 'b') (by decide) (by decide) rfl rfl (by decide)
  rw [if_neg h₇]
  by_cases h₈ : 0x20 ≤ c.val ∧ c.val ≤ 0x7E
  · rw [if_pos h₈]
    exact .plain h₈.1 h₈.2 h₁ h₂
  rw [if_neg h₈]
  by_cases h₉ : c.val < 0x10000
  · rw [if_pos h₉]
    refine .escape ?_ h₉
    simp [isShort, h₃, h₄, h₅, h₆, h₇]
    omega
  · rw [if_neg h₉]
    exact .pair (Nat.le_of_not_lt h₉)

/-- **One character is read back.** -/
theorem scanChars_dumpChar (c : CodePoint) (s : Str) :
    scanChars .plain (dumpChar c ++ s) =
      (scanChars .plain s).map fun r => (marked c ++ r.1, r.2) := by
  have hc : c.val < 0x110000 := c.isLt
  have hwritten := written_dumpChar c
  generalize dumpChar c = w at hwritten
  cases hwritten with
  | short e _ hu he hs hlt =>
    have hmarked : marked c = [(c, false)] := by rw [marked, if_pos hlt, hs, Bool.not_true]
    rw [hmarked]
    exact scanChars_short hu he s
  | plain hlow hhigh hquote hslash =>
    rw [List.singleton_append, scanChars, if_neg hquote, if_neg hslash, if_neg (by omega), marked,
      if_pos (by omega)]
    simp [isShort, hlow, hhigh]
  | escape hs hlt =>
    rw [scanChars_escape_u hlt, marked, if_pos hlt, ofNat_val c rfl, hs]
    rfl
  | pair hge =>
    rw [List.append_assoc, scanChars_escape_u (by omega), scanChars_escape_u (by omega), marked,
      if_neg (by omega), Option.map_map]
    rfl

theorem scanChars_flatMap (t s : Str) :
    scanChars .plain (t.flatMap dumpChar ++ s) =
      (scanChars .plain s).map fun r => (t.flatMap marked ++ r.1, r.2) := by
  induction t with
  | nil => simp
  | cons c t ih =>
    rw [List.flatMap_cons, List.append_assoc, scanChars_dumpChar, ih, Option.map_map]
    simp [Function.comp_def, List.append_assoc]

/-- Pairs are joined where `dumps` took a character apart, and nowhere else. -/
theorem joinPairs_marked {s : Str} (h : Joined s) : joinPairs (s.flatMap marked) = s := by
  induction s with
  | nil => rfl
  | cons c s ih =>
    have hs := ih h.tail
    have hc : c.val < 0x110000 := c.isLt
    rw [List.flatMap_cons, marked]
    split_ifs with hlt
    · cases s with
      | nil => rfl
      | cons d s =>
        have hnot : ¬ (IsHigh c ∧ IsLow d) := h.rel
        -- the next character begins with itself or with a high surrogate
        obtain ⟨d', f, l, hnext, hlow⟩ : ∃ d' f l, (d :: s).flatMap marked = (d', f) :: l ∧
            (IsLow d' → IsLow d) := by
          rw [List.flatMap_cons, marked]
          split_ifs with hd
          · exact ⟨d, _, _, rfl, id⟩
          · refine ⟨_, _, _, rfl, fun hlow => ?_⟩
            have hd' : d.val < 0x110000 := d.isLt
            simp only [IsLow, Fin.ofNat] at hlow
            omega
        rw [hnext] at hs ⊢
        rw [List.singleton_append, joinPairs, if_neg fun hp => hnot ⟨hp.2.2.1, hlow hp.2.2.2⟩, hs]
    · have hhigh : IsHigh (Fin.ofNat 0x110000 (0xD800 + (c.val - 0x10000) / 0x400)) := by
        simp only [IsHigh, Fin.ofNat]
        omega
      have hlow : IsLow (Fin.ofNat 0x110000 (0xDC00 + (c.val - 0x10000) % 0x400)) := by
        simp only [IsLow, Fin.ofNat]
        omega
      have hjoin : joinPair (Fin.ofNat 0x110000 (0xD800 + (c.val - 0x10000) / 0x400))
          (Fin.ofNat 0x110000 (0xDC00 + (c.val - 0x10000) % 0x400)) = c := by
        refine ofNat_val c ?_
        simp only [Fin.ofNat]
        omega
      rw [List.cons_append, List.singleton_append, joinPairs, if_pos ⟨rfl, rfl, hhigh, hlow⟩,
        hjoin, hs]

/-- **A string is read back.** -/
theorem scanString_dumpStr {t : Str} (h : Joined t) (s : Str) :
    scanString (t.flatMap dumpChar ++ cp '"' :: s) = some (t, s) := by
  rw [scanString, scanChars_flatMap, scanChars, if_pos rfl]
  simp [joinPairs_marked h]

/-! ## Reading what `dumps` wrote -/

/-- A value `json.loads` can produce where `depth` more lists and dictionaries may be open. -/
inductive CanonicalIn (F : Interpreter) : ℕ → Json → Prop where
  /-- `None` -/
  | null {depth : ℕ} : CanonicalIn F depth .null
  /-- a boolean -/
  | bool {depth : ℕ} (b : Bool) : CanonicalIn F depth (.bool b)
  /-- an integer that is not too long -/
  | int {depth : ℕ} {n : ℤ} : IntFits n → CanonicalIn F depth (.int n)
  /-- a float by its `repr` -/
  | float {depth : ℕ} {r : Str} : r = GuardedIM.str "nan" ∨ r = GuardedIM.str "inf" ∨
      r = GuardedIM.str "-inf" ∨ (FloatText r ∧ F.repr r = r) → CanonicalIn F depth (.float r)
  /-- a string with its pairs joined -/
  | str {depth : ℕ} {s : Str} : Joined s → CanonicalIn F depth (.str s)
  /-- a list of such values -/
  | arr {depth : ℕ} {l : List Json} : 0 < depth → (∀ v ∈ l, CanonicalIn F (depth - 1) v) →
      CanonicalIn F depth (.arr l)
  /-- a dictionary of such values, each key once -/
  | obj {depth : ℕ} {d : Payload} : 0 < depth → (Dict.keys d).Nodup → (∀ e ∈ d, Joined e.1) →
      (∀ e ∈ d, CanonicalIn F (depth - 1) e.2) → CanonicalIn F depth (.obj d)

/-- A value `json.loads` can produce. -/
abbrev Canonical (F : Interpreter) (v : Json) : Prop := CanonicalIn F F.nesting v

theorem skipSpace_of_head {s : Str} (h : ∀ c ∈ s.head?, isJsonSpace c = false) :
    skipSpace s = s := by
  cases s with
  | nil => rfl
  | cons c s => simp [skipSpace, h c rfl]

/-- The text begins like a value: with no space and no punctuation between values. -/
def Opens (s : Str) : Prop :=
  ∀ r, ∃ c t, s ++ r = c :: t ∧ isJsonSpace c = false ∧ c ≠ cp ']' ∧ c ≠ cp '\x7d'

theorem opens_cons {c : CodePoint} {s : Str} (hs : isJsonSpace c = false) (hb : c ≠ cp ']')
    (hc : c ≠ cp '\x7d') : Opens (c :: s) := fun r => ⟨c, s ++ r, rfl, hs, hb, hc⟩

theorem Opens.append {s : Str} (h : Opens s) (t : Str) : Opens (s ++ t) := by
  intro r
  rw [List.append_assoc]
  exact h (t ++ r)

theorem Opens.skipSpace {s : Str} (h : Opens s) (r : Str) : skipSpace (s ++ r) = s ++ r := by
  obtain ⟨c, t, hst, hspace, -, -⟩ := h r
  refine skipSpace_of_head fun d hd => ?_
  rw [hst] at hd
  obtain rfl := Option.some.inj hd
  exact hspace

theorem Opens.expect {s : Str} (h : Opens s) (r : Str) :
    expect (cp ']') (s ++ r) = none ∧ expect (cp '\x7d') (s ++ r) = none := by
  obtain ⟨c, t, hst, -, hb, hc⟩ := h r
  rw [hst, Json.expect, Json.expect, if_neg hb, if_neg hc]
  exact ⟨rfl, rfl⟩

/-- A numeral begins with a digit, or with a minus and a digit. -/
theorem scanNumeral_head {s : Str} {x : (Str × Bool) × Str} (h : scanNumeral s = some x) :
    ∃ d t, isDigit d = true ∧ (s = d :: t ∨ s = cp '-' :: d :: t) := by
  have hint : ∀ {t : Str} {y : Str × Str}, numeralInt t = some y →
      ∃ d r, isDigit d = true ∧ t = d :: r := by
    intro t y ht
    cases t with
    | nil => cases ht
    | cons d r =>
      refine ⟨d, r, ?_, rfl⟩
      rw [numeralInt] at ht
      split_ifs at ht with hzero hdigit
      · subst hzero
        rfl
      · exact hdigit
  simp only [scanNumeral] at h
  split at h
  · cases h
  · rename_i whole hwhole
    obtain ⟨d, t, hd, hs⟩ := hint hwhole
    refine ⟨d, t, hd, ?_⟩
    cases s with
    | nil => cases hs
    | cons c s =>
      rw [numeralSign] at hs
      split_ifs at hs with hminus
      · exact .inr (by rw [of_decide_eq_true hminus, ← hs])
      · exact .inl hs

/-- Where a numeral begins, there is no constant, string, array or object. -/
theorem scanOnce_numeral {s r t : Str} {b : Bool} (hs : scanNumeral s = some ((t, b), []))
    (hr : Delimited r) (hb : b = false → t.countP isDigit ≤ maxStrDigits) (fuel depth : ℕ) :
    scanOnce F (fuel + 1) depth (s ++ r) =
      some (if b then .float (F.repr t) else .int (intValue t), r) := by
  have hfull : scanNumeral (s ++ r) = some ((t, b), r) := by
    rw [scanNumeral_append hr, hs]
    rfl
  have hleaf : scanConstant (s ++ r) = none ∧ scanOnce F (fuel + 1) depth (s ++ r) =
      scanLeaf F (s ++ r) := by
    obtain ⟨d, u, hd, hform⟩ := scanNumeral_head hs
    have hne : ∀ c : CodePoint, isDigit c = false → c ≠ d := fun c hc =>
      (ne_of_isDigit hd hc).symm
    rcases hform with rfl | rfl
    · refine ⟨?_, ?_⟩
      · simp [scanConstant, constants, GuardedIM.str, hne (cp 'n') rfl, hne (cp 't') rfl,
          hne (cp 'f') rfl, hne (cp 'N') rfl, hne (cp 'I') rfl, hne (cp '-') rfl]
      · rw [List.cons_append, scanOnce, if_neg (hne _ rfl).symm, if_neg (hne _ rfl).symm,
          if_neg (hne _ rfl).symm]
    · refine ⟨?_, rfl⟩
      simp [scanConstant, constants, GuardedIM.str, hne (cp 'u') rfl, hne (cp 'r') rfl,
        hne (cp 'a') rfl, hne (cp 'n') rfl, hne (cp 'I') rfl]
  rw [hleaf.2, scanLeaf, hleaf.1, hfull]
  cases b with
  | false => simp [hb rfl]
  | true => rfl

theorem opens_of_numeral {s : Str} {x : (Str × Bool) × Str} (h : scanNumeral s = some x) :
    Opens s := by
  obtain ⟨d, t, hd, rfl | rfl⟩ := scanNumeral_head h
  · have hne : ∀ c : CodePoint, isDigit c = false → d ≠ c := fun c hc => ne_of_isDigit hd hc
    refine opens_cons ?_ (hne _ rfl) (hne _ rfl)
    simp [isJsonSpace, hne (cp ' ') rfl, hne (cp '\t') rfl, hne (cp '\n') rfl, hne (cp '\r') rfl]
  · exact opens_cons rfl (by decide) (by decide)

/-- Every written value begins like one. -/
theorem opens_dumps {depth : ℕ} {v : Json} (h : CanonicalIn F depth v) : Opens (dumps v) := by
  cases h with
  | null => exact opens_cons rfl (by decide) (by decide)
  | bool b => cases b <;> exact opens_cons rfl (by decide) (by decide)
  | @int _ n =>
    rw [dumps]
    exact opens_of_numeral (scanNumeral_decimal n)
  | float hr =>
    rw [dumps]
    split_ifs with h₁ h₂ h₃
    · exact opens_cons rfl (by decide) (by decide)
    · exact opens_cons rfl (by decide) (by decide)
    · exact opens_cons rfl (by decide) (by decide)
    · exact opens_of_numeral (((hr.resolve_left h₁).resolve_left h₂).resolve_left h₃).1
  | str | arr | obj =>
    rw [dumps]
    exact opens_cons rfl (by decide) (by decide)

theorem opens_dumpItems {depth : ℕ} {v : Json} (h : CanonicalIn F depth v) (l : List Json) :
    Opens (dumpItems (v :: l)) := by
  cases l with
  | nil => exact opens_dumps h
  | cons w l =>
    rw [dumpItems, List.append_assoc]
    exact (opens_dumps h).append _

theorem opens_dumpEntries (e : Str × Json) (d : List (Str × Json)) :
    Opens (dumpEntries (e :: d)) := by
  cases d <;> exact opens_cons rfl (by decide) (by decide)

/-- Behind the last element. -/
theorem scanNext_close {c : CodePoint} (hc : isJsonSpace c = false) (s : Str) :
    scanNext c (c :: s) = some (true, s) := by
  simp [scanNext, skipSpace, hc]

/-- Between two elements. -/
theorem scanNext_comma {c : CodePoint} (hc : c ≠ cp ',') {s : Str} (hs : Opens s) (r : Str) :
    scanNext c (GuardedIM.str ", " ++ (s ++ r)) = some (false, s ++ r) := by
  have hcomma : skipSpace (GuardedIM.str ", " ++ (s ++ r)) = cp ',' :: cp ' ' :: (s ++ r) := rfl
  have hspace : skipSpace (cp ' ' :: (s ++ r)) = skipSpace (s ++ r) := rfl
  simp only [scanNext, hcomma]
  rw [if_neg hc.symm, hspace, hs.skipSpace]
  rfl

theorem delimited_comma (s : Str) : Delimited (GuardedIM.str ", " ++ s) :=
  delimited_cons (.inl rfl)

/-- One member: its key, a colon, and its value. -/
theorem scanMembers_member {fuel depth : ℕ} {acc : Payload} {k : Str} {v : Json} {rest : Str}
    (hk : Joined k) (hopens : Opens (dumps v))
    (hv : scanOnce F fuel depth (dumps v ++ rest) = some (v, rest)) :
    scanMembers F (fuel + 1) depth acc (dumpStr k ++ (GuardedIM.str ": " ++ (dumps v ++ rest))) =
      (scanNext (cp '\x7d') rest).bind fun r =>
        if r.1 then some (Dict.set acc k v, r.2)
        else scanMembers F fuel depth (Dict.set acc k v) r.2 := by
  have hkey : (expect (cp '"') (dumpStr k ++ (GuardedIM.str ": " ++ (dumps v ++ rest)))).bind
      scanString = some (k, GuardedIM.str ": " ++ (dumps v ++ rest)) := by
    rw [dumpStr, List.append_assoc, List.cons_append, expect, if_pos rfl, Option.bind_some,
      List.singleton_append, scanString_dumpStr hk]
  have hcolon : expect (cp ':') (skipSpace (GuardedIM.str ": " ++ (dumps v ++ rest))) =
      some (cp ' ' :: (dumps v ++ rest)) := rfl
  have hspace : skipSpace (cp ' ' :: (dumps v ++ rest)) = dumps v ++ rest := hopens.skipSpace rest
  rw [scanMembers, hkey]
  simp only [Option.bind_eq_bind, Option.bind_some, hcolon, hspace, hv]

/-- The three scanners read back what was written, as far as `fuel` goes. -/
structure Reads (F : Interpreter) (fuel : ℕ) : Prop where
  /-- one value -/
  once : ∀ {depth v r}, CanonicalIn F depth v → Delimited r → (dumps v).length ≤ fuel →
    scanOnce F fuel depth (dumps v ++ r) = some (v, r)
  /-- the elements of an array -/
  items : ∀ {depth v l r}, (∀ w ∈ v :: l, CanonicalIn F depth w) →
    (dumpItems (v :: l)).length + 1 ≤ fuel →
    scanItems F fuel depth (dumpItems (v :: l) ++ cp ']' :: r) = some (v :: l, r)
  /-- the members of an object -/
  members : ∀ {depth e d r} (acc : Payload), (∀ x ∈ e :: d, Joined x.1) →
    (∀ x ∈ e :: d, CanonicalIn F depth x.2) → (dumpEntries (e :: d)).length + 1 ≤ fuel →
    scanMembers F fuel depth acc (dumpEntries (e :: d) ++ cp '\x7d' :: r) =
      some ((e :: d).foldl (fun d x => Dict.set d x.1 x.2) acc, r)

theorem Reads.once_succ {fuel depth : ℕ} (h : Reads F fuel) {v : Json} {rest : Str}
    (hv : CanonicalIn F depth v) (hrest : Delimited rest) (hfuel : (dumps v).length ≤ fuel + 1) :
    scanOnce F (fuel + 1) depth (dumps v ++ rest) = some (v, rest) := by
  cases hv with
  | null => rfl
  | bool b => cases b <;> rfl
  | @int _ n hn =>
    rw [dumps, scanOnce_numeral (scanNumeral_decimal n) hrest fun _ => hn, intValue_decimal]
    rfl
  | float hr =>
    rw [dumps]
    split_ifs with h₁ h₂ h₃
    · subst h₁
      rfl
    · subst h₂
      rfl
    · subst h₃
      rfl
    · obtain ⟨hfloat, hrepr⟩ := ((hr.resolve_left h₁).resolve_left h₂).resolve_left h₃
      rw [scanOnce_numeral hfloat hrest nofun, hrepr]
      rfl
  | @str _ s hs =>
    rw [dumps, dumpStr, List.append_assoc, List.cons_append, scanOnce, if_pos rfl,
      List.singleton_append, scanString_dumpStr hs]
    rfl
  | @arr _ l hpos hl =>
    cases l with
    | nil =>
      rw [dumps, List.append_assoc, List.cons_append, scanOnce, if_neg (by decide), if_pos rfl,
        if_neg hpos.ne']
      rfl
    | cons v l =>
      have hopens := opens_dumpItems (hl v (List.mem_cons_self ..)) l
      rw [dumps, List.length_append, List.length_cons] at hfuel
      have hitems := h.items (r := rest) hl (by simpa using hfuel)
      rw [dumps, List.append_assoc, List.cons_append, scanOnce, if_neg (by decide), if_pos rfl,
        if_neg hpos.ne', hopens.skipSpace, (hopens.expect _).1, List.singleton_append, hitems]
      rfl
  | @obj _ d hpos hnodup hkeys hvalues =>
    cases d with
    | nil =>
      rw [dumps, List.append_assoc, List.cons_append, scanOnce, if_neg (by decide),
        if_neg (by decide), if_pos rfl, if_neg hpos.ne']
      rfl
    | cons e d =>
      have hopens := opens_dumpEntries e d
      rw [dumps, List.length_append, List.length_cons] at hfuel
      have hmembers := h.members (r := rest) [] hkeys hvalues (by simpa using hfuel)
      rw [Dict.foldl_set [] (e :: d) hnodup, List.nil_append] at hmembers
      rw [dumps, List.append_assoc, List.cons_append, scanOnce, if_neg (by decide),
        if_neg (by decide), if_pos rfl, if_neg hpos.ne', hopens.skipSpace, (hopens.expect _).2,
        List.singleton_append, hmembers]
      rfl

theorem Reads.items_succ {fuel depth : ℕ} (h : Reads F fuel) {v : Json} {l : List Json}
    {rest : Str} (hl : ∀ w ∈ v :: l, CanonicalIn F depth w)
    (hfuel : (dumpItems (v :: l)).length + 1 ≤ fuel + 1) :
    scanItems F (fuel + 1) depth (dumpItems (v :: l) ++ cp ']' :: rest) = some (v :: l, rest) := by
  obtain ⟨hv, hl⟩ := List.forall_mem_cons.mp hl
  cases l with
  | nil =>
    rw [dumpItems] at hfuel ⊢
    rw [scanItems, h.once hv (delimited_cons (by simp)) (by omega)]
    simp only [Option.bind_eq_bind, Option.bind_some, scanNext_close (c := cp ']') rfl, if_true]
  | cons w l =>
    have hopens := opens_dumpItems (hl w (List.mem_cons_self ..)) l
    rw [dumpItems, List.length_append, List.length_append] at hfuel
    have hlen : (GuardedIM.str ", ").length = 2 := rfl
    have hitems := h.items (r := rest) hl (by omega)
    rw [dumpItems, List.append_assoc, List.append_assoc, scanItems,
      h.once hv (delimited_comma _) (by omega)]
    simp only [Option.bind_eq_bind, Option.bind_some]
    rw [scanNext_comma (by decide) hopens]
    simp [hitems]

theorem Reads.members_succ {fuel depth : ℕ} (h : Reads F fuel) {e : Str × Json}
    {d : List (Str × Json)} {rest : Str} (acc : Payload) (hkeys : ∀ x ∈ e :: d, Joined x.1)
    (hvalues : ∀ x ∈ e :: d, CanonicalIn F depth x.2)
    (hfuel : (dumpEntries (e :: d)).length + 1 ≤ fuel + 1) :
    scanMembers F (fuel + 1) depth acc (dumpEntries (e :: d) ++ cp '\x7d' :: rest) =
      some ((e :: d).foldl (fun d x => Dict.set d x.1 x.2) acc, rest) := by
  obtain ⟨k, v⟩ := e
  obtain ⟨hk, hkeys⟩ := List.forall_mem_cons.mp hkeys
  obtain ⟨hv, hvalues⟩ := List.forall_mem_cons.mp hvalues
  replace hv : CanonicalIn F depth v := hv
  cases d with
  | nil =>
    rw [dumpEntries, List.length_append, List.length_append] at hfuel
    have honce := h.once (r := cp '\x7d' :: rest) hv (delimited_cons (by simp)) (by omega)
    rw [dumpEntries, List.append_assoc, List.append_assoc,
      scanMembers_member hk (opens_dumps hv) honce, scanNext_close rfl]
    rfl
  | cons e d =>
    have hopens := opens_dumpEntries e d
    have hlen : (GuardedIM.str ", ").length = 2 := rfl
    rw [dumpEntries] at hfuel ⊢
    simp only [List.length_append] at hfuel
    have hmembers := h.members (r := rest) (Dict.set acc k v) hkeys hvalues (by omega)
    simp only [List.append_assoc]
    rw [scanMembers_member hk (opens_dumps hv) (h.once hv (delimited_comma _) (by omega)),
      scanNext_comma (by decide) hopens, Option.bind_some, if_neg Bool.false_ne_true, hmembers,
      List.foldl_cons (b := acc)]

theorem reads (fuel : ℕ) : Reads F fuel := by
  -- each scanner calls the others with less fuel, so one induction is for all three
  induction fuel with
  | zero =>
    refine ⟨fun hv _ hfuel => ?_, fun _ hfuel => ?_, fun _ _ _ hfuel => ?_⟩
    · obtain ⟨c, t, hopens, -⟩ := opens_dumps hv []
      rw [List.append_nil] at hopens
      rw [hopens] at hfuel
      cases hfuel
    · omega
    · omega
  | succ fuel ih =>
    exact ⟨fun hv hrest hfuel => ih.once_succ hv hrest hfuel,
      fun hl hfuel => ih.items_succ hl hfuel,
      fun acc hkeys hvalues hfuel => ih.members_succ acc hkeys hvalues hfuel⟩

/-- **What `dumps` writes, `loads` reads back.** -/
theorem loads_dumps {v : Json} (h : Canonical F v) : loads F (dumps v) = some v := by
  have hspace := (opens_dumps h).skipSpace []
  have honce := (reads (F := F) (2 * (dumps v).length)).once (r := []) h nofun (by omega)
  rw [List.append_nil] at hspace honce
  rw [loads, loadsWith, hspace, honce]
  rfl

/-! ## What `loads` produces -/

/-- Text that came as UTF-8. -/
def Scalar (s : Str) : Prop := ∀ c ∈ s, ¬ Surrogate c

theorem Scalar.suffix {r s : Str} (hs : Scalar s) (h : r <:+ s) : Scalar r :=
  fun c hc => hs c (h.subset hc)

theorem Scalar.joined {s : Str} (h : Scalar s) : Joined s := by
  induction s with
  | nil => exact .nil
  | cons c s ih =>
    obtain ⟨hc, hs⟩ := List.forall_mem_cons.mp h
    refine List.isChain_cons.mpr ⟨fun d _ hpair => hc ?_, ih hs⟩
    exact ⟨hpair.1.1, hpair.1.2.trans (by decide)⟩

/-- A literal has none. -/
theorem scalar_str (s : String) : Scalar (GuardedIM.str s) := by
  intro c hc
  obtain ⟨d, -, rfl⟩ := List.mem_map.mp hc
  have hd : d.toNat < 0xD800 ∨ 0xDFFF < d.toNat ∧ d.toNat < 0x110000 := d.valid
  simp only [Surrogate, cp, Fin.ofNat]
  omega

/-- Only an escape makes a surrogate. -/
theorem scanChars_scalar {q : StringScan} {s : Str} (hs : Scalar s)
    {x : List (CodePoint × Bool) × Str} (h : scanChars q s = some x) :
    ∀ e ∈ x.1, e.2 = false → ¬ Surrogate e.1 := by
  induction s generalizing q x with
  | nil => cases q <;> cases h
  | cons c s ih =>
    have hrest := hs.suffix (List.suffix_cons c s)
    have hmap : ∀ {e : CodePoint × Bool}, (e.2 = false → ¬ Surrogate e.1) →
        (scanChars .plain s).map (fun r => (e :: r.1, r.2)) = some x →
        ∀ e ∈ x.1, e.2 = false → ¬ Surrogate e.1 := by
      intro e he hx
      obtain ⟨y, hy, rfl⟩ := Option.map_eq_some_iff.mp hx
      exact List.forall_mem_cons.mpr ⟨he, ih hrest hy⟩
    cases q with
    | plain =>
      rw [scanChars] at h
      split_ifs at h
      · obtain rfl := Option.some.inj h
        simp
      · exact ih hrest h
      · exact hmap (fun _ => hs c (List.mem_cons_self ..)) h
    | escape =>
      rw [scanChars] at h
      split_ifs at h
      · exact ih hrest h
      · split at h
        · cases h
        · rename_i d hd
          refine hmap (fun _ => ?_) h
          rw [unescape] at hd
          split_ifs at hd with hself
          · obtain rfl := Option.some.inj hd
            exact hs c (List.mem_cons_self ..)
          all_goals
            obtain rfl := Option.some.inj hd
            rw [Surrogate]
            decide
    | hex left value =>
      rw [scanChars] at h
      split at h
      · cases h
      · split_ifs at h
        · exact hmap (by simp) h
        · exact ih hrest h

/-- What `joinPairs` begins with: the first character, or a pair. -/
theorem joinPairs_head (c : CodePoint) (e : Bool) (l : List (CodePoint × Bool)) :
    ∃ d t, joinPairs ((c, e) :: l) = d :: t ∧ (IsLow d → d = c) := by
  cases l with
  | nil => exact ⟨c, [], rfl, fun _ => rfl⟩
  | cons x l =>
    obtain ⟨d, f⟩ := x
    rw [joinPairs]
    split_ifs with hpair
    · obtain ⟨-, -, hhigh, hlow⟩ := hpair
      refine ⟨_, _, rfl, fun hjoin => ?_⟩
      simp only [IsHigh] at hhigh
      simp only [IsLow, joinPair, Fin.ofNat] at hjoin hlow
      omega
    · exact ⟨c, _, rfl, fun _ => rfl⟩

/-- Where every surrogate is marked, no pair is left over. -/
theorem joined_joinPairs {l : List (CodePoint × Bool)}
    (h : ∀ e ∈ l, e.2 = false → ¬ Surrogate e.1) : Joined (joinPairs l) := by
  induction l using joinPairs.induct with
  | case1 => exact .nil
  | case2 c e => exact .singleton c
  | case3 c e d f l hpair ih =>
    have hjoined := ih fun x hx => h x (List.mem_cons_of_mem _ (List.mem_cons_of_mem _ hx))
    rw [joinPairs, if_pos hpair]
    obtain ⟨-, -, hhigh, hlow⟩ := hpair
    refine List.isChain_cons.mpr ⟨fun d' _ hboth => ?_, hjoined⟩
    have hjoin := hboth.1
    simp only [IsHigh, joinPair, Fin.ofNat] at hhigh hjoin
    simp only [IsLow] at hlow
    omega
  | case4 c e d f l hpair ih =>
    have hjoined := ih fun x hx => h x (List.mem_cons_of_mem _ hx)
    rw [joinPairs, if_neg hpair]
    refine List.isChain_cons.mpr ⟨fun d' hd' hboth => hpair ?_, hjoined⟩
    obtain ⟨d₁, t, hhead, hlow⟩ := joinPairs_head d f l
    rw [hhead] at hd'
    obtain rfl := Option.some.inj hd'
    obtain rfl := hlow hboth.2
    clear hlow
    have hmarked : ∀ {x : CodePoint × Bool}, x ∈ (c, e) :: (d₁, f) :: l → Surrogate x.1 →
        x.2 = true := fun hx hsur => (Bool.not_eq_false _).mp fun hf => h _ hx hf hsur
    obtain ⟨hhigh, hlow⟩ := hboth
    have hc : Surrogate c := ⟨hhigh.1, hhigh.2.trans (by decide)⟩
    have hd : Surrogate d₁ := ⟨le_trans (by decide) hlow.1, hlow.2⟩
    exact ⟨hmarked (List.mem_cons_self ..) hc,
      hmarked (List.mem_cons_of_mem _ (List.mem_cons_self ..)) hd, hhigh, hlow⟩

theorem joined_scanString {s : Str} (hs : Scalar s) {x : Str × Str}
    (h : scanString s = some x) : Joined x.1 := by
  obtain ⟨y, hy, rfl⟩ := Option.map_eq_some_iff.mp h
  exact joined_joinPairs (scanChars_scalar hs hy)

theorem canonical_scanLeaf {s : Str} {x : Json × Str} (h : scanLeaf F s = some x) (depth : ℕ) :
    CanonicalIn F depth x.1 := by
  rw [scanLeaf] at h
  split at h
  · rename_i y hy
    obtain rfl := Option.some.inj h
    obtain ⟨e, he, -, rfl⟩ := scanConstant_eq hy
    simp only [constants, List.mem_cons, List.not_mem_nil, or_false] at he
    rcases he with rfl | rfl | rfl | rfl | rfl | rfl
    · exact .null
    · exact .bool true
    · exact .bool false
    · exact .float (.inl rfl)
    · exact .float (.inr (.inl rfl))
    · exact .float (.inr (.inr (.inl rfl)))
  · split at h
    · cases h
    · rename_i y hy
      obtain ⟨⟨t, b⟩, r⟩ := y
      split_ifs at h with hb hdigits
      · obtain rfl := Option.some.inj h
        obtain rfl : b = true := hb
        exact .float (.inr (F.canonical hy))
      · obtain rfl := Option.some.inj h
        obtain rfl : b = false := (Bool.not_eq_true b).mp hb
        exact .int (intFits_intValue hy hdigits)

/-- Every scanner gives canonical values. -/
structure Produces (F : Interpreter) (fuel : ℕ) : Prop where
  /-- one value -/
  once : ∀ {depth s x}, Scalar s → scanOnce F fuel depth s = some x → CanonicalIn F depth x.1
  /-- the elements of an array -/
  items : ∀ {depth s x}, Scalar s → scanItems F fuel depth s = some x →
    ∀ v ∈ x.1, CanonicalIn F depth v
  /-- the members of an object, on top of canonical ones -/
  members : ∀ {depth d s x}, Scalar s → CanonicalIn F (depth + 1) (.obj d) →
    scanMembers F fuel depth d s = some x → CanonicalIn F (depth + 1) (.obj x.1)

/-- One more member. -/
theorem CanonicalIn.set {depth : ℕ} {d : Payload} (h : CanonicalIn F depth (.obj d)) {k : Str}
    {v : Json} (hk : Joined k) (hv : CanonicalIn F (depth - 1) v) :
    CanonicalIn F depth (.obj (Dict.set d k v)) := by
  cases h with
  | obj hpos hnodup hkeys hvalues =>
    refine .obj hpos (Dict.nodup_keys_set hnodup k v) ?_ ?_
    · rintro ⟨k', v'⟩ he
      rcases Dict.mem_set he with heq | hd
      · obtain ⟨rfl, -⟩ := Prod.mk.inj heq
        exact hk
      · exact hkeys _ hd
    · rintro ⟨k', v'⟩ he
      rcases Dict.mem_set he with heq | hd
      · obtain ⟨-, rfl⟩ := Prod.mk.inj heq
        exact hv
      · exact hvalues _ hd

theorem canonicalIn_empty {depth : ℕ} (h : 0 < depth) : CanonicalIn F depth (.obj []) :=
  .obj h List.nodup_nil (by simp) (by simp)

theorem produces (fuel : ℕ) : Produces F fuel := by
  induction fuel with
  | zero => exact ⟨fun _ => nofun, fun _ => nofun, fun _ _ => nofun⟩
  | succ fuel ih =>
    refine ⟨fun {depth s x} hs h => ?_, fun {depth s x} hs h => ?_,
      fun {depth d s x} hs hd h => ?_⟩
    · cases s with
      | nil => cases h
      | cons c s =>
        have hrest := hs.suffix (List.suffix_cons c s)
        have hskip := hrest.suffix (skipSpace_suffix s)
        rw [scanOnce] at h
        split_ifs at h with hquote harr hdepth hobj hdepth
        · obtain ⟨y, hy, rfl⟩ := Option.map_eq_some_iff.mp h
          exact .str (joined_scanString hrest hy)
        · split at h
          · obtain rfl := Option.some.inj h
            exact .arr (Nat.pos_of_ne_zero hdepth) (by simp)
          · obtain ⟨y, hy, rfl⟩ := Option.map_eq_some_iff.mp h
            exact .arr (Nat.pos_of_ne_zero hdepth) (ih.items hskip hy)
        · split at h
          · obtain rfl := Option.some.inj h
            exact canonicalIn_empty (Nat.pos_of_ne_zero hdepth)
          · obtain ⟨y, hy, rfl⟩ := Option.map_eq_some_iff.mp h
            obtain ⟨k, rfl⟩ := Nat.exists_eq_succ_of_ne_zero hdepth
            exact ih.members hskip (canonicalIn_empty k.succ_pos) hy
        · exact canonical_scanLeaf h depth
    · rw [scanItems] at h
      obtain ⟨⟨v, s₁⟩, h₁, h⟩ := Option.bind_eq_some_iff.mp h
      obtain ⟨⟨last, s₂⟩, h₂, h⟩ := Option.bind_eq_some_iff.mp h
      have hs₂ : Scalar s₂ := (hs.suffix ((forward fuel).once h₁).1).suffix (scanNext_behind h₂).1
      have hv : CanonicalIn F depth v := ih.once hs h₁
      simp only at h
      split_ifs at h
      · obtain rfl := Option.some.inj h
        simpa using hv
      · obtain ⟨y, hy, rfl⟩ := Option.map_eq_some_iff.mp h
        exact List.forall_mem_cons.mpr ⟨hv, ih.items hs₂ hy⟩
    · rw [scanMembers] at h
      obtain ⟨⟨k, s₁⟩, h₁, h⟩ := Option.bind_eq_some_iff.mp h
      obtain ⟨s₂, h₂, h⟩ := Option.bind_eq_some_iff.mp h
      obtain ⟨⟨v, s₃⟩, h₃, h⟩ := Option.bind_eq_some_iff.mp h
      obtain ⟨⟨last, s₄⟩, h₄, h⟩ := Option.bind_eq_some_iff.mp h
      obtain ⟨s₀, h₀, h₁⟩ := Option.bind_eq_some_iff.mp h₁
      have hs₀ : Scalar s₀ := hs.suffix (expect_behind h₀).1
      have hs₁ : Scalar s₁ := hs₀.suffix (scanString_behind h₁).1
      have hs₂ : Scalar (skipSpace s₂) := ((hs₁.suffix (skipSpace_suffix s₁)).suffix
        (expect_behind h₂).1).suffix (skipSpace_suffix s₂)
      have hs₃ : Scalar s₃ := hs₂.suffix ((forward fuel).once h₃).1
      have hs₄ : Scalar s₄ := hs₃.suffix (scanNext_behind h₄).1
      have hset : CanonicalIn F (depth + 1) (.obj (Dict.set d k v)) :=
        hd.set (joined_scanString hs₀ h₁) (ih.once hs₂ h₃)
      simp only at h
      split_ifs at h
      · obtain rfl := Option.some.inj h
        exact hset
      · exact ih.members hs₄ hset h

/-- **What `loads` gives is canonical**, if its text came as UTF-8. -/
theorem loads_canonical {s : Str} (hs : Scalar s) {v : Json} (h : loads F s = some v) :
    Canonical F v := by
  rw [loads, loadsWith] at h
  split at h
  · cases h
  · rename_i x hx
    split_ifs at h
    obtain rfl := Option.some.inj h
    exact (produces _).once (hs.suffix (skipSpace_suffix s)) hx

/-! ## Building canonical values -/

theorem scalar_ascii {s : Str} (h : ∀ c ∈ s, c.val < 0x80) : Scalar s := by
  intro c hc hsur
  exact absurd (hsur.1.trans_lt (h c hc)) (by decide)

theorem canonical_str {depth : ℕ} {s : Str} (h : ∀ c ∈ s, c.val < 0x80) :
    CanonicalIn F depth (.str s) :=
  .str (scalar_ascii h).joined

theorem canonical_literal {depth : ℕ} (s : String) :
    CanonicalIn F depth (.str (GuardedIM.str s)) :=
  .str (scalar_str s).joined

theorem canonical_names {depth : ℕ} (hpos : 0 < depth) {us : List Str}
    (h : ∀ u ∈ us, ∀ c ∈ u, c.val < 0x80) : CanonicalIn F depth (.arr (us.map .str)) := by
  refine .arr hpos fun v hv => ?_
  obtain ⟨u, hu, rfl⟩ := List.mem_map.mp hv
  exact canonical_str (h u hu)

theorem Interpreter.nesting_pos (F : Interpreter) : 0 < F.nesting :=
  Nat.zero_lt_two.trans_le F.two_le_nesting

/-- A list fits into an object. -/
theorem Interpreter.inside_pos (F : Interpreter) : 0 < F.nesting - 1 :=
  Nat.sub_pos_of_lt F.two_le_nesting

theorem canonical_empty : Canonical F (.obj []) := canonicalIn_empty F.nesting_pos

/-- One more member, under a literal key. -/
theorem CanonicalIn.field {depth : ℕ} {d : Payload} (h : CanonicalIn F depth (.obj d))
    (k : String) {v : Json} (hv : CanonicalIn F (depth - 1) v) :
    CanonicalIn F depth (.obj (Dict.set d (GuardedIM.str k) v)) :=
  h.set (scalar_str k).joined hv

/-- The value under a key, and `None` where it is absent. -/
theorem CanonicalIn.find {depth : ℕ} {d : Payload} (h : CanonicalIn F depth (.obj d)) (k : Str) :
    CanonicalIn F (depth - 1) (d.find k) := by
  rw [Payload.find]
  rcases hv : Dict.get d k with _ | v
  · exact .null
  · cases h with
    | obj _ _ _ hvalues => exact hvalues _ (Dict.mem_of_get hv)

end Json

end GuardedIM
