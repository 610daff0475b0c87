import GuardedIM.Encryption

/-!
# What `base64.b64encode` makes of a file

The client encodes a file once. Both sides decode it with `"==="` appended, whatever padding it has
already: outside a group the extra characters are skipped, and inside one the padding that
completes it ends the input.

* `b64decode_b64encode`: the file comes back, for every length.
* `length_b64encode`: four characters for each three bytes that were begun.
-/

namespace GuardedIM

/-- A character of the base64 alphabet. -/
def base64Char (v : ℕ) : CodePoint :=
  if v < 26 then Fin.ofNat _ (v + 65)
  else if v < 52 then Fin.ofNat _ (v + 71)
  else if v < 62 then Fin.ofNat _ (v - 4)
  else if v = 62 then cp '+'
  else cp '/'

/-- `base64.b64encode(s).decode('utf-8')` -/
def b64encode : Bytes → Str
  | [] => []
  | [a] => [base64Char (a.toNat / 4), base64Char (a.toNat % 4 * 16), cp '=', cp '=']
  | [a, b] =>
    [base64Char (a.toNat / 4), base64Char (a.toNat % 4 * 16 + b.toNat / 16),
      base64Char (b.toNat % 16 * 4), cp '=']
  | a :: b :: c :: s =>
    base64Char (a.toNat / 4) :: base64Char (a.toNat % 4 * 16 + b.toNat / 16) ::
      base64Char (b.toNat % 16 * 4 + c.toNat / 64) :: base64Char (c.toNat % 64) :: b64encode s

/-! ## The alphabet -/

/-- What there is to know of a character of the alphabet: its value, and that it is neither
the padding nor anything that JSON escapes. -/
theorem base64Char_spec {v : ℕ} (h : v < 64) : base64Value (base64Char v).val = some v ∧
    base64Char v ≠ cp '=' ∧ 32 ≤ (base64Char v).val ∧ (base64Char v).val < 127 ∧
    base64Char v ≠ cp '"' ∧ base64Char v ≠ cp '\\' := by
  have hall : ∀ v : Fin 64, base64Value (base64Char v).val = some v.val ∧
      base64Char v ≠ cp '=' ∧ 32 ≤ (base64Char v).val ∧ (base64Char v).val < 127 ∧
      base64Char v ≠ cp '"' ∧ base64Char v ≠ cp '\\' := by decide +kernel
  exact hall ⟨v, h⟩

variable {v left pads : ℕ} {out : Bytes} {s : Str}

/-- The decoder at the first character of a group. -/
theorem a2bBase64_first (h : v < 64) :
    a2bBase64 0 left pads out (base64Char v :: s) = a2bBase64 1 v 0 out s := by
  obtain ⟨hvalue, hpad, -⟩ := base64Char_spec h
  conv_lhs => unfold a2bBase64
  simp only [if_neg hpad, hvalue]

/-- At the second: a byte is complete. -/
theorem a2bBase64_second (h : v < 64) : a2bBase64 1 left pads out (base64Char v :: s) =
    a2bBase64 2 (v % 16) 0 (out ++ [UInt8.ofNat (left * 4 + v / 16)]) s := by
  obtain ⟨hvalue, hpad, -⟩ := base64Char_spec h
  conv_lhs => unfold a2bBase64
  simp only [if_neg hpad, hvalue]

/-- At the third. -/
theorem a2bBase64_third (h : v < 64) : a2bBase64 2 left pads out (base64Char v :: s) =
    a2bBase64 3 (v % 4) 0 (out ++ [UInt8.ofNat (left * 16 + v / 4)]) s := by
  obtain ⟨hvalue, hpad, -⟩ := base64Char_spec h
  conv_lhs => unfold a2bBase64
  simp only [if_neg hpad, hvalue]

/-- And at the fourth, which completes the group. -/
theorem a2bBase64_fourth (h : v < 64) : a2bBase64 3 left pads out (base64Char v :: s) =
    a2bBase64 0 0 0 (out ++ [UInt8.ofNat (left * 64 + v)]) s := by
  obtain ⟨hvalue, hpad, -⟩ := base64Char_spec h
  conv_lhs => unfold a2bBase64
  simp only [if_neg hpad, hvalue]

/-- The first byte of a group, from its first two characters. -/
theorem first_byte (a b : UInt8) :
    UInt8.ofNat (a.toNat / 4 * 4 + (a.toNat % 4 * 16 + b.toNat / 16) / 16) = a := by
  have hb := b.toNat_lt
  have heq : a.toNat / 4 * 4 + (a.toNat % 4 * 16 + b.toNat / 16) / 16 = a.toNat := by omega
  rw [heq, UInt8.ofNat_toNat]

/-- The second, with what is left of the second character. -/
theorem second_byte (a b c : UInt8) :
    UInt8.ofNat ((a.toNat % 4 * 16 + b.toNat / 16) % 16 * 16 +
      (b.toNat % 16 * 4 + c.toNat / 64) / 4) = b := by
  have hb := b.toNat_lt
  have hc := c.toNat_lt
  have heq : (a.toNat % 4 * 16 + b.toNat / 16) % 16 * 16 +
      (b.toNat % 16 * 4 + c.toNat / 64) / 4 = b.toNat := by omega
  rw [heq, UInt8.ofNat_toNat]

/-- The third. -/
theorem third_byte (b c : UInt8) :
    UInt8.ofNat ((b.toNat % 16 * 4 + c.toNat / 64) % 4 * 64 + c.toNat % 64) = c := by
  have hc := c.toNat_lt
  have heq : (b.toNat % 16 * 4 + c.toNat / 64) % 4 * 64 + c.toNat % 64 = c.toNat := by omega
  rw [heq, UInt8.ofNat_toNat]

/-! ## The round trip -/

/-- The decoder reads an encoded file and the extra padding behind it. -/
theorem a2bBase64_b64encode (b out : Bytes) :
    a2bBase64 0 0 0 out (b64encode b ++ str "===") = some (out ++ b) := by
  induction b using b64encode.induct generalizing out with
  | case1 =>
    rw [List.append_nil]
    rfl
  | case2 a =>
    -- two padding characters complete the group
    have ha := a.toNat_lt
    have hbyte := first_byte a 0
    rw [show (0 : UInt8).toNat / 16 = 0 from rfl, Nat.add_zero] at hbyte
    simp only [b64encode, List.cons_append, List.nil_append]
    rw [a2bBase64_first (by omega), a2bBase64_second (by omega), hbyte]
    rfl
  | case3 a b =>
    -- and here one does
    have ha := a.toNat_lt
    have hb := b.toNat_lt
    have hbyte := second_byte a b 0
    rw [show (0 : UInt8).toNat / 64 = 0 from rfl, Nat.add_zero] at hbyte
    simp only [b64encode, List.cons_append, List.nil_append]
    rw [a2bBase64_first (by omega), a2bBase64_second (by omega), a2bBase64_third (by omega),
      first_byte, hbyte, List.append_assoc]
    rfl
  | case4 a b c s ih =>
    have ha := a.toNat_lt
    have hb := b.toNat_lt
    have hc := c.toNat_lt
    simp only [b64encode, List.cons_append]
    rw [a2bBase64_first (by omega), a2bBase64_second (by omega), a2bBase64_third (by omega),
      a2bBase64_fourth (by omega), first_byte, second_byte, third_byte, ih]
    simp

/-- Every character is in the alphabet, or the padding. -/
theorem mem_b64encode {b : Bytes} {c : CodePoint} (h : c ∈ b64encode b) :
    (∃ v < 64, c = base64Char v) ∨ c = cp '=' := by
  induction b using b64encode.induct with
  | case1 => cases h
  | case2 a =>
    have ha := a.toNat_lt
    simp only [b64encode, List.mem_cons, List.not_mem_nil, or_false] at h
    rcases h with rfl | rfl | rfl | rfl
    · exact .inl ⟨_, by omega, rfl⟩
    · exact .inl ⟨_, by omega, rfl⟩
    · exact .inr rfl
    · exact .inr rfl
  | case3 a b =>
    have ha := a.toNat_lt
    have hb := b.toNat_lt
    simp only [b64encode, List.mem_cons, List.not_mem_nil, or_false] at h
    rcases h with rfl | rfl | rfl | rfl
    · exact .inl ⟨_, by omega, rfl⟩
    · exact .inl ⟨_, by omega, rfl⟩
    · exact .inl ⟨_, by omega, rfl⟩
    · exact .inr rfl
  | case4 a b c' s ih =>
    have ha := a.toNat_lt
    have hb := b.toNat_lt
    have hc := c'.toNat_lt
    simp only [b64encode, List.mem_cons] at h
    rcases h with rfl | rfl | rfl | rfl | h
    · exact .inl ⟨_, by omega, rfl⟩
    · exact .inl ⟨_, by omega, rfl⟩
    · exact .inl ⟨_, by omega, rfl⟩
    · exact .inl ⟨_, by omega, rfl⟩
    · exact ih h

/-- The characters are printable ASCII that JSON writes as they are. -/
theorem b64encode_plain {b : Bytes} : ∀ c ∈ b64encode b,
    32 ≤ c.val ∧ c.val < 127 ∧ c ≠ cp '"' ∧ c ≠ cp '\\' := by
  intro c hc
  rcases mem_b64encode hc with ⟨v, hv, rfl⟩ | rfl
  · exact (base64Char_spec hv).2.2
  · decide

/-- **Decoding undoes encoding**, with `"==="` behind the text, for files of every length. -/
theorem b64decode_b64encode (b : Bytes) : b64decode (b64encode b ++ str "===") = some b := by
  have hascii : (b64encode b ++ str "===").all (·.val < 0x80) = true := by
    rw [List.all_append, Bool.and_eq_true]
    refine ⟨List.all_eq_true.mpr fun c hc => decide_eq_true ?_, by decide⟩
    exact (b64encode_plain c hc).2.1.trans (by decide)
  rw [b64decode, if_pos hascii, a2bBase64_b64encode, List.nil_append]

/-- **The expansion**: four characters for every three bytes, the last group filled up. -/
theorem length_b64encode (b : Bytes) : (b64encode b).length = (b.length + 2) / 3 * 4 := by
  induction b using b64encode.induct with
  | case1 => rfl
  | case2 a => simp [b64encode]
  | case3 a b => simp [b64encode]
  | case4 a b c s ih =>
    simp only [b64encode, List.length_cons, ih]
    omega

theorem b64encode_eq_nil {b : Bytes} : b64encode b = [] ↔ b = [] := by
  rw [← List.length_eq_zero_iff, ← List.length_eq_zero_iff, length_b64encode]
  omega

/-- What `check_file_size` says of an encoded file. -/
theorem checkFileSize_b64encode (b : Bytes) :
    checkFileSize (.str (b64encode b)) = true ↔ 0 < b.length ∧ b.length ≤ maxFileSize := by
  rw [checkFileSize_iff, List.length_pos_iff]
  constructor
  · rintro ⟨s, raw, hs, hne, hraw, hlen⟩
    obtain rfl := Json.str.inj hs
    rw [b64decode_b64encode] at hraw
    obtain rfl := Option.some.inj hraw
    exact ⟨fun hb => hne (b64encode_eq_nil.mpr hb), hlen⟩
  · rintro ⟨hne, hlen⟩
    exact ⟨_, b, rfl, fun hb => hne (b64encode_eq_nil.mp hb), b64decode_b64encode b, hlen⟩

end GuardedIM
