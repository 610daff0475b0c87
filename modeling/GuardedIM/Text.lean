import Mathlib.Algebra.GroupWithZero.Nat
import Mathlib.Data.List.DropRight
import Mathlib.Data.List.Induction

/-!
# Text and bytes

A Python `str` is a list of code points, lone surrogates included: `json.loads`
produces them from escapes, and `encode` is where they fail. Bytes are lists of
`UInt8`; a Go `string` is its bytes.

Only the operations the chat programs use are here: `strip` with its default set
and with a set of characters, and UTF-8 in both directions.

* `decode_encode`: decoding undoes encoding.
* `decode_scalar`: what was decoded can be encoded again, since it has no surrogates.
-/

namespace GuardedIM

/-- A Unicode code point, surrogates included. -/
abbrev CodePoint := Fin 0x110000

/-- A Python `str`. -/
abbrev Str := List CodePoint

instance instNeZeroCodePoint : NeZero 0x110000 := ⟨by decide⟩

instance instLawfulBEqStr : LawfulBEq Str := inferInstance

/-- A byte string. -/
abbrev Bytes := List UInt8

/-- The code point of a character. -/
def cp (c : Char) : CodePoint := Fin.ofNat _ c.toNat

/-- A literal as a `str`. -/
def str (s : String) : Str := s.toList.map cp

/-- An ASCII literal as bytes. -/
def ascii (s : String) : Bytes := s.toList.map fun c => UInt8.ofNat c.toNat

instance : Coe String Str := ⟨str⟩

/-! ## Stripping -/

/-- The characters `str.strip()` removes. -/
def isSpace (c : CodePoint) : Bool :=
  (9 ≤ c.val && c.val ≤ 13) || (28 ≤ c.val && c.val ≤ 32) || c.val = 0x85 || c.val = 0xA0 ||
    c.val = 0x1680 || (0x2000 ≤ c.val && c.val ≤ 0x200A) || c.val = 0x2028 || c.val = 0x2029 ||
    c.val = 0x202F || c.val = 0x205F || c.val = 0x3000

/-- Remove the characters `p` accepts from both ends. -/
def stripBy (p : CodePoint → Bool) (s : Str) : Str := (s.dropWhile p).rdropWhile p

/-- `s.strip()` -/
def strip (s : Str) : Str := stripBy isSpace s

/-- `s.lstrip("#")` -/
def lstripHash (s : Str) : Str := s.dropWhile (· = cp '#')

/-- Text with nothing to strip at either end is left alone. -/
theorem stripBy_eq_self {p : CodePoint → Bool} {s : Str} (h : ∀ c ∈ s, p c = false) :
    stripBy p s = s := by
  have hd : s.dropWhile p = s := by
    cases s with
    | nil => rfl
    | cons c s => simp [h c (List.mem_cons_self ..)]
  rw [stripBy, hd, List.rdropWhile_eq_self_iff]
  intro hne
  simp [h _ (List.getLast_mem hne)]

/-! ## UTF-8 -/

/-- The bytes of one code point; a surrogate has none (`UnicodeEncodeError`). -/
def encodePoint (c : CodePoint) : Option Bytes :=
  let n := c.val
  let tail (k : ℕ) : UInt8 := UInt8.ofNat (0x80 + n / 64 ^ k % 64)
  if n < 0x80 then some [UInt8.ofNat n]
  else if n < 0x800 then some [UInt8.ofNat (0xC0 + n / 64), tail 0]
  else if 0xD800 ≤ n ∧ n ≤ 0xDFFF then none
  else if n < 0x10000 then some [UInt8.ofNat (0xE0 + n / 64 ^ 2), tail 1, tail 0]
  else some [UInt8.ofNat (0xF0 + n / 64 ^ 3), tail 2, tail 1, tail 0]

/-- `s.encode('utf-8')` -/
def encode (s : Str) : Option Bytes := (s.mapM encodePoint).map List.flatten

/-- Where the decoder stands between two bytes: the bits read so far, how many
continuation bytes are owed, and the range the next one has to lie in. -/
structure Decoder where
  /-- value of the bits read so far -/
  bits : ℕ
  /-- continuation bytes still owed -/
  owed : ℕ
  /-- least next byte -/
  low : ℕ
  /-- greatest next byte -/
  high : ℕ

/-- What a leading byte starts, when it is not ASCII. -/
def leading (b : ℕ) : Option Decoder :=
  if 0xC2 ≤ b ∧ b ≤ 0xDF then some ⟨b - 0xC0, 1, 0x80, 0xBF⟩
  else if b = 0xE0 then some ⟨0, 2, 0xA0, 0xBF⟩
  else if b = 0xED then some ⟨0xD, 2, 0x80, 0x9F⟩
  else if 0xE1 ≤ b ∧ b ≤ 0xEF then some ⟨b - 0xE0, 2, 0x80, 0xBF⟩
  else if b = 0xF0 then some ⟨0, 3, 0x90, 0xBF⟩
  else if 0xF1 ≤ b ∧ b ≤ 0xF3 then some ⟨b - 0xF0, 3, 0x80, 0xBF⟩
  else if b = 0xF4 then some ⟨4, 3, 0x80, 0x8F⟩
  else none

/-- Decode from between characters (`none`) or from inside one. -/
def decodeFrom : Option Decoder → Bytes → Option Str
  | none, [] => some []
  | some _, [] => none
  | none, b :: l =>
    if b.toNat < 0x80 then (decodeFrom none l).map (Fin.ofNat _ b.toNat :: ·)
    else match leading b.toNat with
      | none => none
      | some q => decodeFrom (some q) l
  | some q, b :: l =>
    if q.low ≤ b.toNat ∧ b.toNat ≤ q.high then
      if q.owed = 1 then
        (decodeFrom none l).map (Fin.ofNat _ (q.bits * 64 + (b.toNat - 0x80)) :: ·)
      else decodeFrom (some ⟨q.bits * 64 + (b.toNat - 0x80), q.owed - 1, 0x80, 0xBF⟩) l
    else none

/-- `b.decode()`: strict UTF-8, `none` for `UnicodeDecodeError`. -/
def decode (b : Bytes) : Option Str := decodeFrom none b

@[simp] theorem decode_nil : decode [] = some [] := rfl

/-- Decoding goes through ASCII bytes one by one. -/
theorem decode_cons_ascii {b : UInt8} (hb : b.toNat < 0x80) (l : Bytes) :
    decode (b :: l) = (decode l).map (Fin.ofNat _ b.toNat :: ·) := by
  simp [decode, decodeFrom, hb]

/-- ASCII text encodes to one byte per character. -/
theorem encode_ascii {s : Str} (h : ∀ c ∈ s, c.val < 0x80) :
    encode s = some (s.map fun c => UInt8.ofNat c.val) := by
  induction s with
  | nil => rfl
  | cons c s ih =>
    have hc : encodePoint c = some [UInt8.ofNat c.val] := by
      simp [encodePoint, h c (List.mem_cons_self ..)]
    have hs := ih fun d hd => h d (List.mem_cons_of_mem _ hd)
    obtain ⟨bs, hbs, hflat⟩ := Option.map_eq_some_iff.mp hs
    simp [encode, List.mapM_cons, hc, hbs, hflat]

/-- Decoding the bytes of ASCII text gives the text back and goes on with the rest. -/
theorem decode_ascii_append {s : Str} (h : ∀ c ∈ s, c.val < 0x80) (l : Bytes) :
    decode ((s.map fun c => UInt8.ofNat c.val) ++ l) = (decode l).map (s ++ ·) := by
  induction s with
  | nil => simp
  | cons c s ih =>
    have hc := h c (List.mem_cons_self ..)
    have hn : (UInt8.ofNat c.val).toNat = c.val := by
      rw [UInt8.toNat_ofNat']
      omega
    rw [List.map_cons, List.cons_append, decode_cons_ascii (by omega),
      ih fun d hd => h d (List.mem_cons_of_mem _ hd), hn]
    cases decode l with
    | none => rfl
    | some t => simp

/-! ## The round trip -/

/-- A code point UTF-8 cannot carry. -/
def Surrogate (c : CodePoint) : Prop := 0xD800 ≤ c.val ∧ c.val ≤ 0xDFFF

theorem toNat_ofNat_byte {n : ℕ} (h : n < 256) : (UInt8.ofNat n).toNat = n := by
  rw [UInt8.toNat_ofNat']
  omega

/-- A leading byte. -/
theorem decodeFrom_leading {n : ℕ} {q : Decoder} (hn : n < 256) (hlead : leading n = some q)
    (hascii : 0x80 ≤ n) (l : Bytes) :
    decodeFrom none (UInt8.ofNat n :: l) = decodeFrom (some q) l := by
  rw [decodeFrom, toNat_ofNat_byte hn, if_neg (by omega), hlead]

/-- A continuation byte with more to come. -/
theorem decodeFrom_more {n : ℕ} {q : Decoder} (hn : n < 256) (howed : q.owed ≠ 1)
    (hlow : q.low ≤ n) (hhigh : n ≤ q.high) (l : Bytes) :
    decodeFrom (some q) (UInt8.ofNat n :: l) =
      decodeFrom (some ⟨q.bits * 64 + (n - 0x80), q.owed - 1, 0x80, 0xBF⟩) l := by
  rw [decodeFrom, toNat_ofNat_byte hn, if_pos ⟨hlow, hhigh⟩, if_neg howed]

/-- The last byte of a character. -/
theorem decodeFrom_last {n : ℕ} {q : Decoder} (hn : n < 256) (howed : q.owed = 1)
    (hlow : q.low ≤ n) (hhigh : n ≤ q.high) (l : Bytes) :
    decodeFrom (some q) (UInt8.ofNat n :: l) =
      (decodeFrom none l).map (Fin.ofNat _ (q.bits * 64 + (n - 0x80)) :: ·) := by
  rw [decodeFrom, toNat_ofNat_byte hn, if_pos ⟨hlow, hhigh⟩, if_pos howed]

theorem ofNat_val (c : CodePoint) {n : ℕ} (h : n = c.val) : Fin.ofNat 0x110000 n = c := by
  subst h
  exact Fin.ofNat_val_eq_self c

/-- **One character's round trip.** -/
theorem decode_encodePoint {c : CodePoint} {bs : Bytes} (h : encodePoint c = some bs) (l : Bytes) :
    decode (bs ++ l) = (decode l).map (c :: ·) := by
  have hc : c.val < 0x110000 := c.isLt
  simp only [encodePoint] at h
  split_ifs at h with h₁ h₂ h₃ h₄
  · obtain rfl := Option.some.inj h
    rw [List.singleton_append, decode_cons_ascii (by rw [toNat_ofNat_byte (by omega)]; exact h₁),
      toNat_ofNat_byte (by omega), ofNat_val c rfl]
  · -- two bytes
    obtain rfl := Option.some.inj h
    have hlead : leading (0xC0 + c.val / 64) = some ⟨c.val / 64, 1, 0x80, 0xBF⟩ := by
      rw [leading, if_pos (by omega), Nat.add_sub_cancel_left]
    simp only [decode, List.cons_append, List.nil_append]
    rw [decodeFrom_leading (by omega) hlead (by omega),
      decodeFrom_last (by omega) rfl (by simp) (by simp; omega)]
    rw [ofNat_val c (by simp; omega)]
  · -- three bytes
    obtain rfl := Option.some.inj h
    have hlead : ∃ low high, leading (0xE0 + c.val / 64 ^ 2) =
        some ⟨c.val / 64 ^ 2, 2, low, high⟩ ∧ low ≤ 0x80 + c.val / 64 % 64 ∧
          0x80 + c.val / 64 % 64 ≤ high := by
      rw [leading, if_neg (by omega)]
      split_ifs with h₅ h₆ h₇
      · have hbits : c.val / 64 ^ 2 = 0 := by omega
        exact ⟨_, _, by rw [hbits], by omega, by omega⟩
      · have hbits : c.val / 64 ^ 2 = 0xD := by omega
        exact ⟨_, _, by rw [hbits], by omega, by omega⟩
      · exact ⟨_, _, by rw [Nat.add_sub_cancel_left], by omega, by omega⟩
      all_goals omega
    obtain ⟨low, high, hlead, hlow, hhigh⟩ := hlead
    simp only [decode, List.cons_append, List.nil_append]
    rw [decodeFrom_leading (by omega) hlead (by omega),
      decodeFrom_more (by simp; omega) (by simp) (by simpa using hlow) (by simpa using hhigh),
      decodeFrom_last (by omega) rfl (by simp) (by simp; omega)]
    rw [ofNat_val c (by simp; omega)]
  · -- four bytes
    obtain rfl := Option.some.inj h
    have hlead : ∃ low high, leading (0xF0 + c.val / 64 ^ 3) =
        some ⟨c.val / 64 ^ 3, 3, low, high⟩ ∧ low ≤ 0x80 + c.val / 64 ^ 2 % 64 ∧
          0x80 + c.val / 64 ^ 2 % 64 ≤ high := by
      rw [leading, if_neg (by omega), if_neg (by omega), if_neg (by omega), if_neg (by omega)]
      split_ifs with h₅ h₆ h₇
      · have hbits : c.val / 64 ^ 3 = 0 := by omega
        exact ⟨_, _, by rw [hbits], by omega, by omega⟩
      · exact ⟨_, _, by rw [Nat.add_sub_cancel_left], by omega, by omega⟩
      · have hbits : c.val / 64 ^ 3 = 4 := by omega
        exact ⟨_, _, by rw [hbits], by omega, by omega⟩
      all_goals omega
    obtain ⟨low, high, hlead, hlow, hhigh⟩ := hlead
    simp only [decode, List.cons_append, List.nil_append]
    rw [decodeFrom_leading (by omega) hlead (by omega),
      decodeFrom_more (by omega) (by simp) hlow hhigh,
      decodeFrom_more (by simp; omega) (by simp) (by simp) (by simp; omega),
      decodeFrom_last (by omega) rfl (by simp) (by simp; omega)]
    rw [ofNat_val c (by simp; omega)]

/-- **Decoding undoes encoding**, for all text that can be encoded. -/
theorem decode_encode {s : Str} {b : Bytes} (h : encode s = some b) : decode b = some s := by
  induction s generalizing b with
  | nil =>
    obtain rfl := Option.some.inj h
    rfl
  | cons c s ih =>
    obtain ⟨chunks, hchunks, rfl⟩ := Option.map_eq_some_iff.mp h
    rw [List.mapM_cons] at hchunks
    obtain ⟨bs, hbs, hrest⟩ := Option.bind_eq_some_iff.mp hchunks
    obtain ⟨rest, hmap, hcons⟩ := Option.bind_eq_some_iff.mp hrest
    obtain rfl := Option.some.inj hcons
    have hs : encode s = some rest.flatten := by rw [encode, hmap, Option.map_some]
    rw [List.flatten_cons, decode_encodePoint hbs, ih hs, Option.map_some]

/-- The characters that can still come of a decoder lie in a range without surrogates. -/
structure Decoder.Sound (q : Decoder) : Prop where
  owes : 1 ≤ q.owed
  low : 0x80 ≤ q.low
  high : q.high ≤ 0xBF
  range : (q.bits * 64 + (q.high - 0x80) + 1) * 64 ^ (q.owed - 1) ≤ 0xD800 ∨
    0xE000 ≤ (q.bits * 64 + (q.low - 0x80)) * 64 ^ (q.owed - 1) ∧
      (q.bits * 64 + (q.high - 0x80) + 1) * 64 ^ (q.owed - 1) ≤ 0x110000

theorem leading_sound {n : ℕ} {q : Decoder} (h : leading n = some q) : q.Sound := by
  rw [leading] at h
  split_ifs at h
  all_goals
    obtain rfl := Option.some.inj h
    refine ⟨by simp, by simp, by simp, ?_⟩
    simp only [Nat.reduceSub, Nat.reducePow]
    omega

/-- A continuation byte narrows the range down. -/
theorem Decoder.Sound.next {q : Decoder} (h : q.Sound) {n : ℕ} (hlow : q.low ≤ n)
    (hhigh : n ≤ q.high) (howed : q.owed ≠ 1) :
    Decoder.Sound ⟨q.bits * 64 + (n - 0x80), q.owed - 1, 0x80, 0xBF⟩ := by
  obtain ⟨h₁, h₂, h₃, hrange⟩ := h
  obtain ⟨k, hk⟩ : ∃ k, q.owed = k + 2 := ⟨q.owed - 2, by omega⟩
  refine ⟨by simp; omega, le_refl _, le_refl _, ?_⟩
  have hlo : (q.bits * 64 + (q.low - 0x80)) * 64 ^ (k + 1) ≤
      (q.bits * 64 + (n - 0x80)) * 64 ^ (k + 1) := Nat.mul_le_mul_right _ (by omega)
  have hhi : (q.bits * 64 + (n - 0x80) + 1) * 64 ^ (k + 1) ≤
      (q.bits * 64 + (q.high - 0x80) + 1) * 64 ^ (k + 1) := Nat.mul_le_mul_right _ (by omega)
  simp only [hk, Nat.add_sub_cancel, Nat.reduceSub, Nat.reduceSubDiff] at hrange ⊢
  have hlo' : ((q.bits * 64 + (n - 0x80)) * 64 + 0) * 64 ^ k =
      (q.bits * 64 + (n - 0x80)) * 64 ^ (k + 1) := by
    rw [Nat.pow_succ', Nat.add_zero, Nat.mul_assoc]
  have hhi' : ((q.bits * 64 + (n - 0x80)) * 64 + 63 + 1) * 64 ^ k =
      (q.bits * 64 + (n - 0x80) + 1) * 64 ^ (k + 1) := by
    rw [Nat.pow_succ', ← Nat.mul_assoc, Nat.add_mul _ 1 64]
  rw [hlo', hhi']
  omega

theorem decodeFrom_scalar {q : Option Decoder} {b : Bytes} {s : Str}
    (hq : ∀ d ∈ q, d.Sound) (h : decodeFrom q b = some s) : ∀ c ∈ s, ¬ Surrogate c := by
  induction b generalizing q s with
  | nil =>
    cases q with
    | none =>
      obtain rfl := Option.some.inj h
      simp
    | some d => cases h
  | cons b l ih =>
    have hb : b.toNat < 256 := b.toNat_lt
    cases q with
    | none =>
      rw [decodeFrom] at h
      split_ifs at h with hascii
      · obtain ⟨t, ht, rfl⟩ := Option.map_eq_some_iff.mp h
        refine List.forall_mem_cons.mpr ⟨?_, ih (by simp) ht⟩
        simp only [Surrogate, Fin.ofNat]
        omega
      · split at h
        · cases h
        · rename_i d hlead
          exact ih (fun d' hd' => Option.some.inj hd' ▸ leading_sound hlead) h
    | some d =>
      have hd := hq d rfl
      rw [decodeFrom] at h
      split_ifs at h with hrange howed
      · obtain ⟨t, ht, rfl⟩ := Option.map_eq_some_iff.mp h
        refine List.forall_mem_cons.mpr ⟨?_, ih (by simp) ht⟩
        have hval := hd.range
        have hl := hd.low
        rw [howed] at hval
        simp only [Surrogate, Fin.ofNat]
        omega
      · exact ih (fun d' hd' => Option.some.inj hd' ▸ hd.next hrange.1 hrange.2 howed) h

/-- **Decoded text has no surrogates.** -/
theorem decode_scalar {b : Bytes} {s : Str} (h : decode b = some s) : ∀ c ∈ s, ¬ Surrogate c :=
  decodeFrom_scalar (by simp) h

end GuardedIM
