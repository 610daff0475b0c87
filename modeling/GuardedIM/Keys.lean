import GuardedIM.Base64

/-!
# Keys in base64

WireGuard keys are 32 bytes, which the configuration and the commands hold in base64. The package
`wgtypes` reads them: `WgTypes` is what it documents of its functions, and `demoWgTypes` shows that
there are such functions, on top of `encoding/base64`.

* `stdDecode_stdEncode`: what was encoded is decoded again.
-/

namespace GuardedIM

/-- `base64.StdEncoding` on a text without line breaks, group by group. -/
def decodeQuanta : Bytes → Option Bytes
  | [] => some []
  | a :: b :: c :: d :: s =>
    match base64Value a.toNat, base64Value b.toNat, base64Value c.toNat, base64Value d.toNat with
    | some v, some w, some x, some y =>
      (decodeQuanta s).map ([UInt8.ofNat (v * 4 + w / 16), UInt8.ofNat (w * 16 + x / 4),
        UInt8.ofNat (x * 64 + y)] ++ ·)
    | some v, some w, some x, none =>
      if d = 61 ∧ s = [] then some [UInt8.ofNat (v * 4 + w / 16), UInt8.ofNat (w * 16 + x / 4)]
      else none
    | some v, some w, none, _ =>
      if c = 61 ∧ d = 61 ∧ s = [] then some [UInt8.ofNat (v * 4 + w / 16)] else none
    | _, _, _, _ => none
  | _ => none

/-- `base64.StdEncoding.DecodeString`, which skips line breaks. -/
def stdDecode (s : Bytes) : Option Bytes := decodeQuanta (s.filter fun c => c ≠ 10 && c ≠ 13)

/-- `base64.StdEncoding.EncodeToString`: the characters of `b64encode`, as bytes. -/
def stdEncode (b : Bytes) : Bytes := (b64encode b).map fun c => UInt8.ofNat c.val

/-! ## The round trip -/

/-- A character of the alphabet as a byte: it has its value, and is no line break. -/
theorem base64Byte_spec {v : ℕ} (h : v < 64) :
    base64Value (UInt8.ofNat (base64Char v).val).toNat = some v ∧
      UInt8.ofNat (base64Char v).val ≠ 10 ∧ UInt8.ofNat (base64Char v).val ≠ 13 := by
  have hall : ∀ v : Fin 64, base64Value (UInt8.ofNat (base64Char v).val).toNat = some v.val ∧
      UInt8.ofNat (base64Char v).val ≠ 10 ∧ UInt8.ofNat (base64Char v).val ≠ 13 := by
    decide +kernel
  exact hall ⟨v, h⟩

/-- No character that `b64encode` writes is skipped. -/
theorem filter_stdEncode (b : Bytes) :
    (stdEncode b).filter (fun c => c ≠ 10 && c ≠ 13) = stdEncode b := by
  refine List.filter_eq_self.mpr fun c hc => ?_
  obtain ⟨d, hd, rfl⟩ := List.mem_map.mp hc
  rcases mem_b64encode hd with ⟨v, hv, rfl⟩ | rfl
  · obtain ⟨-, hten, hthirteen⟩ := base64Byte_spec hv
    simp [hten, hthirteen]
  · rfl

/-- The second byte of a group, as the decoder puts it together. -/
theorem second_quantum (a b c : UInt8) :
    UInt8.ofNat ((a.toNat % 4 * 16 + b.toNat / 16) * 16 +
      (b.toNat % 16 * 4 + c.toNat / 64) / 4) = b := by
  have hb := b.toNat_lt
  have hc := c.toNat_lt
  refine UInt8.toNat_inj.mp ?_
  rw [UInt8.toNat_ofNat']
  omega

/-- The third. -/
theorem third_quantum (b c : UInt8) :
    UInt8.ofNat ((b.toNat % 16 * 4 + c.toNat / 64) * 64 + c.toNat % 64) = c := by
  have hc := c.toNat_lt
  refine UInt8.toNat_inj.mp ?_
  rw [UInt8.toNat_ofNat']
  omega

/-- **What was encoded is decoded again.** -/
theorem stdDecode_stdEncode (b : Bytes) : stdDecode (stdEncode b) = some b := by
  have hvalue : ∀ {v : ℕ}, v < 64 → base64Value (UInt8.ofNat (base64Char v).val).toNat = some v :=
    fun hv => (base64Byte_spec hv).1
  have hpad : base64Value (UInt8.ofNat (cp '=').val).toNat = none := rfl
  rw [stdDecode, filter_stdEncode, stdEncode]
  induction b using b64encode.induct with
  | case1 => rfl
  | case2 a =>
    -- two characters of padding end the text
    have ha := a.toNat_lt
    have hbyte := first_byte a 0
    rw [show (0 : UInt8).toNat / 16 = 0 from rfl, Nat.add_zero] at hbyte
    simp only [b64encode, List.map_cons, List.map_nil, decodeQuanta]
    rw [hvalue (by omega), hvalue (by omega), hpad]
    simp only [hbyte]
    rfl
  | case3 a b =>
    -- and here one does
    have ha := a.toNat_lt
    have hb := b.toNat_lt
    have hbyte := second_quantum a b 0
    rw [show (0 : UInt8).toNat / 64 = 0 from rfl, Nat.add_zero] at hbyte
    simp only [b64encode, List.map_cons, List.map_nil, decodeQuanta]
    rw [hvalue (by omega), hvalue (by omega), hvalue (by omega), hpad]
    simp only [first_byte, hbyte]
    rfl
  | case4 a b c s ih =>
    have ha := a.toNat_lt
    have hb := b.toNat_lt
    have hc := c.toNat_lt
    simp only [b64encode, List.map_cons, decodeQuanta]
    rw [hvalue (by omega), hvalue (by omega), hvalue (by omega), hvalue (by omega)]
    simp only [first_byte, second_quantum, third_quantum, ih]
    rfl

/-! ## `wgtypes` -/

/-- What `wgtypes` documents of its keys, which are 32 bytes. -/
structure WgTypes where
  /-- `NewKey` -/
  newKey : Bytes → Option Bytes
  /-- `ParseKey` -/
  parseKey : Bytes → Option Bytes
  /-- `Key.String` -/
  string : Bytes → Bytes
  /-- `NewKey` takes a slice that has exactly the length of a key -/
  newKey_eq : ∀ b, newKey b = if b.length = 32 then some b else none
  /-- `ParseKey` gives a key -/
  length_parseKey : ∀ {s key}, parseKey s = some key → key.length = 32
  /-- from the text that `Key.String` produces -/
  parseKey_string : ∀ {key}, key.length = 32 → parseKey (string key) = some key

theorem WgTypes.newKey_of_length (W : WgTypes) {b : Bytes} (h : b.length = 32) :
    W.newKey b = some b := by rw [W.newKey_eq, if_pos h]

/-- `wgtypes` on top of `encoding/base64`. -/
def demoWgTypes : WgTypes where
  newKey b := if b.length = 32 then some b else none
  parseKey s := (stdDecode s).bind fun b => if b.length = 32 then some b else none
  string := stdEncode
  newKey_eq _ := rfl
  length_parseKey {s key} h := by
    obtain ⟨b, -, hb⟩ := Option.bind_eq_some_iff.mp h
    split_ifs at hb with hlen
    exact Option.some.inj hb ▸ hlen
  parseKey_string {key} h := by rw [stdDecode_stdEncode, Option.bind_some, if_pos h]

end GuardedIM
