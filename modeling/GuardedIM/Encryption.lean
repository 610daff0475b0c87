import GuardedIM.Json

/-!
# `common/encryption.py`

The size limits, the lenient base64 decoder behind `check_file_size`, and the AES-GCM
envelope of a frame body. The cipher itself belongs to the `cryptography` package: it
is the parameter `Aead`, whose two laws are that decryption undoes encryption and that
the tag adds 16 bytes.

`decryptMessage_encryptMessage` is the round trip of an envelope: the nonce is the
first 12 bytes, so what was sealed under a key comes back under the same key.
-/

namespace GuardedIM

/-- `MAX_MESSAGE_SIZE`: 64 KiB -/
def maxMessageSize : ℕ := 64 * 1024

/-- `MAX_FILE_SIZE`: 5 MiB -/
def maxFileSize : ℕ := 5 * (1024 * 1024)

/-- `MAX_FRAME_SIZE`: 8 MiB -/
def maxFrameSize : ℕ := 8 * (1024 * 1024)

/-! ## Base64, as CPython decodes it without `validate` -/

/-- The value of a character of the base64 alphabet. -/
def base64Value (c : ℕ) : Option ℕ :=
  if 65 ≤ c ∧ c ≤ 90 then some (c - 65)
  else if 97 ≤ c ∧ c ≤ 122 then some (c - 71)
  else if 48 ≤ c ∧ c ≤ 57 then some (c + 4)
  else if c = 43 then some 62
  else if c = 47 then some 63
  else none

/-- `binascii.a2b_base64` in its lenient mode: `quad` characters of the current group
are read, `left` holds their unwritten bits, `pads` counts the `=` since the last
character, `out` is the output so far. Characters outside the alphabet are skipped, and
the padding that completes a group ends the input. -/
def a2bBase64 (quad left pads : ℕ) (out : Bytes) : Str → Option Bytes
  | [] => if quad = 0 then some out else none
  | c :: s =>
    if c = cp '=' then
      if quad < 2 then a2bBase64 quad left pads out s
      else if 4 ≤ quad + (pads + 1) then some out
      else a2bBase64 quad left (pads + 1) out s
    else
      match base64Value c.val, quad with
      | none, _ => a2bBase64 quad left pads out s
      | some v, 0 => a2bBase64 1 v 0 out s
      | some v, 1 => a2bBase64 2 (v % 16) 0 (out ++ [UInt8.ofNat (left * 4 + v / 16)]) s
      | some v, 2 => a2bBase64 3 (v % 4) 0 (out ++ [UInt8.ofNat (left * 16 + v / 4)]) s
      | some v, _ => a2bBase64 0 0 0 (out ++ [UInt8.ofNat (left * 64 + v)]) s

/-- `base64.b64decode(s)`: the text has to be ASCII. -/
def b64decode (s : Str) : Option Bytes :=
  if s.all (·.val < 0x80) then a2bBase64 0 0 0 [] s else none

/-! ## Size checks -/

/-- `check_file_size`: appending `"==="` to anything but a string raises, and every
exception counts as a refusal. -/
def checkFileSize (b64Data : Json) : Bool :=
  if b64Data.truthy then
    match b64Data with
    | .str s =>
      match b64decode (s ++ str "===") with
      | some raw => decide (raw.length ≤ maxFileSize)
      | none => false
    | _ => false
  else false

/-- `check_message_size`; a lone surrogate has no UTF-8 form. -/
def checkMessageSize (message : Str) : Except Exc Bool :=
  match encode message with
  | some b => .ok (decide (b.length ≤ maxMessageSize))
  | none => .error .valueError

/-- A payload that passes `check_file_size` is a string that decodes. -/
theorem checkFileSize_iff {v : Json} :
    checkFileSize v = true ↔
      ∃ s raw, v = .str s ∧ s ≠ [] ∧ b64decode (s ++ str "===") = some raw ∧
        raw.length ≤ maxFileSize := by
  constructor
  · intro h
    unfold checkFileSize at h
    split_ifs at h with ht
    cases v with
    | str s =>
      have hne : s ≠ [] := by simpa [Json.truthy] using ht
      rcases hd : b64decode (s ++ str "===") with _ | raw
      · simp [hd] at h
      · exact ⟨s, raw, rfl, hne, hd, by simpa [hd] using h⟩
    | _ => cases h
  · rintro ⟨s, raw, rfl, hne, hd, hlen⟩
    have ht : (Json.str s).truthy = true := by simp [Json.truthy, hne]
    simp only [checkFileSize, if_pos ht, hd, decide_eq_true hlen]

/-! ## The envelope of a frame body -/

/-- An AES key as a handler obtains it from `private_key.decrypt`: any bytes. -/
abbrev Key := Bytes

/-- `AESGCM(key)` accepts keys of 128, 192 and 256 bits and raises on any other. -/
def usable (key : Key) : Bool := key.length = 16 || key.length = 24 || key.length = 32

/-- `AESGCM` of the `cryptography` package. -/
structure Aead where
  /-- `aesgcm.encrypt(nonce, data, None)` -/
  encrypt : Key → Bytes → Bytes → Bytes
  /-- `aesgcm.decrypt(nonce, data, None)`; `none` when it raises -/
  decrypt : Key → Bytes → Bytes → Option Bytes
  /-- decryption returns exactly what was encrypted under the key -/
  decrypt_encrypt : ∀ key nonce data, decrypt key nonce (encrypt key nonce data) = some data
  /-- the tag is 16 bytes -/
  length_encrypt : ∀ key nonce data, (encrypt key nonce data).length = data.length + 16

variable (A : Aead)

/-- `encrypt_message`, with the 12 bytes `os.urandom` gave. -/
def encryptMessage (nonce : Bytes) (message : Str) (key : Key) : Except Exc Bytes :=
  if usable key then
    match encode message with
    | some data => .ok (nonce ++ A.encrypt key nonce data)
    | none => .error .valueError
  else .error .valueError

/-- `decrypt_message` -/
def decryptMessage (encrypted : Bytes) (key : Key) : Except Exc Str :=
  if usable key then
    match A.decrypt key (encrypted.take 12) (encrypted.drop 12) with
    | some data => (decode data).elim (.error .valueError) .ok
    | none => .error .valueError
  else .error .valueError

/-- **The envelope's round trip.** -/
theorem decryptMessage_encryptMessage {nonce body : Bytes} {message : Str} {key : Key}
    (hnonce : nonce.length = 12) (h : encryptMessage A nonce message key = .ok body) :
    decryptMessage A body key = .ok message := by
  rw [encryptMessage] at h
  split_ifs at h with hk
  split at h
  · rename_i data hdata
    obtain rfl := Except.ok.inj h
    rw [decryptMessage, if_pos hk, List.take_left' hnonce, List.drop_left' hnonce,
      A.decrypt_encrypt]
    simp [decode_encode hdata]
  · cases h

/-- The envelope adds the nonce and the tag. -/
theorem length_encryptMessage {nonce body : Bytes} {message : Str} {key : Key}
    (hnonce : nonce.length = 12) (hascii : ∀ c ∈ message, c.val < 0x80)
    (h : encryptMessage A nonce message key = .ok body) :
    body.length = message.length + 28 := by
  rw [encryptMessage, encode_ascii hascii] at h
  split_ifs at h with hk
  obtain rfl := Except.ok.inj h
  rw [List.length_append, A.length_encrypt, hnonce, List.length_map]
  omega

end GuardedIM
