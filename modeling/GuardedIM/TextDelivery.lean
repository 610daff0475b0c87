import Mathlib.Algebra.Order.BigOperators.Group.List
import Mathlib.Algebra.Order.Group.Nat
import GuardedIM.Relay

/-!
# The delivery of a text

The client measures the escaped JSON of the whole object, the server the UTF-8 of its text, and
both of them write the clock's text into it. What the client sends is within all limits of the
server and of the recipients.

* `length_encode_le`: no character is longer in UTF-8 than in ASCII JSON.
* `text_delivered`: what the recipients' callback is given.
-/

namespace GuardedIM

open Interleave Interleave.Program

/-! ## The two sizes -/

theorem length_hex (k n : ℕ) : (Json.hex k n).length = k := by simp [Json.hex]

theorem length_escape_u (n : ℕ) : (str "\\u" ++ Json.hex 4 n).length = 6 := by
  rw [List.length_append, length_hex]
  rfl

theorem length_dumpChar_pos (c : CodePoint) : 1 ≤ (Json.dumpChar c).length := by
  have hwritten := Json.written_dumpChar c
  generalize Json.dumpChar c = w at hwritten
  cases hwritten with
  | short | plain => exact Nat.le_add_left 1 _
  | escape => exact length_escape_u _ ▸ by decide
  | pair =>
    rw [List.length_append, length_escape_u]
    exact Nat.le_add_right_of_le (by decide)

/-- One character. -/
theorem length_encodePoint_le {c : CodePoint} {b : Bytes} (h : encodePoint c = some b) :
    b.length ≤ (Json.dumpChar c).length := by
  simp only [encodePoint] at h
  split_ifs at h with h₁ h₂ h₃ h₄
  all_goals obtain rfl := Option.some.inj h
  · exact length_dumpChar_pos c
  all_goals
    rw [Json.dumpChar_escaped (Nat.le_of_not_lt h₁)]
  · rw [if_pos (by omega), length_escape_u]
    simp
  · rw [if_pos h₄, length_escape_u]
    simp
  · rw [if_neg h₄, List.length_append, length_escape_u, length_escape_u]
    simp

/-- A text. -/
theorem length_encode_le {s : Str} {b : Bytes} (h : encode s = some b) :
    b.length ≤ (s.flatMap Json.dumpChar).length := by
  induction s generalizing b with
  | nil =>
    obtain rfl := Option.some.inj h
    exact Nat.zero_le _
  | cons c s ih =>
    rw [encode, List.mapM_cons] at h
    obtain ⟨bs, hbs, rfl⟩ := Option.map_eq_some_iff.mp h
    obtain ⟨b, hb, hbs⟩ := Option.bind_eq_some_iff.mp hbs
    obtain ⟨rest, hrest, hbs⟩ := Option.bind_eq_some_iff.mp hbs
    obtain rfl := Option.some.inj hbs
    have hs : encode s = some rest.flatten := by rw [encode, hrest, Option.map_some]
    have hc := length_encodePoint_le hb
    have htail := ih hs
    rw [List.flatten_cons, List.flatMap_cons, List.length_append, List.length_append]
    omega

/-- Text without surrogates has a UTF-8 form. -/
theorem exists_encode {s : Str} (h : Json.Scalar s) : ∃ b, encode s = some b := by
  induction s with
  | nil => exact ⟨[], rfl⟩
  | cons c s ih =>
    obtain ⟨hc, hs⟩ := List.forall_mem_cons.mp h
    obtain ⟨b, hb⟩ := ih hs
    have hpoint : ∃ b, encodePoint c = some b := by
      simp only [encodePoint]
      split_ifs with _ _ hsurrogate
      · exact ⟨_, rfl⟩
      · exact ⟨_, rfl⟩
      · exact absurd hsurrogate hc
      · exact ⟨_, rfl⟩
      · exact ⟨_, rfl⟩
    obtain ⟨bc, hbc⟩ := hpoint
    obtain ⟨bs, hbs, -⟩ := Option.map_eq_some_iff.mp hb
    exact ⟨_, by rw [encode, List.mapM_cons, hbc, Option.bind_eq_bind, Option.bind_some, hbs]; rfl⟩

/-- The check on ASCII counts the characters. -/
theorem checkMessageSize_ascii {s : Str} (hs : Json.Ascii s) :
    checkMessageSize s = .ok (decide (s.length ≤ maxMessageSize)) := by
  simp only [checkMessageSize, encode_ascii hs, List.length_map]

/-- **The client's check implies the server's**: if the JSON of an object passes, no text in it is
too long. -/
theorem checkMessageSize_member {F : Json.Interpreter} {s k : Str} {d : Payload}
    (hd : Json.Canonical F (.obj d)) (hmem : (k, .str s) ∈ d)
    (h : checkMessageSize (Json.dumps (.obj d)) = .ok true) : checkMessageSize s ≠ .ok false := by
  rcases hb : encode s with _ | b
  · -- a lone surrogate makes the check raise
    rw [checkMessageSize, hb]
    exact nofun
  have hlimit : (Json.dumps (.obj d)).length ≤ maxMessageSize := by
    rw [checkMessageSize_ascii (Json.dumps_ascii hd)] at h
    exact of_decide_eq_true (Except.ok.inj h)
  have hmember : (Json.dumpStr s).length ≤ (Json.dumps (.obj d)).length := by
    have hsum := List.single_le_sum (fun n _ => Nat.zero_le n) (Json.memberSize (k, .str s))
      (List.mem_map.mpr ⟨_, hmem, rfl⟩ : _ ∈ d.map Json.memberSize)
    rw [Json.length_dumps_obj (List.ne_nil_of_mem hmem), Json.membersSize]
    rw [Json.memberSize_mk, Json.dumps] at hsum
    omega
  have htext : b.length + 2 ≤ (Json.dumpStr s).length := by
    have hle := length_encode_le hb
    rw [Json.dumpStr, List.length_append, List.length_cons, List.length_singleton]
    omega
  have hsmall : b.length ≤ maxMessageSize := by omega
  simp only [checkMessageSize, hb, hsmall, decide_true, ne_eq, Except.ok.injEq, Bool.true_eq_false,
    not_false_eq_true]

/-! ## The object -/

variable {A : Aead} {F : Json.Interpreter} {printable : CodePoint → Bool} {root : MediaRoot}
  {disk : Disk} {username recipient toType message : Str} {t : UtcTime}

theorem canonical_textPayload (type toType : String) (hname : SafeName 32 username)
    (hrecipient : ∀ c ∈ recipient, c.val < 0x80) (hmessage : Json.Joined message) :
    Json.Canonical F (.obj (ChatClient.textPayload (str type) username recipient (str toType)
      message t.isoformat)) := by
  have htype := Json.canonical_empty.field "type" (Json.canonical_literal (F := F) type)
  have hto := (htype.field "from" (Json.canonical_str hname.ascii)).field "to"
    (Json.canonical_str hrecipient)
  have htext := (hto.field "to_type" (Json.canonical_literal toType)).field "payload"
    (.str hmessage)
  have hstamp : Json.Ascii (t.isoformat ++ str "Z") :=
    Json.ascii_append t.ascii_isoformat (Json.ascii_of_all rfl)
  exact (htext.field "payload_type" (Json.canonical_literal "text")).field "timestamp"
    (Json.canonical_str hstamp)

/-- What is passed on is the object of the client with another clock. -/
theorem dispatch_message (printable : CodePoint → Bool) (username message : Str)
    (t readAt : UtcTime) (hto : SafeName 32 recipient) :
    dispatch printable username readAt.isoformat (ChatClient.textPayload (str "message") username
      recipient (str "user") message t.isoformat) = require (checkMessageSize message)
        (str "Message dropped. Exceeds limit of " ++ Json.decimal maxMessageSize ++ str ".")
        (.ok (.forward recipient (ChatClient.textPayload (str "message") username recipient
          (str "user") message readAt.isoformat))) := by
  have hname : isSafeUsername (.str recipient) = .ok true := isSafeUsername_iff.mpr ⟨_, rfl, hto⟩
  have hbranch : dispatch printable username readAt.isoformat
      (ChatClient.textPayload (str "message") username recipient (str "user") message
        t.isoformat) = require (isSafeUsername (.str recipient))
          (str "Invalid recipient username.") (require (checkMessageSize message)
            (str "Message dropped. Exceeds limit of " ++ Json.decimal maxMessageSize ++ str ".")
            (.ok (.forward recipient (ChatClient.textPayload (str "message") username recipient
              (str "user") message readAt.isoformat)))) := rfl
  rw [hbranch, hname]
  rfl

theorem dispatch_groupMessage {readAt : UtcTime} (hto : SafeName 48 recipient) :
    dispatch printable username readAt.isoformat (ChatClient.textPayload (str "group_message")
      username recipient (str "group") message t.isoformat) =
        .ok (.fanOut recipient (ChatClient.textPayload (str "group_message") username recipient
          (str "group") message readAt.isoformat)) := by
  have hname : isSafeGroupName (.str recipient) = .ok true :=
    isSafeGroupName_iff.mpr ⟨_, rfl, hto⟩
  have hbranch : dispatch printable username readAt.isoformat
      (ChatClient.textPayload (str "group_message") username recipient (str "group") message
        t.isoformat) = require (isSafeGroupName (.str recipient)) (str "Invalid group name.")
          (.ok (.fanOut recipient (ChatClient.textPayload (str "group_message") username recipient
            (str "group") message readAt.isoformat))) := rfl
  rw [hbranch, hname]
  rfl

/-! ## Both hops -/

variable {x : Config Conn Tables Phase Event} {c : Conn} {σ : Session} {sentAt : UtcTime}

/-- The two frames of a text that passed the client's check, and the server's check. -/
theorem textPayload_fits {type toType : String} (hname : SafeName 32 username)
    (hrecipient : ∀ c ∈ recipient, c.val < 0x80) (hmessage : Json.Joined message)
    (hsize : checkMessageSize (Json.dumps (.obj (ChatClient.textPayload (str type) username
      recipient (str toType) message sentAt.isoformat))) = .ok true) (readAt : UtcTime) :
    (Json.dumps (.obj (ChatClient.textPayload (str type) username recipient (str toType) message
      sentAt.isoformat))).length + 28 ≤ maxFrameSize ∧
    (Json.dumps (.obj (ChatClient.textPayload (str type) username recipient (str toType) message
      readAt.isoformat))).length + 28 ≤ maxFrameSize ∧ checkMessageSize message ≠ .ok false := by
  have hcanonical : Json.Canonical demoInterpreter (.obj (ChatClient.textPayload (str type) username
      recipient (str toType) message sentAt.isoformat)) :=
    canonical_textPayload type toType hname hrecipient hmessage
  have hlimit := hsize
  rw [checkMessageSize_ascii (Json.dumps_ascii hcanonical)] at hlimit
  have hlen := of_decide_eq_true (Except.ok.inj hlimit)
  have hclock := length_restamped [(str "type", .str (str type)), (str "from", .str username),
    (str "to", .str recipient), (str "to_type", .str (str toType)), (str "payload", .str message),
    (str "payload_type", .str (str "text"))] sentAt readAt
  have hmax : maxMessageSize + 60 ≤ maxFrameSize := by decide
  refine ⟨by omega, ?_, ?_⟩
  · simp only [ChatClient.textPayload] at hlen ⊢
    simp only [List.cons_append, List.nil_append] at hclock
    omega
  · refine checkMessageSize_member (k := str "payload") hcanonical ?_ hsize
    simp [ChatClient.textPayload]

/-- Text with a UTF-8 form passes the check or is too long. -/
theorem checkMessageSize_scalar (hmessage : Json.Scalar message)
    (h : checkMessageSize message ≠ .ok false) : checkMessageSize message = .ok true := by
  obtain ⟨b, hb⟩ := exists_encode hmessage
  simp only [checkMessageSize, hb] at h ⊢
  simpa using h

/-- **Honest text delivery.** If `send_message` or `send_group_message` of a registered client
returns `True`, for a group it belongs to, the server accepts the frame and passes the text on to
everybody it is for, and each of them, in whose stream the frame may begin anywhere, has one call
of `on_message_received`: with the sender's name or the group's, the text as it was, and the
sender. -/
theorem text_delivered (A : Aead) (F : Json.Interpreter) (printable : CodePoint → Bool)
    (root : MediaRoot) (hx : (server printable).Reach Any x) (hloop : x.thread c = .loop σ)
    (send : Str → Option Str) (sentAt readAt : UtcTime) (nonce : Nonce) {message : Str}
    (hmessage : Json.Scalar message) :
    (∀ toUser text note body,
      ChatClient.sendMessage send σ.name sentAt toUser message = .sent text note →
      sendEncrypted A σ.key text nonce.1 = some body →
      checkMessageSize message = .ok true ∧
      ∃ p, Relayed A F printable x c σ body readAt.isoformat p (· = toUser) ∧
        ∀ (disk : Disk) (t : Target), usable t.2 = true →
          Arrives A F printable root disk t toUser p
            [.received (.str σ.name) (.str message) (.str σ.name)]) ∧
    ∀ toGroup text note body ms,
      ChatClient.sendGroupMessage send σ.name sentAt toGroup message = .sent text note →
      sendEncrypted A σ.key text nonce.1 = some body →
      Dict.get x.memory.groups (lstripHash toGroup) = some ms → σ.name ∈ ms →
      checkMessageSize message = .ok true ∧
      ∃ p, Relayed A F printable x c σ body readAt.isoformat p (fun m => m ∈ ms ∧ m ≠ σ.name) ∧
        ∀ (disk : Disk) (t : Target) (username : Str), usable t.2 = true →
          Arrives A F printable root disk t username p
            [.received (.str (cp '#' :: lstripHash toGroup)) (.str message) (.str σ.name)] := by
  have hname := session_name hx hloop
  refine ⟨fun toUser text note body hsent hbody => ?_,
    fun toGroup text note body ms hsent hbody hg hσ => ?_⟩
  · obtain ⟨hto, rfl, hsize⟩ := ChatClient.sendMessage_sent hsent
    obtain ⟨hfirst, hsecond, hserver⟩ :=
      textPayload_fits hname hto.ascii hmessage.joined hsize readAt
    replace hserver := checkMessageSize_scalar hmessage hserver
    have ho := canonical_textPayload (F := F) (t := sentAt) "message" "user" hname hto.ascii
      hmessage.joined
    have hp := canonical_textPayload (F := F) (t := readAt) "message" "user" hname hto.ascii
      hmessage.joined
    have hd := dispatch_message printable σ.name message sentAt readAt hto
    rw [hserver] at hd
    refine ⟨hserver, _, relayed_forward hloop ?_ (received_sent ho nonce hbody _) hd,
      fun disk t hkey => arrives_of hp hkey hsecond ?_⟩
    · rw [length_sent ho nonce hbody]
      exact hfirst
    · exact receive_message rfl
  · obtain ⟨hto, rfl, hsize⟩ := ChatClient.sendGroupMessage_sent hsent
    obtain ⟨hfirst, hsecond, hserver⟩ :=
      textPayload_fits hname hto.ascii hmessage.joined hsize readAt
    replace hserver := checkMessageSize_scalar hmessage hserver
    have ho := canonical_textPayload (F := F) (t := sentAt) "group_message" "group" hname hto.ascii
      hmessage.joined
    have hp := canonical_textPayload (F := F) (t := readAt) "group_message" "group" hname hto.ascii
      hmessage.joined
    refine ⟨hserver, _, relayed_fanOut hx hloop ?_ (received_sent ho nonce hbody _)
      (dispatch_groupMessage hto) hg hσ, fun disk t username hkey => arrives_of hp hkey hsecond ?_⟩
    · rw [length_sent ho nonce hbody]
      exact hfirst
    · exact receive_groupMessage rfl

/-- Alice says hi to Bob, and to the group. -/
theorem text_delivered_hi : ∃ (x : Config Conn Tables Phase Event) (p q : Payload)
    (body body' : Bytes), (server fun _ => true).Reach Any x ∧
      Relayed demoAead demoInterpreter (fun _ => true) x 0 ⟨demoKey, str "alice"⟩ body
        demoTime.isoformat p (· = str "bob") ∧
      Arrives demoAead demoInterpreter (fun _ => true) demoRoot ⟨true, true⟩ (1, demoKey)
        (str "bob") p [.received (.str (str "alice")) (.str (str "hi")) (.str (str "alice"))] ∧
      Relayed demoAead demoInterpreter (fun _ => true) x 0 ⟨demoKey, str "alice"⟩ body'
        demoTime.isoformat q (fun m => m ∈ [str "alice", str "bob"] ∧ m ≠ str "alice") ∧
      Arrives demoAead demoInterpreter (fun _ => true) demoRoot ⟨true, true⟩ (1, demoKey)
        (str "bob") q [.received (.str (str "#team")) (.str (str "hi")) (.str (str "alice"))] := by
  obtain ⟨x, hx, hloop, -, hteam⟩ := exists_team
  obtain ⟨huser, hgroup⟩ := text_delivered demoAead demoInterpreter (fun _ => true) demoRoot hx
    hloop (fun _ => none) demoTime demoTime demoNonce (Json.scalar_str "hi")
  obtain ⟨text, note, body, hcall, hbody⟩ := exists_sent (ChatClient.sendMessage (fun _ => none)
    (str "alice") demoTime (str "bob") (str "hi")) (by decide +kernel)
  obtain ⟨text', note', body', hcall', hbody'⟩ := exists_sent (ChatClient.sendGroupMessage
    (fun _ => none) (str "alice") demoTime (str "#team") (str "hi")) (by decide +kernel)
  obtain ⟨-, p, hp, harrives⟩ := huser _ _ _ _ hcall hbody
  obtain ⟨-, q, hq, harrives'⟩ := hgroup _ _ _ _ _ hcall' hbody' hteam (List.mem_cons_self ..)
  exact ⟨x, p, q, body, body', hx, hp, harrives ⟨true, true⟩ (1, demoKey) rfl, hq,
    harrives' ⟨true, true⟩ (1, demoKey) (str "bob") rfl⟩

end GuardedIM
