import GuardedIM.Base64
import GuardedIM.Dispatch
import GuardedIM.DumpSize

/-!
# The sending client: `client/client.py`

`send_message`, `send_group_message`, `create_group`, `send_file` and `send_group_file`: what the
checks refuse, and the text that is given to `send_encrypted`. What `send_encrypted` raises, if it
raises, and what the operating system reads from the file are arguments.

* `sendText_sent`, `sendTransfer_sent`: when a call returns `True`, and what was sent.
* `length_isoformat`: the clock's text, which both sides write into the object, is short.
-/

namespace GuardedIM

/-! ## The clock -/

/-- The last `k` decimal digits of a number. -/
def decimals (k n : ℕ) : Str :=
  (List.range k).reverse.map fun i => cp (Nat.digitChar (n / 10 ^ i % 10))

/-- What `datetime.datetime.now(datetime.timezone.utc)` gives. -/
structure UtcTime where
  /-- `MINYEAR` is 1 and `MAXYEAR` is 9999 -/
  year : Fin 10000
  /-- from 1 -/
  month : Fin 13
  /-- from 1 -/
  day : Fin 32
  /-- from 0 -/
  hour : Fin 24
  /-- from 0 -/
  minute : Fin 60
  /-- from 0 -/
  second : Fin 60
  /-- from 0 -/
  microsecond : Fin 1000000

/-- New Year's midnight. -/
def demoTime : UtcTime := ⟨2026, 1, 1, 0, 0, 0, 0⟩

/-- New Year's evening. -/
def demoEvening : UtcTime := ⟨2026, 1, 1, 20, 30, 0, 0⟩

/-- `isoformat()`; the microseconds are left out when there are none. -/
def UtcTime.isoformat (t : UtcTime) : Str :=
  decimals 4 t.year ++ str "-" ++ decimals 2 t.month ++ str "-" ++ decimals 2 t.day ++ str "T" ++
    decimals 2 t.hour ++ str ":" ++ decimals 2 t.minute ++ str ":" ++ decimals 2 t.second ++
    (if t.microsecond.val = 0 then [] else str "." ++ decimals 6 t.microsecond) ++ str "+00:00"

theorem length_decimals (k n : ℕ) : (decimals k n).length = k := by simp [decimals]

/-- JSON writes a digit as it is. -/
theorem dumpChar_decimals {k n : ℕ} {c : CodePoint} (h : c ∈ decimals k n) :
    Json.dumpChar c = [c] := by
  obtain ⟨i, -, rfl⟩ := List.mem_map.mp h
  have hall : ∀ d < 10, Json.dumpChar (cp (Nat.digitChar d)) = [cp (Nat.digitChar d)] := by decide
  exact hall _ (Nat.mod_lt _ (by decide))

/-- And the rest of the clock's text. -/
theorem UtcTime.dumpChar_isoformat (t : UtcTime) : ∀ c ∈ t.isoformat, Json.dumpChar c = [c] := by
  have hliteral : ∀ s ∈ [str "-", str "T", str ":", str ".", str "+00:00"],
      ∀ c ∈ s, Json.dumpChar c = [c] := by
    have hall : ([str "-", str "T", str ":", str ".", str "+00:00"].all
        (·.all fun c => Json.dumpChar c = [c])) = true := by decide
    intro s hs c hc
    exact of_decide_eq_true (List.all_eq_true.mp (List.all_eq_true.mp hall s hs) c hc)
  simp only [List.forall_mem_cons, List.not_mem_nil, false_implies, implies_true,
    and_true] at hliteral
  obtain ⟨hdash, htime, hcolon, hdot, hzone⟩ := hliteral
  have hmicro : ∀ c ∈ (if t.microsecond.val = 0 then [] else str "." ++ decimals 6 t.microsecond),
      Json.dumpChar c = [c] := by
    split_ifs
    · exact nofun
    · exact List.forall_mem_append.mpr ⟨hdot, fun _ => dumpChar_decimals⟩
  simp only [isoformat, List.forall_mem_append]
  exact ⟨⟨⟨⟨⟨⟨⟨⟨⟨⟨⟨⟨fun _ => dumpChar_decimals, hdash⟩, fun _ => dumpChar_decimals⟩, hdash⟩,
    fun _ => dumpChar_decimals⟩, htime⟩, fun _ => dumpChar_decimals⟩, hcolon⟩,
    fun _ => dumpChar_decimals⟩, hcolon⟩, fun _ => dumpChar_decimals⟩, hmicro⟩, hzone⟩

/-- It is short. -/
theorem UtcTime.length_isoformat (t : UtcTime) : t.isoformat.length ≤ 32 := by
  have hmicro : (if t.microsecond.val = 0 then [] else str "." ++ decimals 6 t.microsecond).length ≤
      7 := by
    split_ifs
    · exact Nat.zero_le _
    · rw [List.length_append, length_decimals]
      decide
  have hliterals : (str "-").length = 1 ∧ (str "T").length = 1 ∧ (str ":").length = 1 ∧
      (str "+00:00").length = 6 := by decide
  obtain ⟨hdash, htime, hcolon, hzone⟩ := hliterals
  simp only [isoformat, List.length_append, length_decimals, hdash, htime, hcolon, hzone]
  omega

theorem UtcTime.ascii_isoformat (t : UtcTime) : ∀ c ∈ t.isoformat, c.val < 0x80 := by
  intro c hc
  refine Json.ascii_dumpChar c c ?_
  rw [t.dumpChar_isoformat c hc]
  exact List.mem_singleton_self c

/-- The member that both sides write. -/
theorem memberSize_timestamp (t : UtcTime) :
    Json.memberSize (str "timestamp", .str (t.isoformat ++ str "Z")) = t.isoformat.length + 18 := by
  have hkey : (Json.dumpStr (str "timestamp")).length = 11 := by decide
  have hzone : ∀ c ∈ str "Z", Json.dumpChar c = [c] := by
    intro c hc
    obtain rfl := List.mem_singleton.mp hc
    rfl
  have hplain := List.forall_mem_append.mpr ⟨t.dumpChar_isoformat, hzone⟩
  rw [Json.memberSize_mk, hkey, Json.dumps, Json.length_dumpStr_plain hplain, List.length_append]
  have hone : (str "Z").length = 1 := rfl
  omega

/-- Another clock makes little difference. -/
theorem length_restamped (d : Payload) (t t' : UtcTime) :
    (Json.dumps (.obj (d ++ [(str "timestamp", .str (t'.isoformat ++ str "Z"))]))).length ≤
      (Json.dumps (.obj (d ++ [(str "timestamp", .str (t.isoformat ++ str "Z"))]))).length +
        32 := by
  have hne : ∀ e : Str × Json, d ++ [e] ≠ [] := by simp
  have hsize : ∀ t : UtcTime, Json.membersSize
      (d ++ [(str "timestamp", .str (t.isoformat ++ str "Z"))]) =
        Json.membersSize d + (t.isoformat.length + 18) := by
    intro t
    rw [Json.membersSize, List.map_append, List.sum_append, ← memberSize_timestamp]
    simp [Json.membersSize]
  have hshort := t'.length_isoformat
  rw [Json.length_dumps_obj (hne _), Json.length_dumps_obj (hne _), hsize, hsize]
  omega

/-! ## The methods -/

/-- What a call of one of the methods comes to. -/
inductive Call where
  /-- `on_message_received("System", notice)` and `return False` -/
  | refused (notice : Str)
  /-- `send_encrypted(payload)` and `return True`, and for a file a notice in between -/
  | sent (payload : Str) (notice : Option Str)
  /-- an exception that the method does not catch -/
  | raised
  deriving DecidableEq

namespace ChatClient

/-- The object of a text. -/
def textPayload (type username recipient toType message now : Str) : Payload :=
  [(str "type", .str type), (str "from", .str username), (str "to", .str recipient),
    (str "to_type", .str toType), (str "payload", .str message),
    (str "payload_type", .str (str "text")), (str "timestamp", .str (now ++ str "Z"))]

/-- The object of a file. -/
def filePayload (type username recipient toType encodedFile filename now : Str) : Payload :=
  [(str "type", .str type), (str "from", .str username), (str "to", .str recipient),
    (str "to_type", .str toType), (str "payload", .str encodedFile),
    (str "payload_type", .str (str "file")), (str "filename", .str filename),
    (str "payload_id", .null), (str "timestamp", .str (now ++ str "Z"))]

/-- The object that asks for a group. -/
def groupPayload (username groupName : Str) (members : List Str) (now : Str) : Payload :=
  [(str "type", .str (str "create_group")), (str "from", .str username),
    (str "group_name", .str groupName), (str "members", .arr (members.map .str)),
    (str "timestamp", .str (now ++ str "Z"))]

/-- `"Message too long. …"` -/
def messageTooLong : Str :=
  str "Message too long. Limit is " ++ Json.decimal maxMessageSize ++ str " bytes."

/-- `"File too large. …"` -/
def fileTooLarge : Str :=
  str "File too large. Limit is " ++ Json.decimal maxFileSize ++ str " bytes."

/-- `f"Could not upload file: {e}"` -/
def couldNotUpload (e : Str) : Str := str "Could not upload file: " ++ e

variable (printable : CodePoint → Bool) (send : Str → Option Str) (username : Str)
  (now : UtcTime)

/-- What the methods do when a name is not valid. -/
def checked (check : Except Exc Bool) (notice : Str) (k : Call) : Call :=
  match check with
  | .ok true => k
  | .ok false => .refused notice
  | .error _ => .raised

/-- `send_message` and `send_group_message` behind the check of the name. -/
def sendText (type recipient toType message : Str) : Call :=
  let payload := Json.dumps
    (.obj (textPayload type username recipient toType message now.isoformat))
  checked (checkMessageSize payload) messageTooLong <|
    match send payload with
    | none => .sent payload none
    | some _ => .raised

/-- `send_message` -/
def sendMessage (toUser message : Str) : Call :=
  checked (isSafeUsername (.str toUser)) (str "Invalid recipient username.") <|
    sendText send username now (str "message") toUser (str "user") message

/-- `send_group_message` -/
def sendGroupMessage (toGroup message : Str) : Call :=
  let groupName := lstripHash toGroup
  checked (isSafeGroupName (.str groupName)) (str "Invalid group name.") <|
    sendText send username now (str "group_message") groupName (str "group") message

/-- `create_group` -/
def createGroup (groupName : Str) (members : List Str) : Call :=
  checked (isSafeGroupName (.str groupName)) (str "Invalid group name.") <|
    checked (allSafeUsernames (members.map .str)) (str "Invalid group member username.") <|
      let payload := Json.dumps (.obj (groupPayload username groupName members now.isoformat))
      match send payload with
      | none => .sent payload none
      | some _ => .raised

/-- `send_file` and `send_group_file` behind the check of the name. The reading and the sending
are inside `try … except Exception`. -/
def sendTransfer (type recipient toType target filePath : Str) (contents : Except Str Bytes) :
    Call :=
  let filename := basename filePath
  if isSafeTransferFilename printable (.str filename) then
    match contents with
    | .error e => .refused (couldNotUpload e)
    | .ok file =>
      let encodedFile := b64encode file
      let payload := Json.dumps
        (.obj (filePayload type username recipient toType encodedFile filename now.isoformat))
      if checkFileSize (.str encodedFile) then
        match send payload with
        | none => .sent payload (some (str "Sent " ++ filename ++ str " to " ++ target))
        | some e => .refused (couldNotUpload e)
      else .refused fileTooLarge
  else .refused (str "Blocked dangerous file: " ++ filePath)

/-- `send_file` -/
def sendFile (toUser filePath : Str) (contents : Except Str Bytes) : Call :=
  checked (isSafeUsername (.str toUser)) (str "Invalid recipient username.") <|
    sendTransfer printable send username now (str "message_file") toUser (str "user") toUser
      filePath contents

/-- `send_group_file` -/
def sendGroupFile (toGroup filePath : Str) (contents : Except Str Bytes) : Call :=
  let groupName := lstripHash toGroup
  checked (isSafeGroupName (.str groupName)) (str "Invalid group name.") <|
    sendTransfer printable send username now (str "group_file") groupName (str "group") toGroup
      filePath contents

/-! ## What is sent -/

variable {printable send username now} {text : Str} {note : Option Str}

theorem checked_eq_sent {check : Except Exc Bool} {notice : Str} {k : Call} :
    checked check notice k = .sent text note ↔ check = .ok true ∧ k = .sent text note := by
  rcases check with e | _ | _
  all_goals simp [checked]

/-- A text that is sent is the object, and it was short enough. -/
theorem sendText_sent {type recipient toType message : Str}
    (h : sendText send username now type recipient toType message = .sent text note) :
    text = Json.dumps
      (.obj (textPayload type username recipient toType message now.isoformat)) ∧
      checkMessageSize text = .ok true := by
  obtain ⟨hsize, h⟩ := checked_eq_sent.mp h
  split at h
  · obtain ⟨rfl, -⟩ := Call.sent.inj h
    exact ⟨rfl, hsize⟩
  · cases h

theorem sendMessage_sent {toUser message : Str}
    (h : sendMessage send username now toUser message = .sent text note) : SafeName 32 toUser ∧
      text = Json.dumps (.obj (textPayload (str "message") username toUser (str "user") message
        now.isoformat)) ∧ checkMessageSize text = .ok true := by
  obtain ⟨hname, h⟩ := checked_eq_sent.mp h
  obtain ⟨u, hu, hsafe⟩ := isSafeUsername_iff.mp hname
  obtain rfl := Json.str.inj hu
  exact ⟨hsafe, sendText_sent h⟩

theorem sendGroupMessage_sent {toGroup message : Str}
    (h : sendGroupMessage send username now toGroup message = .sent text note) :
    SafeName 48 (lstripHash toGroup) ∧
      text = Json.dumps (.obj (textPayload (str "group_message") username (lstripHash toGroup)
        (str "group") message now.isoformat)) ∧ checkMessageSize text = .ok true := by
  obtain ⟨hname, h⟩ := checked_eq_sent.mp h
  obtain ⟨g, hg, hsafe⟩ := isSafeGroupName_iff.mp hname
  obtain rfl := Json.str.inj hg
  exact ⟨hsafe, sendText_sent h⟩

/-- **When a file is sent**: exactly when its name passes and it has one byte to 5 MiB, and the
socket takes it. -/
theorem sendTransfer_sent {type recipient toType target filePath : Str} {file : Bytes} :
    sendTransfer printable send username now type recipient toType target filePath (.ok file) =
        .sent text note ↔
      (isSafeTransferFilename printable (.str (basename filePath)) = true ∧ 0 < file.length ∧
        file.length ≤ maxFileSize) ∧ send text = none ∧
      text = Json.dumps (.obj (filePayload type username recipient toType (b64encode file)
        (basename filePath) now.isoformat)) ∧
      note = some (str "Sent " ++ basename filePath ++ str " to " ++ target) := by
  simp only [sendTransfer, ← checkFileSize_b64encode]
  generalize Json.dumps (.obj (filePayload type username recipient toType (b64encode file)
    (basename filePath) now.isoformat)) = payload
  by_cases hname : isSafeTransferFilename printable (.str (basename filePath)) = true
  · by_cases hsize : checkFileSize (.str (b64encode file)) = true
    · rw [if_pos hname, if_pos hsize]
      rcases hsend : send payload with _ | e
      · constructor
        · intro h
          obtain ⟨rfl, rfl⟩ := Call.sent.inj h
          exact ⟨⟨hname, hsize⟩, hsend, rfl, rfl⟩
        · rintro ⟨-, -, rfl, rfl⟩
          rfl
      · constructor
        · exact nofun
        · rintro ⟨-, hnone, rfl, -⟩
          rw [hsend] at hnone
          cases hnone
    · simp [hname, hsize]
  · simp [hname]

end ChatClient

end GuardedIM
