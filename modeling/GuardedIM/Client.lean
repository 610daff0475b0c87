import GuardedIM.Encryption
import GuardedIM.Validation

/-!
# The receiving client: `client/client.py`

`receive` is one round of `receive_loop` after the frame was decrypted and parsed: what
the client does with the payload, in order, and whether the loop goes on. The disk is
outside the program and answers through `Disk`.

A path is its list of components. `joinPath` and `resolve` follow `pathlib`: an absolute
right operand replaces the left one, `.` disappears, and `..` removes what stands before it.

* `buildReceivePath_eq`: whatever the names are, the path is three plain components
  below the media root.
* `receive_message`, `receive_groupMessage`, `receive_file`: the branches a forwarded
  payload ends up in.
-/

namespace GuardedIM

/-! ## Paths -/

/-- The components of a path text. -/
def components (s : Str) : List Str :=
  (s.splitOnP (· = cp '/')).filter fun c => c ≠ [] && c ≠ str "."

/-- `p / s` -/
def joinPath (p : List Str) (s : Str) : List Str :=
  if s.head? = some (cp '/') then components s else p ++ components s

/-- One component of `Path.resolve`. -/
def resolveStep (p : List Str) (c : Str) : List Str :=
  if c = str ".." then p.dropLast else p ++ [c]

/-- `p.resolve()` where no component is a symbolic link. -/
def resolve (p : List Str) : List Str := p.foldl resolveStep []

/-- `MEDIA_ROOT`, a path that was resolved. -/
structure MediaRoot where
  /-- its components -/
  parts : List Str
  /-- none of which is `..` -/
  resolved : ∀ c ∈ parts, c ≠ str ".."

/-- A media root for the examples. -/
def demoRoot : MediaRoot := ⟨[str "chat_media"], by simp [str]⟩

variable (printable : CodePoint → Bool) (root : MediaRoot)

/-- `build_receive_path` -/
def buildReceivePath (username sender filename : Json) : Except Exc (List Str) :=
  let userPart := safePathPart printable username (str "unknown_user")
  let senderPart := safePathPart printable sender (str "unknown_sender")
  let saveDir := joinPath (joinPath root.parts (str "user_" ++ userPart))
    (str "from_" ++ senderPart)
  let savePath := resolve (joinPath saveDir (safeFilename printable filename))
  if root.parts.isPrefixOf savePath then .ok savePath else .error .valueError

/-- A plain part is one component. -/
theorem components_plain {s : Str} (h : PlainPart s) : components s = [s] := by
  have hsplit : s.splitOnP (· = cp '/') = [s] := by
    refine List.splitOnP_eq_singleton fun c hc => decide_eq_false ?_
    rintro rfl
    exact absurd (h.safe _ hc) (by decide)
  rw [components, hsplit]
  simp [h.nonempty, h.not_dot]

/-- And it is added to a path as it is. -/
theorem joinPath_plain {p : List Str} {s : Str} (h : PlainPart s) : joinPath p s = p ++ [s] := by
  have hhead : s.head? ≠ some (cp '/') := by
    intro hs
    exact absurd (h.safe _ (List.mem_of_head? hs)) (by decide)
  rw [joinPath, if_neg hhead, components_plain h]

/-- A path without `..` is resolved already. -/
theorem resolve_eq_self {p : List Str} (h : ∀ c ∈ p, c ≠ str "..") : resolve p = p := by
  induction p using List.reverseRecOn with
  | nil => rfl
  | append_singleton p c ih =>
    have hp : ∀ d ∈ p, d ≠ str ".." := fun d hd => h d (List.mem_append_left _ hd)
    have hc : c ≠ str ".." := h c (List.mem_append_right _ (List.mem_singleton_self c))
    rw [resolve, List.foldl_append]
    show resolveStep (resolve p) c = p ++ [c]
    rw [ih hp, resolveStep, if_neg hc]

/-- **The receive path**: three plain components below the media root, for all names. -/
theorem buildReceivePath_eq (username sender filename : Json) :
    buildReceivePath printable root username sender filename = .ok (root.parts ++
      [str "user_" ++ safePathPart printable username (str "unknown_user"),
        str "from_" ++ safePathPart printable sender (str "unknown_sender"),
        safeFilename printable filename]) := by
  have hsafe : ∀ v fallback, fallback.all safeChar = true →
      ∀ c ∈ safePathPart printable v fallback, safeChar c = true := by
    intro v fallback hf
    exact safePathText_safe (List.all_eq_true.mp hf)
  have huser := plainPart_label
    (List.all_eq_true.mp (by decide : (str "user_").all safeChar = true))
    (by decide) (hsafe username (str "unknown_user") (by decide))
  have hsender := plainPart_label
    (List.all_eq_true.mp (by decide : (str "from_").all safeChar = true))
    (by decide) (hsafe sender (str "unknown_sender") (by decide))
  have hfile : PlainPart (safeFilename printable filename) := safeFileText_plain _
  simp only [buildReceivePath]
  rw [joinPath_plain huser, joinPath_plain hsender, joinPath_plain hfile]
  simp only [List.append_assoc, List.cons_append, List.nil_append]
  rw [resolve_eq_self, if_pos]
  · rw [List.isPrefixOf_iff_prefix]
    exact List.prefix_append _ _
  · intro c hc
    rcases List.mem_append.mp hc with hc | hc
    · exact root.resolved c hc
    · simp only [List.mem_cons, List.not_mem_nil, or_false] at hc
      rcases hc with rfl | rfl | rfl
      · exact huser.not_dotdot
      · exact hsender.not_dotdot
      · exact hfile.not_dotdot

/-! ## One round of `receive_loop` -/

/-- What the file system answers while a received file is stored. -/
structure Disk where
  /-- `os.makedirs` returned -/
  makedirs : Bool
  /-- the file was opened and written -/
  write : Bool

/-- What the client does with a payload. -/
inductive Effect where
  /-- `on_user_list(users)` -/
  | userList (users : Json)
  /-- `session_token = token` -/
  | token (value : Json)
  /-- `conn.close()` -/
  | close
  /-- the file is written -/
  | saved (path : List Str) (filedata : Bytes)
  /-- `on_message_received(chat, message, sender)` -/
  | received (chat message sender : Json)

/-- The effects in order, and whether the loop goes on to the next frame. -/
structure Round where
  /-- in order -/
  effects : List Effect
  /-- neither `break` nor `return` -/
  continues : Bool

/-- `f"#{v}"` -/
def hashed (v : Json) : Json := .str (cp '#' :: v.toStr printable)

/-- `base64.b64decode(encoded_data + "===")`; adding to anything but a string raises. -/
def decodeFile : Json → Option Bytes
  | .str s => b64decode (s ++ str "===")
  | _ => none

/-- `f"Received: {filename} from {sender}"` -/
def notice (filename sender : Json) : Json :=
  .str (str "Received: " ++ filename.toStr printable ++ str " from " ++ sender.toStr printable)

/-- `case "message_file" | "group_file"` of the client with the name `username`. -/
def receiveFile (username : Str) (disk : Disk) (p : Payload) : Round :=
  let filename := p.find (str "filename")
  let encoded := p.find (str "payload")
  let sender := p.find (str "from")
  if !filename.truthy || !encoded.truthy then ⟨[], false⟩
  else
    match decodeFile encoded with
    | none => ⟨[], false⟩
    | some filedata =>
      match buildReceivePath printable root (.str username) sender filename with
      | .error _ => ⟨[], true⟩
      | .ok path =>
        if !disk.makedirs || !disk.write then ⟨[], false⟩
        else
          let chat := if (p.find (str "to_type")).isStr (str "group") then
            hashed printable (p.find (str "to")) else sender
          ⟨[.saved path filedata,
            .received chat (notice printable filename sender) (.str (str "System"))], true⟩

/-- The `match` of `receive_loop` on an object. -/
def receiveObject (username : Str) (disk : Disk) (p : Payload) : Round :=
  let type := p.find (str "type")
  if type.isStr (str "user_list") then ⟨[.userList (p.find (str "users"))], true⟩
  else if type.isStr (str "login_success") then ⟨[.token (p.find (str "token"))], true⟩
  else if type.isStr (str "error") then ⟨[.close], false⟩
  else if type.isStr (str "message") then
    let chat := p.find (str "from")
    let sender := (Dict.get p (str "sender")).getD chat
    ⟨[.received chat (p.find (str "payload")) sender], true⟩
  else if type.isStr (str "group_message") then
    let chat := hashed printable (p.find (str "to"))
    ⟨[.received chat (p.find (str "payload")) (p.find (str "from"))], true⟩
  else if type.isStr (str "group_invite") then
    let group := p.find (str "group_name")
    ⟨[.received (hashed printable group) (.str (str "Added to " ++ group.toStr printable))
      (.str (str "System"))], true⟩
  else if type.isStr (str "group_created") then
    let group := p.find (str "group_name")
    ⟨[.received (hashed printable group)
      (.str (str "Group " ++ group.toStr printable ++ str " created.")) (.str (str "System"))],
      true⟩
  else if type.isStr (str "message_file") || type.isStr (str "group_file") then
    receiveFile printable root username disk p
  else ⟨[], true⟩

/-- The same for any JSON value: only an object has a `get`, and the exception is printed. -/
def receive (username : Str) (disk : Disk) : Json → Round
  | .obj p => receiveObject printable root username disk p
  | _ => ⟨[], true⟩

variable {printable root} {username : Str} {disk : Disk} {p : Payload}

/-- A text for one user is handed on with its `sender`, or else with its `from`. -/
theorem receive_message (h : p.find (str "type") = .str (str "message")) :
    receive printable root username disk (.obj p) =
      ⟨[.received (p.find (str "from")) (p.find (str "payload"))
        ((Dict.get p (str "sender")).getD (p.find (str "from")))], true⟩ := by
  simp only [receive, receiveObject, h]
  rfl

/-- A text for a group is handed on under the name of the group, with its `from`. -/
theorem receive_groupMessage (h : p.find (str "type") = .str (str "group_message")) :
    receive printable root username disk (.obj p) =
      ⟨[.received (hashed printable (p.find (str "to"))) (p.find (str "payload"))
        (p.find (str "from"))], true⟩ := by
  simp only [receive, receiveObject, h]
  rfl

/-- Both kinds of files are received alike. -/
theorem receive_file {t : Str} (h : p.find (str "type") = .str t)
    (ht : t = str "message_file" ∨ t = str "group_file") :
    receive printable root username disk (.obj p) =
      receiveFile printable root username disk p := by
  rcases ht with rfl | rfl
  · simp only [receive, receiveObject, h]
    rfl
  · simp only [receive, receiveObject, h]
    rfl

end GuardedIM
