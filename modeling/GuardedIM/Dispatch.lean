import GuardedIM.Encryption
import GuardedIM.Validation

/-!
# What a request asks for

`handle_client` decodes a frame, writes the sender into it and matches on its type.
Every branch first checks the request against itself and only then touches the shared
tables. `dispatch` is the part before the tables: from the sender's name, the clock and
the object it either raises, or decides on an `Action`, which the handler then carries
out against the tables.

The branches are one function each, under the name of their message type. A check that
answers with `send_error` and `continue` is `require`.

* `dispatch_passes`: everything that is true of a request that is carried out, in terms
  of the object the client sent; `dispatch_reply`: the others are answered with an error.
* `Passes.sender_bound`, `Passes.type_kept`: the two fields every branch agrees on.
-/

namespace GuardedIM

/-- The payload of `send_error`. -/
def errorPayload (message : Str) : Payload :=
  [(str "type", .str (str "error")), (str "message", .str message)]

/-- What is left to do for a request once its own checks are over. -/
inductive Action where
  /-- an unknown type: nothing -/
  | ignore
  /-- send this to the requester and go on with the next frame -/
  | reply (payload : Payload)
  /-- create a group and invite its members -/
  | create (groupName : Str) (members : List Str)
  /-- send the payload to the members of a group -/
  | fanOut (groupName : Str) (payload : Payload)
  /-- `forward_payload` -/
  | forward (toUser : Str) (payload : Payload)

/-- `if not check: send_error(…, message); continue` -/
def require (check : Except Exc Bool) (message : Str) (k : Except Exc Action) :
    Except Exc Action :=
  match check with
  | .ok true => k
  | .ok false => .ok (.reply (errorPayload message))
  | .error e => .error e

/-- The text of a value a name check let through. -/
def Json.text : Json → Str
  | .str s => s
  | _ => []

/-- `sorted(set(l))`, one name at a time: names are kept in code-point order. -/
def insertName (u : Str) : List Str → List Str
  | [] => [u]
  | v :: l => if u = v then v :: l else if u < v then u :: v :: l else v :: insertName u l

/-- `sorted(set(l))` -/
def sortedSet (l : List Str) : List Str := l.foldr insertName []

/-- `all(is_safe_username(member) for member in members)`: stops at the first
refusal, raises at the first value of another type. -/
def allSafeUsernames : List Json → Except Exc Bool
  | [] => .ok true
  | v :: l =>
    match isSafeUsername v with
    | .ok true => allSafeUsernames l
    | r => r

/-- `isinstance(members, list) and all(…)` -/
def safeMembers : Json → Except Exc Bool
  | .arr l => allSafeUsernames l
  | _ => .ok false

/-- The elements of a list of strings. -/
def Json.texts : Json → List Str
  | .arr l => l.map Json.text
  | _ => []

section Branches

variable (printable : CodePoint → Bool) (now : Str) (payload : Payload)

/-- `case "create_group"` -/
def createGroup (username : Str) : Except Exc Action :=
  let groupName := payload.find (str "group_name")
  let members := (Dict.get payload (str "members")).getD (.arr [])
  require (isSafeGroupName groupName) (str "Invalid group name.") <|
  require (safeMembers members) (str "Invalid group members.") <|
  .ok (.create groupName.text (sortedSet (members.texts ++ [username])))

/-- `payload["timestamp"] = …isoformat() + "Z"` -/
def timestamp : Payload := Dict.set payload (str "timestamp") (.str (now ++ str "Z"))

/-- The text of `group_message`'s outgoing payload. -/
def groupText (groupName message : Json) : Payload :=
  timestamp now <|
    Dict.set (Dict.set (Dict.set (Dict.set payload (str "to") groupName)
      (str "payload") message) (str "payload_type") (.str (str "text")))
      (str "to_type") (.str (str "group"))

/-- `case "group_message"` -/
def groupMessage : Except Exc Action :=
  let groupName := payload.find (str "to")
  let message := payload.find (str "payload")
  require (isSafeGroupName groupName) (str "Invalid group name.") <|
  .ok (.fanOut groupName.text (groupText now payload groupName message))

/-- `message`'s outgoing payload. -/
def userText : Payload :=
  timestamp now <|
    Dict.set (Dict.set payload (str "payload_type") (.str (str "text")))
      (str "to_type") (.str (str "user"))

/-- `case "message"` -/
def message : Except Exc Action :=
  let toUser := payload.find (str "to")
  let text := ((Dict.get payload (str "payload")).getD (.str [])).toStr printable
  require (isSafeUsername toUser) (str "Invalid recipient username.") <|
  require (checkMessageSize text)
    (str "Message dropped. Exceeds limit of " ++ Json.decimal maxMessageSize ++ str ".") <|
  .ok (.forward toUser.text (userText now payload))

/-- `str(payload.get("to", "")).lstrip("#")` -/
def fileTo : Str :=
  lstripHash (((Dict.get payload (str "to")).getD (.str [])).toStr printable)

/-- The outgoing payload of a file. -/
def fileOut : Payload :=
  timestamp now (Dict.set payload (str "payload_type") (.str (str "file")))

/-- `case "message_file" | "group_file"` -/
def file : Except Exc Action :=
  let fileData := payload.find (str "payload")
  let filename := payload.find (str "filename")
  let isGroup := (payload.find (str "to_type")).isStr (str "group")
  if !fileData.truthy || !filename.truthy then .error .valueError
  else
    require (.ok (isSafeTransferFilename printable filename))
      (str "Blocked dangerous filename.") <|
    require (.ok (checkFileSize fileData))
      (str "Message dropped. Exceeds limit of " ++ Json.decimal maxFileSize ++ str " bytes.") <|
    if isGroup then
      require (isSafeGroupName (.str (fileTo printable payload))) (str "Invalid group name.") <|
      .ok (.fanOut (fileTo printable payload) (fileOut now payload))
    else
      require (isSafeUsername (.str (fileTo printable payload)))
        (str "Invalid recipient username.") <|
      .ok (.forward (fileTo printable payload) (fileOut now payload))

end Branches

/-- `payload["from"] = username` -/
def bindSender (username : Str) (payload : Payload) : Payload :=
  Dict.set payload (str "from") (.str username)

/-- The `match` of the frame loop on an object `o` from the session of `username`. -/
def dispatch (printable : CodePoint → Bool) (username now : Str) (o : Payload) :
    Except Exc Action :=
  let payload := bindSender username o
  let type := payload.find (str "type")
  if type.isStr (str "create_group") then createGroup payload username
  else if type.isStr (str "group_message") then groupMessage now payload
  else if type.isStr (str "message") then message printable now payload
  else if type.isStr (str "message_file") || type.isStr (str "group_file") then
    file printable now payload
  else .ok .ignore

/-! ## What passes the checks -/

/-- The types whose payloads are passed on to other clients. -/
inductive Forwarded : Str → Prop where
  /-- text to one user -/
  | message : Forwarded (str "message")
  /-- text to a group -/
  | groupMessage : Forwarded (str "group_message")
  /-- a file -/
  | messageFile : Forwarded (str "message_file")
  /-- a file, by the other name -/
  | groupFile : Forwarded (str "group_file")

/-- The payload is one of those: it says so in its `type`. -/
def Payload.IsForwarded (p : Payload) : Prop := ∃ t, p.find (str "type") = .str t ∧ Forwarded t

/-- The same as a list, to test a type against. -/
theorem Forwarded.mem {t : Str} (h : Forwarded t) :
    t ∈ [str "message", str "group_message", str "message_file", str "group_file"] := by
  cases h <;> simp

/-- Other types are not forwarded. -/
theorem not_forwarded_of_type {p : Payload} {s : Str} (hp : p.find (str "type") = .str s)
    (hs : s ∉ [str "message", str "group_message", str "message_file", str "group_file"]) :
    ¬ p.IsForwarded := by
  rintro ⟨t, ht, hf⟩
  rw [hp] at ht
  exact hs (Json.str.inj ht ▸ hf.mem)

/-- A check is passed, or there is an error reply. -/
theorem require_eq_ok {check : Except Exc Bool} {msg : Str} {k : Except Exc Action} {a : Action}
    (h : require check msg k = .ok a) :
    (check = .ok true ∧ k = .ok a) ∨ a = .reply (errorPayload msg) := by
  unfold require at h
  split at h
  · exact .inl ⟨rfl, h⟩
  · exact .inr (Except.ok.inj h).symm
  · cases h

/-- The form used for an action other than a reply. -/
theorem require_pass {check : Except Exc Bool} {msg : Str} {k : Except Exc Action} {a : Action}
    (h : require check msg k = .ok a) (ha : ∀ p, a ≠ .reply p) :
    check = .ok true ∧ k = .ok a := by
  rcases require_eq_ok h with h | h
  · exact h
  · exact absurd h (ha _)

/-- **The sender is bound**, whatever the object said. -/
theorem bindSender_from (username : Str) (o : Payload) :
    (bindSender username o).find (str "from") = .str username := by
  simp [bindSender, Payload.find]

theorem get_bindSender (username : Str) (o : Payload) {k : Str} (hk : k ≠ str "from") :
    Dict.get (bindSender username o) k = Dict.get o k :=
  Dict.get_set_ne o _ hk

theorem find_bindSender (username : Str) (o : Payload) {k : Str} (hk : k ≠ str "from") :
    (bindSender username o).find k = o.find k := by
  rw [Payload.find, get_bindSender username o hk, Payload.find]

/-- Writing some fields leaves the others alone. -/
theorem find_write (p fields : Payload) {k : Str} (hk : k ∉ Dict.keys fields) :
    Payload.find (Dict.write p fields) k = p.find k := by
  rw [Payload.find, Dict.get_write p fields hk, Payload.find]

/-- The keys no branch overwrites after `from`. -/
def Untouched (k : Str) : Prop :=
  k ≠ str "to" ∧ k ≠ str "payload" ∧ k ≠ str "payload_type" ∧ k ≠ str "to_type" ∧
    k ≠ str "timestamp"

instance (k : Str) : Decidable (Untouched k) := by
  unfold Untouched
  infer_instance

/-- What a text for a group keeps of the object. -/
theorem find_groupText (now : Str) (p : Payload) (g m : Json) {k : Str} (hk : Untouched k) :
    (groupText now p g m).find k = p.find k := by
  refine find_write p [(str "to", g), (str "payload", m), (str "payload_type", .str (str "text")),
    (str "to_type", .str (str "group")), (str "timestamp", .str (now ++ str "Z"))] ?_
  simpa [Dict.keys, Untouched] using hk

/-- And a text for a user, -/
theorem find_userText (now : Str) (p : Payload) {k : Str}
    (hk : k ∉ [str "payload_type", str "to_type", str "timestamp"]) :
    (userText now p).find k = p.find k :=
  find_write p [(str "payload_type", .str (str "text")), (str "to_type", .str (str "user")),
    (str "timestamp", .str (now ++ str "Z"))] hk

/-- and a file. -/
theorem find_fileOut (now : Str) (p : Payload) {k : Str}
    (hk : k ∉ [str "payload_type", str "timestamp"]) : (fileOut now p).find k = p.find k :=
  find_write p [(str "payload_type", .str (str "file")),
    (str "timestamp", .str (now ++ str "Z"))] hk

/-- What the checks of the file branch establish, on the payload they are made on. -/
structure FileChecks (printable : CodePoint → Bool) (p : Payload) : Prop where
  /-- a name is present -/
  named : (p.find (str "filename")).truthy = true
  /-- it is a name the transfer check accepts -/
  filename : isSafeTransferFilename printable (p.find (str "filename")) = true
  /-- the data decodes to a file within the limit -/
  data : checkFileSize (p.find (str "payload")) = true

/-- A file that is passed on has passed the checks. -/
theorem file_pass {printable : CodePoint → Bool} {now : Str} {p : Payload} {a : Action}
    (h : file printable now p = .ok a) (ha : ∀ q, a ≠ .reply q) :
    FileChecks printable p ∧
      (((p.find (str "to_type")).isStr (str "group") = true ∧ SafeName 48 (fileTo printable p) ∧
          a = .fanOut (fileTo printable p) (fileOut now p)) ∨
        (¬ (p.find (str "to_type")).isStr (str "group") = true ∧
          SafeName 32 (fileTo printable p) ∧
          a = .forward (fileTo printable p) (fileOut now p))) := by
  simp only [file] at h
  split at h
  · cases h
  · rename_i ht
    obtain ⟨hname, h⟩ := require_pass h ha
    obtain ⟨hsize, h⟩ := require_pass h ha
    have htruthy : (p.find (str "filename")).truthy = true := by
      simp only [Bool.or_eq_true, Bool.not_eq_true', not_or, Bool.not_eq_false] at ht
      exact ht.2
    refine ⟨⟨htruthy, Except.ok.inj hname, Except.ok.inj hsize⟩, ?_⟩
    split at h
    · rename_i hg
      obtain ⟨hsafe, h⟩ := require_pass h ha
      obtain ⟨s, hs, hsafe⟩ := isSafeGroupName_iff.mp hsafe
      obtain rfl := Json.str.inj hs
      exact .inl ⟨hg, hsafe, (Except.ok.inj h).symm⟩
    · rename_i hg
      obtain ⟨hsafe, h⟩ := require_pass h ha
      obtain ⟨s, hs, hsafe⟩ := isSafeUsername_iff.mp hsafe
      obtain rfl := Json.str.inj hs
      exact .inr ⟨hg, hsafe, (Except.ok.inj h).symm⟩

/-- A list of values all of which are valid usernames is a list of strings. -/
theorem allSafeUsernames_iff {l : List Json} :
    allSafeUsernames l = .ok true ↔
      ∃ ms : List Str, l = ms.map .str ∧ ∀ m ∈ ms, SafeName 32 m := by
  induction l with
  | nil => exact ⟨fun _ => ⟨[], rfl, by simp⟩, fun _ => rfl⟩
  | cons v l ih =>
    constructor
    · intro h
      rw [allSafeUsernames] at h
      split at h
      · rename_i hv
        obtain ⟨m, rfl, hm⟩ := isSafeUsername_iff.mp hv
        obtain ⟨ms, rfl, hms⟩ := ih.mp h
        exact ⟨m :: ms, rfl, List.forall_mem_cons.mpr ⟨hm, hms⟩⟩
      · rename_i hv
        exact absurd h hv
    · rintro ⟨ms, he, hms⟩
      cases ms with
      | nil => cases he
      | cons m ms =>
        obtain ⟨rfl, rfl⟩ := List.cons.inj he
        obtain ⟨hm, hms⟩ := List.forall_mem_cons.mp hms
        have hv : isSafeUsername (.str m) = .ok true := isSafeUsername_iff.mpr ⟨m, rfl, hm⟩
        rw [allSafeUsernames, hv]
        exact ih.mpr ⟨ms, rfl, hms⟩

/-- Every way a request gets past its checks, read off the object the client sent. -/
inductive Passes (printable : CodePoint → Bool) (username now : Str) (o : Payload) :
    Action → Prop where
  /-- a type the server does not know -/
  | ignore : Passes printable username now o .ignore
  /-- a new group of valid names, the requester among them -/
  | create {g : Str} {ms : List Str} :
      o.find (str "type") = .str (str "create_group") →
      o.find (str "group_name") = .str g → SafeName 48 g → (∀ m ∈ ms, SafeName 32 m) →
      (Dict.get o (str "members")).getD (.arr []) = .arr (ms.map .str) →
      Passes printable username now o (.create g (sortedSet (ms ++ [username])))
  /-- text to the group named in `to` -/
  | groupMessage {g : Str} :
      o.find (str "type") = .str (str "group_message") →
      o.find (str "to") = .str g → SafeName 48 g →
      Passes printable username now o
        (.fanOut g (groupText now (bindSender username o) (.str g) (o.find (str "payload"))))
  /-- text to the user named in `to` -/
  | message {u : Str} :
      o.find (str "type") = .str (str "message") →
      o.find (str "to") = .str u → SafeName 32 u →
      Passes printable username now o (.forward u (userText now (bindSender username o)))
  /-- a file to a group -/
  | groupFile {t : Str} :
      o.find (str "type") = .str t → (t = str "message_file" ∨ t = str "group_file") →
      FileChecks printable o → (o.find (str "to_type")).isStr (str "group") = true →
      SafeName 48 (fileTo printable o) →
      Passes printable username now o
        (.fanOut (fileTo printable o) (fileOut now (bindSender username o)))
  /-- a file to a user -/
  | userFile {t : Str} :
      o.find (str "type") = .str t → (t = str "message_file" ∨ t = str "group_file") →
      FileChecks printable o → ¬ (o.find (str "to_type")).isStr (str "group") = true →
      SafeName 32 (fileTo printable o) →
      Passes printable username now o
        (.forward (fileTo printable o) (fileOut now (bindSender username o)))

theorem fileTo_bindSender (printable : CodePoint → Bool) (username : Str) (o : Payload) :
    fileTo printable (bindSender username o) = fileTo printable o := by
  rw [fileTo, get_bindSender username o (by decide), fileTo]

theorem FileChecks.of_bindSender {printable : CodePoint → Bool} {username : Str} {o : Payload}
    (h : FileChecks printable (bindSender username o)) : FileChecks printable o := by
  obtain ⟨h₁, h₂, h₃⟩ := h
  rw [find_bindSender username o (by decide)] at h₁ h₂ h₃
  exact ⟨h₁, h₂, h₃⟩

theorem find_outgoing_file (username now : Str) (o : Payload) {k : Str}
    (hk : k ∉ [str "from", str "payload_type", str "timestamp"]) :
    (fileOut now (bindSender username o)).find k = o.find k :=
  find_write o [(str "from", .str username), (str "payload_type", .str (str "file")),
    (str "timestamp", .str (now ++ str "Z"))] hk

/-- The file that is passed on is the one that was checked. -/
theorem FileChecks.outgoing {printable : CodePoint → Bool} {o : Payload}
    (h : FileChecks printable o) (username now : Str) :
    FileChecks printable (fileOut now (bindSender username o)) := by
  obtain ⟨h₁, h₂, h₃⟩ := h
  refine ⟨?_, ?_, ?_⟩
  · rwa [find_outgoing_file _ _ _ (by decide)]
  · rwa [find_outgoing_file _ _ _ (by decide)]
  · rwa [find_outgoing_file _ _ _ (by decide)]

/-- **The inversion lemma of `dispatch`**: an action other than a reply comes from one
of the branches, with everything that branch checked. -/
theorem dispatch_passes {printable : CodePoint → Bool} {username now : Str} {o : Payload}
    {a : Action} (h : dispatch printable username now o = .ok a) (ha : ∀ q, a ≠ .reply q) :
    Passes printable username now o a := by
  have hfind : ∀ {k}, k ≠ str "from" → (bindSender username o).find k = o.find k :=
    find_bindSender username o
  simp only [dispatch] at h
  rw [hfind (by decide : str "type" ≠ str "from")] at h
  split_ifs at h with h₁ h₂ h₃ h₄
  · -- create_group
    simp only [createGroup] at h
    rw [hfind (by decide : str "group_name" ≠ str "from"),
      get_bindSender username o (by decide : str "members" ≠ str "from")] at h
    obtain ⟨hg, h⟩ := require_pass h ha
    obtain ⟨hm, h⟩ := require_pass h ha
    obtain ⟨g, hgo, hsafe⟩ := isSafeGroupName_iff.mp hg
    rw [hgo] at h
    cases hl : (Dict.get o (str "members")).getD (.arr []) with
    | arr l =>
      rw [hl] at hm h
      obtain ⟨ms, rfl, hms⟩ := allSafeUsernames_iff.mp hm
      obtain rfl := Except.ok.inj h
      have htexts : (Json.arr (ms.map .str)).texts = ms := by
        simp [Json.texts, Json.text, Function.comp_def]
      rw [htexts]
      exact .create (Json.isStr_iff.mp h₁) hgo hsafe hms hl
    | _ =>
      rw [hl] at hm
      cases hm
  · -- group_message
    simp only [groupMessage] at h
    rw [hfind (by decide : str "to" ≠ str "from"),
      hfind (by decide : str "payload" ≠ str "from")] at h
    obtain ⟨hg, h⟩ := require_pass h ha
    obtain ⟨g, hgo, hsafe⟩ := isSafeGroupName_iff.mp hg
    rw [hgo] at h
    obtain rfl := Except.ok.inj h
    exact .groupMessage (Json.isStr_iff.mp h₂) hgo hsafe
  · -- message
    simp only [message] at h
    rw [hfind (by decide : str "to" ≠ str "from")] at h
    obtain ⟨hu, h⟩ := require_pass h ha
    obtain ⟨-, h⟩ := require_pass h ha
    obtain ⟨u, huo, hsafe⟩ := isSafeUsername_iff.mp hu
    rw [huo] at h
    obtain rfl := Except.ok.inj h
    exact .message (Json.isStr_iff.mp h₃) huo hsafe
  · -- message_file and group_file
    obtain ⟨t, ht, htype⟩ :
        ∃ t, o.find (str "type") = .str t ∧ (t = str "message_file" ∨ t = str "group_file") := by
      rcases Bool.or_eq_true_iff.mp h₄ with ht | ht
      · exact ⟨_, Json.isStr_iff.mp ht, .inl rfl⟩
      · exact ⟨_, Json.isStr_iff.mp ht, .inr rfl⟩
    obtain ⟨hchecks, h⟩ := file_pass h ha
    rw [fileTo_bindSender, hfind (by decide : str "to_type" ≠ str "from")] at h
    rcases h with ⟨hgroup, hsafe, rfl⟩ | ⟨hgroup, hsafe, rfl⟩
    · exact .groupFile ht htype hchecks.of_bindSender hgroup hsafe
    · exact .userFile ht htype hchecks.of_bindSender hgroup hsafe
  · obtain rfl := Except.ok.inj h
    exact .ignore

/-- The only replies before the tables are consulted are errors. -/
def OnlyErrors (r : Except Exc Action) : Prop :=
  ∀ q, r = .ok (.reply q) → ∃ msg, q = errorPayload msg

/-- The texts of these errors. -/
def requestErrors : List Str :=
  [str "Invalid group name.", str "Invalid group members.", str "Invalid recipient username.",
    str "Message dropped. Exceeds limit of " ++ Json.decimal maxMessageSize ++ str ".",
    str "Blocked dangerous filename.",
    str "Message dropped. Exceeds limit of " ++ Json.decimal maxFileSize ++ str " bytes."]

/-- The replies of a check: its own, or those that follow. -/
theorem replies_require {Q : Payload → Prop} {check : Except Exc Bool} {msg : Str}
    {k : Except Exc Action} (hmsg : Q (errorPayload msg)) (hk : ∀ q, k = .ok (.reply q) → Q q) :
    ∀ q, require check msg k = .ok (.reply q) → Q q := by
  intro q h
  rcases require_eq_ok h with ⟨-, h⟩ | h
  · exact hk q h
  · rw [Action.reply.inj h]
    exact hmsg

theorem replies_ok {Q : Payload → Prop} {a : Action} (ha : ∀ q, a ≠ .reply q) (q : Payload)
    (h : (.ok a : Except Exc Action) = .ok (.reply q)) : Q q :=
  absurd (Except.ok.inj h) (ha q)

/-- What holds of each of these errors holds of every reply. -/
theorem dispatch_replies {printable : CodePoint → Bool} {username now : Str} {o : Payload}
    {Q : Payload → Prop} (hQ : ∀ msg ∈ requestErrors, Q (errorPayload msg)) :
    ∀ q, dispatch printable username now o = .ok (.reply q) → Q q := by
  simp only [requestErrors, List.forall_mem_cons, List.not_mem_nil, false_implies,
    implies_true, and_true] at hQ
  obtain ⟨hgroup, hmembers, hrecipient, hmessage, hname, hsize⟩ := hQ
  have hfile : ∀ p q, file printable now p = .ok (.reply q) → Q q := by
    intro p
    simp only [file]
    split_ifs
    · exact fun q h => nomatch h
    · exact replies_require hname <| replies_require hsize <| replies_require hgroup <|
        replies_ok nofun
    · exact replies_require hname <| replies_require hsize <| replies_require hrecipient <|
        replies_ok nofun
  simp only [dispatch]
  split_ifs
  · exact replies_require hgroup <| replies_require hmembers <| replies_ok nofun
  · exact replies_require hgroup <| replies_ok nofun
  · exact replies_require hrecipient <| replies_require hmessage <| replies_ok nofun
  · exact hfile _
  · exact replies_ok nofun

theorem onlyErrors_dispatch (printable : CodePoint → Bool) (username now : Str) (o : Payload) :
    OnlyErrors (dispatch printable username now o) :=
  dispatch_replies fun msg _ => ⟨msg, rfl⟩

theorem dispatch_reply {printable : CodePoint → Bool} {username now : Str} {o q : Payload}
    (h : dispatch printable username now o = .ok (.reply q)) : ∃ msg, q = errorPayload msg :=
  onlyErrors_dispatch printable username now o q h

/-- **Every payload that is passed on names its sender in `from`.** -/
theorem Passes.sender_bound {printable : CodePoint → Bool} {username now : Str} {o p : Payload}
    {a : Action} (h : Passes printable username now o a)
    (ha : (∃ g, a = .fanOut g p) ∨ ∃ u, a = .forward u p) :
    p.find (str "from") = .str username := by
  cases h with
  | groupMessage =>
    obtain ⟨_, ⟨⟩⟩ | ⟨_, ⟨⟩⟩ := ha
    rw [find_groupText _ _ _ _ (by decide), bindSender_from]
  | message =>
    obtain ⟨_, ⟨⟩⟩ | ⟨_, ⟨⟩⟩ := ha
    rw [find_userText _ _ (by decide), bindSender_from]
  | groupFile | userFile =>
    obtain ⟨_, ⟨⟩⟩ | ⟨_, ⟨⟩⟩ := ha
    rw [find_fileOut _ _ (by decide), bindSender_from]
  | ignore | create => obtain ⟨_, ⟨⟩⟩ | ⟨_, ⟨⟩⟩ := ha

/-- The type of a payload that is passed on is the one the client wrote. -/
theorem Passes.type_kept {printable : CodePoint → Bool} {username now : Str} {o p : Payload}
    {a : Action} (h : Passes printable username now o a)
    (ha : (∃ g, a = .fanOut g p) ∨ ∃ u, a = .forward u p) :
    p.find (str "type") = o.find (str "type") ∧ p.IsForwarded := by
  have hof : (bindSender username o).find (str "type") = o.find (str "type") :=
    find_bindSender username o (by decide)
  cases h with
  | groupMessage ht =>
    obtain ⟨_, ⟨⟩⟩ | ⟨_, ⟨⟩⟩ := ha
    rw [Payload.IsForwarded, find_groupText _ _ _ _ (by decide), hof]
    exact ⟨rfl, _, ht, .groupMessage⟩
  | message ht =>
    obtain ⟨_, ⟨⟩⟩ | ⟨_, ⟨⟩⟩ := ha
    rw [Payload.IsForwarded, find_userText _ _ (by decide), hof]
    exact ⟨rfl, _, ht, .message⟩
  | groupFile ht htype | userFile ht htype =>
    obtain ⟨_, ⟨⟩⟩ | ⟨_, ⟨⟩⟩ := ha
    rw [Payload.IsForwarded, find_fileOut _ _ (by decide), hof]
    refine ⟨rfl, _, ht, ?_⟩
    rcases htype with rfl | rfl
    · exact .messageFile
    · exact .groupFile
  | ignore | create => obtain ⟨_, ⟨⟩⟩ | ⟨_, ⟨⟩⟩ := ha

theorem groupText_to (now : Str) (p : Payload) (g m : Json) :
    (groupText now p g m).find (str "to") = g := by
  have hkey : str "to" ∉ [str "payload", str "payload_type", str "to_type", str "timestamp"] := by
    decide
  refine Eq.trans (find_write (Dict.set p (str "to") g) [(str "payload", m),
    (str "payload_type", .str (str "text")), (str "to_type", .str (str "group")),
    (str "timestamp", .str (now ++ str "Z"))] hkey) ?_
  rw [Payload.find, Dict.get_set_self, Option.getD_some]

theorem groupText_payload (now : Str) (p : Payload) (g m : Json) :
    (groupText now p g m).find (str "payload") = m := by
  have hkey : str "payload" ∉ [str "payload_type", str "to_type", str "timestamp"] := by
    decide
  refine Eq.trans (find_write (Dict.set (Dict.set p (str "to") g) (str "payload") m)
    [(str "payload_type", .str (str "text")), (str "to_type", .str (str "group")),
      (str "timestamp", .str (now ++ str "Z"))] hkey) ?_
  rw [Payload.find, Dict.get_set_self, Option.getD_some]

/-- So is the text, or the data of the file. -/
theorem Passes.payload_kept {printable : CodePoint → Bool} {username now : Str} {o p : Payload}
    {a : Action} (h : Passes printable username now o a)
    (ha : (∃ g, a = .fanOut g p) ∨ ∃ u, a = .forward u p) :
    p.find (str "payload") = o.find (str "payload") := by
  cases h with
  | groupMessage =>
    obtain ⟨_, ⟨⟩⟩ | ⟨_, ⟨⟩⟩ := ha
    exact groupText_payload ..
  | message =>
    obtain ⟨_, ⟨⟩⟩ | ⟨_, ⟨⟩⟩ := ha
    rw [find_userText _ _ (by decide), find_bindSender _ _ (by decide)]
  | groupFile | userFile =>
    obtain ⟨_, ⟨⟩⟩ | ⟨_, ⟨⟩⟩ := ha
    rw [find_outgoing_file _ _ _ (by decide)]
  | ignore | create => obtain ⟨_, ⟨⟩⟩ | ⟨_, ⟨⟩⟩ := ha

/-- A name is inserted, and none is lost. -/
theorem mem_insertName {u v : Str} {l : List Str} : v ∈ insertName u l ↔ v = u ∨ v ∈ l := by
  induction l with
  | nil => simp [insertName]
  | cons w l ih =>
    rw [insertName]
    split_ifs with h₁ h₂
    · subst h₁
      simp
    · simp
    · simp only [List.mem_cons, ih]
      tauto

/-- `set` keeps the elements. -/
theorem mem_sortedSet {v : Str} {l : List Str} : v ∈ sortedSet l ↔ v ∈ l := by
  induction l with
  | nil => simp [sortedSet]
  | cons w l ih =>
    have h : sortedSet (w :: l) = insertName w (sortedSet l) := rfl
    rw [h, mem_insertName, ih, List.mem_cons]

/-- The members of a new group have valid names when those asked for and the requester do. -/
theorem safe_sortedSet {ms : List Str} {u : Str} (hms : ∀ m ∈ ms, SafeName 32 m)
    (hu : SafeName 32 u) : ∀ m ∈ sortedSet (ms ++ [u]), SafeName 32 m := by
  intro m hm
  rcases List.mem_append.mp (mem_sortedSet.mp hm) with hm | hm
  · exact hms m hm
  · rw [List.mem_singleton.mp hm]
    exact hu

end GuardedIM
