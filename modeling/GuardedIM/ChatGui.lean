import GuardedIM.Client
import GuardedIM.Sending

/-!
# The chat window: `client/chat_gui.py`

`ChatGui` is what the window remembers: the histories, the conversation that is open, the names
ever seen online, and the texts in the list box. Each handler of the window is a function on it.
What the user types, the socket and the clocks are arguments.

Everything is kept in one kind of text: names of users, `#` and the name of a group, a name and its
status, and the two words `System` and `You` that stand for nobody.

* `formatName_online`, `selected_label`: what the handlers read out of the texts they wrote.
* `shown_iff`: a remote text is shown as such unless its sender has one of the two words as a name.
-/

namespace GuardedIM

/-! ## Texts -/

/-- `s.replace(pattern, "")`; so many characters of a match are still to be left out. -/
def removeAll (pattern : Str) : ℕ → Str → Str
  | _, [] => []
  | k + 1, _ :: s => removeAll pattern k s
  | 0, c :: s =>
    if pattern.isPrefixOf (c :: s) then removeAll pattern (pattern.length - 1) s
    else c :: removeAll pattern 0 s

/-- `s.split(separator)[0]` -/
def splitFirst (separator : Str) : Str → Str
  | [] => []
  | c :: s => if separator.isPrefixOf (c :: s) then [] else c :: splitFirst separator s

/-- `format_username` of a string. -/
def formatName (username : Str) : Str := strip (removeAll (str " (online)") 0 username)

/-- `format_username`; only a string has a `replace`, and without one the exception is not caught
here. -/
def formatUsername (username : Json) : Option Str :=
  if username.truthy then
    match username with
    | .str s => some (formatName s)
    | _ => none
  else some []

/-- `f"{user} ({status_text})"` -/
def displayName (user statusText : Str) : Str := user ++ (str " (" ++ statusText ++ str ")")

/-! ## The window -/

/-- One entry of a history. -/
structure Entry where
  /-- `timestamp` -/
  timestamp : Str
  /-- `actual_sender`, or one of the two words -/
  sender : Str
  /-- `message` -/
  message : Json

/-- The fields of `ChatGUI` that its handlers read. -/
structure ChatGui where
  /-- `username` -/
  username : Str
  /-- `chat_histories` -/
  chatHistories : Dict (Option Str) (List Entry)
  /-- `active_user` -/
  activeUser : Option Str
  /-- `known_users`, in order -/
  knownUsers : List Str
  /-- the texts of `user_listbox` -/
  userListbox : List Str

/-- What an event finds outside the program. -/
structure Moment where
  /-- what `send_encrypted` raises, if it raises -/
  send : Str → Option Str
  /-- `datetime.datetime.now(datetime.timezone.utc)` -/
  utcnow : UtcTime
  /-- `datetime.datetime.now().strftime("%H:%M:%S")` -/
  timestamp : Str

/-- How an entry looks. -/
inductive Bubble where
  /-- on the right, without a label -/
  | own
  /-- in the middle, without a label -/
  | notice
  /-- on the left, under the sender's name -/
  | remote (sender : Str)
  deriving DecidableEq

/-- The `if` of `update_chat_display`. -/
def bubble (sender : Str) : Bubble :=
  if sender = str "You" then .own else if sender = str "System" then .notice else .remote sender

namespace ChatGui

/-- Behind the login dialog. -/
def start (username : Str) : ChatGui := ⟨username, [], none, [], []⟩

/-- `chat_histories.get(conversation, [])` -/
def history (g : ChatGui) (conversation : Option Str) : List Entry :=
  (Dict.get g.chatHistories conversation).getD []

/-- `update_chat_display` -/
def updateChatDisplay (g : ChatGui) : List (Bubble × Json × Str) :=
  (g.history g.activeUser).map fun e => (bubble e.sender, e.message, e.timestamp)

/-- `chat_histories.setdefault(conversation, []).append(entry)` -/
def append (g : ChatGui) (conversation : Option Str) (entry : Entry) : ChatGui :=
  { g with chatHistories :=
      Dict.set g.chatHistories conversation (g.history conversation ++ [entry]) }

/-- `chat_histories.setdefault(conversation, [])` -/
def setDefault (g : ChatGui) (conversation : Option Str) : ChatGui :=
  { g with chatHistories := Dict.set g.chatHistories conversation (g.history conversation) }

/-- `user_listbox.insert(END, text)` -/
def insert (g : ChatGui) (text : Str) : ChatGui :=
  { g with userListbox := g.userListbox ++ [text] }

/-- `on_message_received` -/
def onMessageReceived (timestamp : Str) (fromUser message sender : Json) (g : ChatGui) :
    Option ChatGui := do
  let fromUserStrip ← formatUsername fromUser
  let actualSender ← formatUsername (if sender.truthy then sender else fromUser)
  if fromUserStrip = str "System" then
    some (g.append g.activeUser ⟨timestamp, str "System", message⟩)
  else
    let g' := g.append (some fromUserStrip) ⟨timestamp, actualSender, message⟩
    let existingUsers := g.userListbox.map formatName
    if fromUserStrip ≠ g.username ∧ fromUserStrip ∉ existingUsers then
      some (g'.insert fromUserStrip)
    else some g'

/-- `on_message_received("System", text)` -/
def systemNotice (timestamp text : Str) (g : ChatGui) : ChatGui :=
  g.append g.activeUser ⟨timestamp, str "System", .str text⟩

/-- `update_user_list` -/
def updateUserList (onlineUsers : List Str) (g : ChatGui) : ChatGui :=
  let knownUsers := sortedSet (g.knownUsers ++ onlineUsers)
  { g with
    knownUsers := knownUsers
    userListbox := (knownUsers.filter (· ≠ g.username)).map fun user =>
      displayName user (if user ∈ onlineUsers then str "online" else str "offline") }

/-- `switch_user` -/
def switchUser (selection : Option ℕ) (g : ChatGui) : ChatGui :=
  match selection.bind fun i => g.userListbox[i]? with
  | none => g
  | some selectedText => { g with activeUser := some (splitFirst (str " (") selectedText) }

/-- `new_group`, with the answers of the two dialogs. -/
def newGroup (m : Moment) (groupName members : Option Str) (g : ChatGui) : ChatGui :=
  match groupName, members with
  | some groupName, some members =>
    if groupName = [] ∨ members = [] then g
    else
      let membersList := g.username :: (members.splitOnP (· = cp ',')).map strip
      if membersList.length < 2 then
        g.systemNotice m.timestamp (str "Group chat must have at least two members.")
      else
        match ChatClient.createGroup m.send g.username m.utcnow groupName membersList with
        | .sent _ _ =>
          let groupDisplayName := cp '#' :: groupName
          let g' :=
            if groupDisplayName ∈ g.userListbox then g
            else (g.insert groupDisplayName).setDefault (some groupDisplayName)
          { g' with activeUser := some groupDisplayName }
        | .refused notice =>
          (g.systemNotice m.timestamp notice).systemNotice m.timestamp
            (str "Failed to create group chat.")
        | .raised => g
  | _, _ => g

/-- `send`, with the text of the entry field. -/
def send (m : Moment) (entry : Str) (g : ChatGui) : ChatGui :=
  match g.activeUser with
  | none => g
  | some activeUser =>
    let message := strip entry
    if activeUser = [] ∨ message = [] then g
    else
      match (if activeUser.head? = some (cp '#') then
          ChatClient.sendGroupMessage m.send g.username m.utcnow (activeUser.drop 1) message
        else ChatClient.sendMessage m.send g.username m.utcnow activeUser message) with
      | .sent _ _ => g.append (some activeUser) ⟨m.timestamp, str "You", .str message⟩
      | .refused notice => g.systemNotice m.timestamp notice
      | .raised => g

/-- `upload`, with the answer of the dialog and what is read from the file. -/
def upload (printable : CodePoint → Bool) (m : Moment) (filePath : Str)
    (contents : Except Str Bytes) (g : ChatGui) : ChatGui :=
  match g.activeUser with
  | none => g
  | some target =>
    if target = [] ∨ filePath = [] then g
    else
      match (if target.head? = some (cp '#') then
          ChatClient.sendGroupFile printable m.send g.username m.utcnow (target.drop 1) filePath
            contents
        else ChatClient.sendFile printable m.send g.username m.utcnow target filePath contents) with
      | .sent _ (some notice) | .refused notice => g.systemNotice m.timestamp notice
      | .sent _ none | .raised => g

end ChatGui

/-- What the window reacts to. -/
inductive GuiEvent where
  /-- the client calls `on_message_received` -/
  | message (fromUser message sender : Json)
  /-- the client calls `on_user_list` -/
  | userList (onlineUsers : List Str)
  /-- the button of that name -/
  | newGroup (groupName members : Option Str)
  /-- a text of the list box is selected, or none -/
  | switchUser (selection : Option ℕ)
  /-- the button of that name, or the return key -/
  | send (entry : Str)
  /-- the button of that name -/
  | upload (filePath : Str) (contents : Except Str Bytes)

/-- One event. What `on_message_received` raises, the client catches. -/
def ChatGui.handle (printable : CodePoint → Bool) (g : ChatGui) (e : Moment × GuiEvent) : ChatGui :=
  match e.2 with
  | .message fromUser message sender =>
    (g.onMessageReceived e.1.timestamp fromUser message sender).getD g
  | .userList onlineUsers => g.updateUserList onlineUsers
  | .newGroup groupName members => g.newGroup e.1 groupName members
  | .switchUser selection => g.switchUser selection
  | .send entry => g.send e.1 entry
  | .upload filePath contents => g.upload printable e.1 filePath contents

/-- A session of the window. -/
def ChatGui.run (printable : CodePoint → Bool) (g : ChatGui) (events : List (Moment × GuiEvent)) :
    ChatGui :=
  events.foldl (handle printable) g

/-! ## What is read out of the texts -/

theorem removeAll_eq_self {p s : Str} {c : CodePoint} (hs : c ∉ s) :
    removeAll (c :: p) 0 s = s := by
  induction s with
  | nil => rfl
  | cons d s ih =>
    obtain ⟨hd, hs⟩ := not_or.mp (List.mem_cons.not.mp hs)
    have hno : (c :: p).isPrefixOf (d :: s) = false := by simp [List.isPrefixOf, hd]
    rw [removeAll, hno, ih hs]
    rfl

theorem removeAll_skip (p s t : Str) : removeAll p s.length (s ++ t) = removeAll p 0 t := by
  induction s with
  | nil => rfl
  | cons c s ih => exact ih

/-- A pattern behind text without its first character. -/
theorem removeAll_append {p s : Str} {c : CodePoint} (hs : c ∉ s) :
    removeAll (c :: p) 0 (s ++ c :: p) = s := by
  induction s with
  | nil =>
    have hskip := removeAll_skip (c :: p) p []
    have hself : (c :: p).isPrefixOf (c :: p) = true :=
      List.isPrefixOf_iff_prefix.mpr (List.prefix_refl _)
    rw [List.nil_append, removeAll, hself, if_pos rfl]
    rw [List.append_nil] at hskip
    exact hskip
  | cons d s ih =>
    obtain ⟨hd, hs⟩ := not_or.mp (List.mem_cons.not.mp hs)
    have hno : (c :: p).isPrefixOf (d :: (s ++ c :: p)) = false := by simp [List.isPrefixOf, hd]
    rw [List.cons_append, removeAll, hno, ih hs]
    rfl

/-- Behind such text, something else that begins like the pattern. -/
theorem removeAll_append_other {p s t : Str} {c : CodePoint} (hs : c ∉ s) (ht : c ∉ t)
    (hno : (c :: p).isPrefixOf (c :: t) = false) :
    removeAll (c :: p) 0 (s ++ c :: t) = s ++ c :: t := by
  induction s with
  | nil =>
    rw [List.nil_append, removeAll, hno, removeAll_eq_self ht]
    rfl
  | cons d s ih =>
    obtain ⟨hd, hs⟩ := not_or.mp (List.mem_cons.not.mp hs)
    have hno' : (c :: p).isPrefixOf (d :: (s ++ c :: t)) = false := by simp [List.isPrefixOf, hd]
    rw [List.cons_append, removeAll, hno', ih hs]
    rfl

/-- A name that lacks the first character of the separator is split off whole. -/
theorem splitFirst_append {p s t : Str} {c : CodePoint} (hs : c ∉ s)
    (ht : t = [] ∨ (c :: p) <+: t) : splitFirst (c :: p) (s ++ t) = s := by
  induction s with
  | nil =>
    rcases ht with rfl | ht
    · rfl
    · cases t with
      | nil => rfl
      | cons d t => rw [List.nil_append, splitFirst, List.isPrefixOf_iff_prefix.mpr ht, if_pos rfl]
  | cons d s ih =>
    obtain ⟨hd, hs⟩ := not_or.mp (List.mem_cons.not.mp hs)
    have hno : (c :: p).isPrefixOf (d :: (s ++ t)) = false := by simp [List.isPrefixOf, hd]
    rw [List.cons_append, splitFirst, hno, ih hs]
    rfl

/-- What a conversation is called: a user, or `#` and what the server took for a group. -/
structure ConversationName (s : Str) : Prop where
  /-- not empty -/
  nonempty : s ≠ []
  /-- of the characters of names, and `#` -/
  safe : ∀ c ∈ s, safeChar c = true ∨ c = cp '#'

/-- A user and a group can be conversations. -/
theorem SafeName.conversation {n : ℕ} {s : Str} (h : SafeName n s) : ConversationName s :=
  ⟨List.ne_nil_of_length_pos h.1, fun c hc => .inl (h.2.2 c hc)⟩

theorem SafeName.group {n : ℕ} {s : Str} (h : SafeName n s) : ConversationName (cp '#' :: s) :=
  ⟨nofun, List.forall_mem_cons.mpr ⟨.inr rfl, h.conversation.safe⟩⟩

namespace ConversationName

variable {s : Str}

theorem not_space (h : ConversationName s) : ∀ c ∈ s, isSpace c = false := by
  intro c hc
  rcases h.safe c hc with hsafe | rfl
  · exact safeChar_not_space hsafe
  · rfl

theorem space_not_mem (h : ConversationName s) : cp ' ' ∉ s := by
  intro hmem
  cases h.not_space _ hmem

theorem truthy (h : ConversationName s) : (Json.str s).truthy = true := by
  simp [Json.truthy, h.nonempty]

/-- The name itself. -/
@[simp] theorem formatName_self (h : ConversationName s) : formatName s = s := by
  have hremove : removeAll (str " (online)") 0 s = s := removeAll_eq_self h.space_not_mem
  rw [formatName, hremove, strip, stripBy_eq_self h.not_space]

/-- Such a name is taken as it is, -/
theorem formatUsername_self (h : ConversationName s) : formatUsername (.str s) = some s := by
  rw [formatUsername, if_pos h.truthy, h.formatName_self]

/-- The name of a user who is online. -/
theorem formatName_online (h : ConversationName s) :
    formatName (displayName s (str "online")) = s := by
  have hremove : removeAll (str " (online)") 0 (s ++ str " (online)") = s :=
    removeAll_append h.space_not_mem
  have hlabel : displayName s (str "online") = s ++ str " (online)" := rfl
  rw [formatName, hlabel, hremove, strip, stripBy_eq_self h.not_space]

/-- The name that `switch_user` reads, with a status behind it or without. -/
theorem splitFirst_self (h : ConversationName s) : splitFirst (str " (") s = s := by
  have hsplit := splitFirst_append (p := str "(") (t := []) h.space_not_mem (.inl rfl)
  rwa [List.append_nil] at hsplit

/-- and is found again in what the list box shows of it. -/
theorem splitFirst_displayName (h : ConversationName s) (statusText : Str) :
    splitFirst (str " (") (displayName s statusText) = s :=
  splitFirst_append h.space_not_mem (.inr ⟨statusText ++ str ")", rfl⟩)

end ConversationName

/-! ## Remote texts -/

namespace ChatGui

variable {g : ChatGui} {timestamp text : Str} {message : Json}

/-- An entry is added to one history. -/
theorem history_append (g : ChatGui) (k k' : Option Str) (e : Entry) :
    (g.append k e).history k' = if k' = k then g.history k ++ [e] else g.history k' := by
  simp only [append, history, Dict.get_set]
  split_ifs
  · rfl
  · rfl

/-- `on_message_received`, once the names are there. -/
def enter (timestamp conversation : Str) (message : Json) (actualSender : Str) (g : ChatGui) :
    ChatGui :=
  if conversation = str "System" then
    g.append g.activeUser ⟨timestamp, str "System", message⟩
  else if conversation ≠ g.username ∧ conversation ∉ g.userListbox.map formatName then
    (g.append (some conversation) ⟨timestamp, actualSender, message⟩).insert conversation
  else g.append (some conversation) ⟨timestamp, actualSender, message⟩

/-- What a text does that is no notice. -/
theorem onMessageReceived_eq {conversation : Str} (hc : ConversationName conversation)
    (g : ChatGui) (timestamp : Str) (message sender : Json) :
    g.onMessageReceived timestamp (.str conversation) message sender =
      (formatUsername (if sender.truthy then sender else .str conversation)).map
        fun actualSender => g.enter timestamp conversation message actualSender := by
  rw [onMessageReceived, hc.formatUsername_self]
  rcases formatUsername (if sender.truthy then sender else .str conversation) with _ | actualSender
  · rfl
  · simp only [enter, Option.bind_eq_bind, Option.bind_some, Option.map_some]
    split_ifs
    · rfl
    · rfl
    · rfl

/-- The text of `sender` is in the history of the conversation, under the sender's name, and
nowhere else; if the conversation is open it is also to be seen so. -/
structure Shown (g g' : ChatGui) (timestamp : Str) (message : Json) (conversation sender : Str) :
    Prop where
  /-- one more entry -/
  appended : g'.history (some conversation) =
    g.history (some conversation) ++ [⟨timestamp, sender, message⟩]
  /-- the other histories are as they were -/
  others : ∀ k, k ≠ some conversation → Dict.get g'.chatHistories k = Dict.get g.chatHistories k
  /-- it is drawn as another user's -/
  marked : bubble sender = .remote sender
  /-- and this is what the window adds -/
  displayed : g'.updateChatDisplay = g.updateChatDisplay ++
    if g.activeUser = some conversation then [(.remote sender, message, timestamp)] else []

/-- The two words. -/
def reserved : List Str := [str "System", str "You"]

/-- Two names are never shown as senders. -/
theorem bubble_remote_iff {sender : Str} : bubble sender = .remote sender ↔ sender ∉ reserved := by
  simp only [bubble, reserved, List.mem_cons, List.not_mem_nil, or_false, not_or]
  split_ifs with hyou hsystem
  · simp [hyou]
  · simp [hsystem]
  · simp [hyou, hsystem]

/-- Where the text is appended, it is shown. -/
theorem shown_append {conversation sender : Str} (hsender : sender ∉ reserved) (g : ChatGui)
    (timestamp : Str) (message : Json) {g' : ChatGui}
    (hhistories : g'.chatHistories =
      (g.append (some conversation) ⟨timestamp, sender, message⟩).chatHistories)
    (hactive : g'.activeUser = g.activeUser) :
    Shown g g' timestamp message conversation sender := by
  have hmarked := bubble_remote_iff.mpr hsender
  have hhistory : ∀ k, g'.history k =
      if k = some conversation then g.history (some conversation) ++ [⟨timestamp, sender, message⟩]
      else g.history k := by
    intro k
    rw [← history_append]
    simp only [history, hhistories]
  refine ⟨?_, fun k hk => ?_, hmarked, ?_⟩
  · rw [hhistory, if_pos rfl]
  · rw [hhistories, append, Dict.get_set_ne _ _ hk]
  · rw [updateChatDisplay, hactive, hhistory, updateChatDisplay]
    split_ifs with hopen
    · rw [hopen, List.map_append, List.map_singleton, hmarked]
    · rw [List.append_nil]

/-- **Remote texts and the two words.** A text that any user sends, directly or in any group, is
shown as that user's, in that conversation only, if and only if the name of the user is neither of
the two words. -/
theorem shown_iff (g : ChatGui) (timestamp : Str) (message : Json) {u : Str}
    (hu : SafeName 32 u) :
    ((∃ g', g.onMessageReceived timestamp (.str u) message (.str u) = some g' ∧
      Shown g g' timestamp message u u) ↔ u ∉ reserved) ∧
    ∀ group, SafeName 48 group →
      ((∃ g', g.onMessageReceived timestamp (.str (cp '#' :: group)) message (.str u) = some g' ∧
        Shown g g' timestamp message (cp '#' :: group) u) ↔ u ∉ reserved) := by
  have hname := hu.conversation
  have hshown : ∀ {conversation}, ConversationName conversation → conversation ≠ str "System" →
      u ∉ reserved → ∃ g', g.onMessageReceived timestamp (.str conversation) message (.str u) =
        some g' ∧ Shown g g' timestamp message conversation u := by
    intro conversation hc hsystem hfree
    rw [onMessageReceived_eq hc, if_pos hname.truthy, hname.formatUsername_self]
    refine ⟨_, rfl, ?_⟩
    simp only [enter, if_neg hsystem]
    split_ifs
    · exact shown_append hfree g timestamp message rfl rfl
    · exact shown_append hfree g timestamp message rfl rfl
  refine ⟨⟨?_, fun hfree => hshown hname ?_ hfree⟩, fun group hgroup => ⟨?_, fun hfree =>
    hshown hgroup.group nofun hfree⟩⟩
  · rintro ⟨g', -, hg'⟩
    exact bubble_remote_iff.mp hg'.marked
  · rintro rfl
    exact hfree (List.mem_cons_self ..)
  · rintro ⟨g', -, hg'⟩
    exact bubble_remote_iff.mp hg'.marked

/-- Half past eight, with a socket that takes everything. -/
def demoMoment : Moment := ⟨fun _ => none, demoEvening, str "20:30:00"⟩

/-- Bob says hi to Alice, and in a group. -/
theorem shown_iff_bob : ∃ g g' : ChatGui,
    (start (str "alice")).onMessageReceived demoMoment.timestamp (.str (str "bob"))
      (.str (str "hi")) (.str (str "bob")) = some g ∧
    Shown (start (str "alice")) g demoMoment.timestamp (.str (str "hi")) (str "bob") (str "bob") ∧
    g.onMessageReceived demoMoment.timestamp (.str (str "#team")) (.str (str "hi"))
      (.str (str "bob")) = some g' ∧
    Shown g g' demoMoment.timestamp (.str (str "hi")) (str "#team") (str "bob") := by
  have hfree : str "bob" ∉ reserved := by decide
  obtain ⟨g, hg, hshown⟩ := (shown_iff (u := str "bob") (start (str "alice")) demoMoment.timestamp
    (.str (str "hi")) (by decide)).1.mpr hfree
  obtain ⟨g', hg', hshown'⟩ := ((shown_iff (u := str "bob") g demoMoment.timestamp
    (.str (str "hi")) (by decide)).2 (str "team") (by decide)).mpr hfree
  exact ⟨g, g', hg, hshown, hg', hshown'⟩

/-- Alice has Bob's conversation open. A user called System has their text in it, as a notice of
the window; a user called You has theirs on Alice's own side. -/
theorem system_spoofed : ∃ g g' g'' : ChatGui,
    g = run (fun _ => true) (start (str "alice"))
      [(demoMoment, .userList [str "alice", str "bob"]), (demoMoment, .switchUser (some 0))] ∧
    g.onMessageReceived demoMoment.timestamp (.str (str "System")) (.str (str "Log in again"))
      (.str (str "System")) = some g' ∧
    isSafeUsername (.str (str "System")) = .ok true ∧
    g'.updateChatDisplay = [(.notice, .str (str "Log in again"), str "20:30:00")] ∧
    ¬ Shown g g' demoMoment.timestamp (.str (str "Log in again")) (str "System") (str "System") ∧
    g.onMessageReceived demoMoment.timestamp (.str (str "#team")) (.str (str "I agree"))
      (.str (str "You")) = some g'' ∧
    isSafeUsername (.str (str "You")) = .ok true ∧ bubble (str "You") = .own ∧
    ¬ Shown g g'' demoMoment.timestamp (.str (str "I agree")) (str "#team") (str "You") := by
  refine ⟨_, _, _, rfl, rfl, rfl, rfl, fun hshown => ?_, rfl, rfl, rfl, fun hshown => ?_⟩
  · -- the history of the conversation with System is still empty
    cases hshown.appended
  · cases hshown.marked

end ChatGui

end GuardedIM
