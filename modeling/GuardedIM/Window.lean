import GuardedIM.ChatGui
import GuardedIM.Honest

/-!
# The window and its client

An event of the window calls at most one method of the client, and a round of `receive_loop` calls
back into the window. Whatever happens, the window only adds to its histories: under the two words
for what the user does, under names for what is received.

* `ChatGui.method`, `sent_text`: the call behind an event, and what the server reads because of it.
* `saidBy`: what stands in a conversation under a name.
* `saidBy_user`, `saidBy_round`: what the two kinds of events do to it.
-/

namespace GuardedIM

open ChatClient

/-! ## What the user does -/

/-- The events that the user causes. -/
def GuiEvent.byUser : GuiEvent → Bool
  | .message _ _ _ | .userList _ => false
  | _ => true

/-- The method of the client that an event of the window calls. -/
def ChatGui.method (g : ChatGui) : GuiEvent → Option Method
  | .newGroup (some groupName) (some members) =>
    let membersList := g.username :: (members.splitOnP (· = cp ',')).map strip
    if groupName = [] ∨ members = [] ∨ membersList.length < 2 then none
    else some (.createGroup groupName membersList)
  | .send entry =>
    match g.activeUser with
    | none => none
    | some activeUser =>
      if activeUser = [] ∨ strip entry = [] then none
      else if activeUser.head? = some (cp '#') then
        some (.sendGroupMessage (activeUser.drop 1) (strip entry))
      else some (.sendMessage activeUser (strip entry))
  | .upload filePath contents =>
    match g.activeUser with
    | none => none
    | some target =>
      if target = [] ∨ filePath = [] then none
      else if target.head? = some (cp '#') then
        some (.sendGroupFile (target.drop 1) filePath contents)
      else some (.sendFile target filePath contents)
  | _ => none

/-- What the call comes to. -/
def ChatGui.call (printable : CodePoint → Bool) (g : ChatGui) (m : Moment) (e : GuiEvent) :
    Option Call :=
  (g.method e).map fun r => r.call printable m.send g.username m.utcnow

/-- The text that is for the conversation `k`. -/
def ChatClient.Method.textFor (k : Str) : Method → Option Str
  | .sendMessage u m => if u = k then some m else none
  | .sendGroupMessage g m => if cp '#' :: lstripHash g = k then some m else none
  | _ => none

/-- The conversation that an object is for, if it is a text. -/
def Payload.conversation (o : Payload) : Option Str :=
  match o.find (str "to") with
  | .str t =>
    if (o.find (str "type")).isStr (str "message") then some t
    else if (o.find (str "type")).isStr (str "group_message") then some (cp '#' :: t)
    else none
  | _ => none

/-- The text in an object that is for the conversation `k`. -/
def Payload.textFor (k : Str) (o : Payload) : Option Json :=
  if o.conversation = some k then some (o.find (str "payload")) else none

/-! ## What is received -/

/-- What an effect adds to the conversation `k` under the name `n`. -/
def Effect.said (n k : Str) : Effect → Option Json
  | .received chat message sender =>
    if formatUsername chat = some k ∧
        formatUsername (if sender.truthy then sender else chat) = some n then some message
    else none
  | _ => none

/-- What a payload adds. Only texts are shown under a name. -/
def Payload.said (printable : CodePoint → Bool) (n k : Str) (p : Payload) : Option Json :=
  if (p.find (str "type")).isStr (str "message") then
    (Effect.received (p.find (str "from")) (p.find (str "payload"))
      ((Dict.get p (str "sender")).getD (p.find (str "from")))).said n k
  else if (p.find (str "type")).isStr (str "group_message") then
    (Effect.received (hashed printable (p.find (str "to"))) (p.find (str "payload"))
      (p.find (str "from"))).said n k
  else none

/-- What a value adds. -/
def Json.said (printable : CodePoint → Bool) (n k : Str) : Json → Option Json
  | .obj p => Payload.said printable n k p
  | _ => none

/-- The names of a user list, as `update_user_list` takes them. -/
def Json.strings : Json → Option (List Str)
  | .arr l => l.mapM fun
    | .str s => some s
    | _ => none
  | _ => none

/-- A callback of the client; what it raises is caught in `receive_loop`. -/
def ChatGui.take (timestamp : Str) (g : ChatGui) : Effect → ChatGui
  | .userList users => (users.strings.map g.updateUserList).getD g
  | .received chat message sender => (g.onMessageReceived timestamp chat message sender).getD g
  | _ => g

/-- All callbacks of one round. -/
def ChatGui.round (timestamp : Str) (g : ChatGui) (effects : List Effect) : ChatGui :=
  effects.foldl (take timestamp) g

namespace ChatGui

/-- What stands in the conversation `k` under a name. -/
def saidBy (g : ChatGui) (n k : Str) : List Json :=
  ((g.history (some k)).filter fun e => e.sender = n).map Entry.message

/-- Nothing is removed, and what is added stands under such names. -/
structure Grows (S : Str → Prop) (g g' : ChatGui) : Prop where
  /-- the user stays the same -/
  username : g'.username = g.username
  /-- in every conversation -/
  history : ∀ k, ∃ es, g'.history k = g.history k ++ es ∧ ∀ e ∈ es, S e.sender

variable {S : Str → Prop} {g g' g'' : ChatGui} {n k timestamp : Str} {m : Moment} {e : GuiEvent}
  {printable : CodePoint → Bool}

/-! ## The histories -/

/-- Where no history changes, nothing is added. -/
theorem Grows.of_eq (hname : g'.username = g.username) (h : ∀ k, g'.history k = g.history k) :
    Grows S g g' :=
  ⟨hname, fun k => ⟨[], by rw [h, List.append_nil], List.forall_mem_nil _⟩⟩

theorem Grows.refl (g : ChatGui) : Grows S g g := .of_eq rfl fun _ => rfl

/-- What is added in two steps stands under such names, too. -/
theorem Grows.trans (h : Grows S g g') (h' : Grows S g' g'') : Grows S g g'' := by
  refine ⟨h'.username.trans h.username, fun k => ?_⟩
  obtain ⟨es, hes, hS⟩ := h.history k
  obtain ⟨es', hes', hS'⟩ := h'.history k
  refine ⟨es ++ es', by rw [hes', hes, List.append_assoc], fun e he => ?_⟩
  exact (List.mem_append.mp he).elim (hS e) (hS' e)

/-- One entry under such a name. -/
theorem Grows.append (g : ChatGui) (k : Option Str) {entry : Entry} (h : S entry.sender) :
    Grows S g (g.append k entry) := by
  refine ⟨rfl, fun k' => ?_⟩
  rw [history_append]
  split_ifs with hk
  · subst hk
    exact ⟨[entry], rfl, fun e he => List.mem_singleton.mp he ▸ h⟩
  · exact ⟨[], by rw [List.append_nil], List.forall_mem_nil _⟩

/-- The list box is no history. -/
theorem Grows.insert (h : Grows S g g') (text : Str) : Grows S g (g'.insert text) :=
  ⟨h.username, h.history⟩

/-- An empty history is as good as none. -/
theorem history_setDefault (g : ChatGui) (k k' : Option Str) :
    (g.setDefault k).history k' = g.history k' := by
  simp only [setDefault, history, Dict.get_set]
  split_ifs with hk
  · rw [hk, Option.getD_some]
  · rfl

/-- What somebody said stays. -/
theorem Grows.saidBy_extends (h : Grows S g g') (n k : Str) : g.saidBy n k <+: g'.saidBy n k := by
  obtain ⟨es, hes, -⟩ := h.history (some k)
  rw [saidBy, saidBy, hes, List.filter_append, List.map_append]
  exact List.prefix_append _ _

/-- Under another name nothing is added. -/
theorem Grows.saidBy_eq (h : Grows S g g') (hn : ¬ S n) (k : Str) :
    g'.saidBy n k = g.saidBy n k := by
  obtain ⟨es, hes, hS⟩ := h.history (some k)
  have hnone : es.filter (fun e => e.sender = n) = [] := by
    refine List.filter_eq_nil_iff.mpr fun e he hsender => hn ?_
    rw [← of_decide_eq_true hsender]
    exact hS e he
  rw [saidBy, saidBy, hes, List.filter_append, hnone, List.append_nil]

/-- An entry counts for its sender, in its conversation. -/
theorem saidBy_append (g : ChatGui) (key : Option Str) (entry : Entry) (n k : Str) :
    (g.append key entry).saidBy n k =
      if key = some k ∧ entry.sender = n then g.saidBy n k ++ [entry.message]
      else g.saidBy n k := by
  rw [saidBy, history_append]
  by_cases hk : some k = key
  · subst hk
    by_cases hn : entry.sender = n
    · simp [saidBy, hn]
    · simp [saidBy, hn]
  · rw [if_neg hk, if_neg fun h => hk h.1.symm, saidBy]

theorem saidBy_congr (h : g'.chatHistories = g.chatHistories) (n k : Str) :
    g'.saidBy n k = g.saidBy n k := by
  simp only [saidBy, history, h]

/-! ## What the user does -/

/-- A notice stands under System. -/
theorem grows_systemNotice (g : ChatGui) (timestamp text : Str) :
    Grows (· ∈ reserved) g (g.systemNotice timestamp text) :=
  .append g _ (List.mem_cons_self ..)

/-- Making a group adds notices only. -/
theorem grows_newGroup (g : ChatGui) (m : Moment) (groupName members : Option Str) :
    Grows (· ∈ reserved) g (g.newGroup m groupName members) := by
  rcases groupName with _ | groupName
  · exact .refl g
  rcases members with _ | members
  · exact .refl g
  simp only [newGroup]
  split
  · exact .refl g
  split
  · exact grows_systemNotice g _ _
  · split
    · refine .of_eq ?_ fun k => ?_
      · split_ifs
        · rfl
        · rfl
      · split_ifs
        · rfl
        · exact history_setDefault _ _ k
    · exact (grows_systemNotice g _ _).trans (grows_systemNotice _ _ _)
    · exact .refl g

/-- A text that is sent stands under You; one that is refused makes a notice, if anything. -/
theorem grows_send (g : ChatGui) (m : Moment) (entry : Str) :
    Grows (· ∈ reserved) g (g.send m entry) := by
  rw [send]
  split
  · exact .refl g
  · dsimp only
    split
    · exact .refl g
    · split
      · exact .append g _ (List.mem_cons_of_mem _ (List.mem_cons_self ..))
      · exact grows_systemNotice g _ _
      · exact .refl g

/-- A file makes notices. -/
theorem grows_upload (g : ChatGui) (printable : CodePoint → Bool) (m : Moment) (filePath : Str)
    (contents : Except Str Bytes) :
    Grows (· ∈ reserved) g (g.upload printable m filePath contents) := by
  rw [upload]
  split
  · exact .refl g
  · split
    · exact .refl g
    · split
      · exact grows_systemNotice g _ _
      · exact grows_systemNotice g _ _
      · exact .refl g
      · exact .refl g

/-- **What the user does stands under the two words.** -/
theorem grows_user (g : ChatGui) (printable : CodePoint → Bool) (m : Moment)
    (he : e.byUser = true) : Grows (· ∈ reserved) g (g.handle printable (m, e)) := by
  cases e with
  | message | userList => cases he
  | newGroup groupName members => exact grows_newGroup g m groupName members
  | switchUser selection =>
    simp only [handle, switchUser]
    split
    · exact .refl g
    · exact .of_eq rfl fun _ => rfl
  | send entry => exact grows_send g m entry
  | upload filePath contents => exact grows_upload g printable m filePath contents

/-- A text that went out to a user stands in the conversation with them. -/
theorem saidBy_sent {r : Method} {text s : Str} {note : Option Str} (hr : g.method e = some r)
    (hcall : r.call printable m.send g.username m.utcnow = .sent text note)
    (hs : r.textFor k = some s) (hk : k.head? ≠ some (cp '#')) :
    (g.handle printable (m, e)).saidBy (str "You") k = g.saidBy (str "You") k ++ [.str s] := by
  cases e with
  | send entry =>
    simp only [method] at hr
    split at hr
    · cases hr
    · rename_i activeUser hactive
      split_ifs at hr with hempty hhash
      · obtain rfl := Option.some.inj hr
        rw [Method.textFor] at hs
        split_ifs at hs with hkey
        subst hkey
        exact absurd rfl hk
      · obtain rfl := Option.some.inj hr
        rw [Method.textFor] at hs
        split_ifs at hs with hkey
        obtain rfl := Option.some.inj hs
        subst hkey
        have hsent : ChatClient.sendMessage m.send g.username m.utcnow activeUser (strip entry) =
            .sent text note := hcall
        simp only [handle, send, hactive, if_neg hempty, if_neg hhash, hsent]
        rw [saidBy_append, if_pos ⟨rfl, rfl⟩]
  | newGroup groupName members =>
    rcases groupName with _ | groupName
    · cases hr
    rcases members with _ | members
    · cases hr
    simp only [method] at hr
    split_ifs at hr
    obtain rfl := Option.some.inj hr
    cases hs
  | upload filePath contents =>
    simp only [method] at hr
    split at hr
    · cases hr
    · split_ifs at hr
      · obtain rfl := Option.some.inj hr
        cases hs
      · obtain rfl := Option.some.inj hr
        cases hs
  | _ => cases hr

/-! ## What is received -/

/-- **What a callback adds to a conversation**: the text that it was given, if it has the sender and
the conversation. -/
theorem saidBy_take (g : ChatGui) (timestamp : Str) (effect : Effect) (hn : n ∉ reserved)
    (hk : k ≠ str "System") :
    (g.take timestamp effect).saidBy n k = g.saidBy n k ++ (effect.said n k).toList := by
  have hsystem : str "System" ≠ n := by
    rintro rfl
    exact hn (List.mem_cons_self ..)
  cases effect with
  | userList users =>
    have hnone : (Effect.userList users).said n k = none := rfl
    rw [hnone, Option.toList_none, List.append_nil, take]
    rcases users.strings with _ | us
    · rfl
    · rfl
  | received chat message sender =>
    rw [take, Effect.said, onMessageReceived]
    rcases hchat : formatUsername chat with _ | chat'
    · simp
    rcases hsender : formatUsername (if sender.truthy then sender else chat) with _ | sender'
    · simp
    simp only [Option.bind_eq_bind, Option.bind_some, Option.some.injEq]
    have hentry : ∀ g'' : ChatGui, g''.chatHistories =
        (g.append (some chat') ⟨timestamp, sender', message⟩).chatHistories →
        g''.saidBy n k =
          g.saidBy n k ++ (if chat' = k ∧ sender' = n then some message else none).toList := by
      intro g'' hg''
      rw [saidBy_congr hg'', saidBy_append]
      simp only [Option.some.injEq]
      split_ifs
      · rfl
      · simp
    by_cases hreserved : chat' = str "System"
    · -- a notice, in the conversation that is open
      have hother : ¬ (chat' = k ∧ sender' = n) := fun h => hk (h.1.symm.trans hreserved)
      have hnotice : ¬ (g.activeUser = some k ∧ str "System" = n) := fun h => hsystem h.2
      rw [if_pos hreserved, Option.getD_some, saidBy_append, if_neg hnotice, if_neg hother,
        Option.toList_none, List.append_nil]
    · rw [if_neg hreserved]
      by_cases hnew : chat' ≠ g.username ∧ chat' ∉ g.userListbox.map formatName
      · rw [if_pos hnew]
        exact hentry _ rfl
      · rw [if_neg hnew]
        exact hentry _ rfl
  | _ => simp [take, Effect.said]

/-- And all the callbacks of a round, in their order. -/
theorem saidBy_round (g : ChatGui) (timestamp : Str) (effects : List Effect) (hn : n ∉ reserved)
    (hk : k ≠ str "System") : (g.round timestamp effects).saidBy n k =
      g.saidBy n k ++ effects.filterMap (Effect.said n k) := by
  induction effects generalizing g with
  | nil => simp [round]
  | cons effect effects ih =>
    have hround : g.round timestamp (effect :: effects) =
        (g.take timestamp effect).round timestamp effects := rfl
    rw [hround, ih, saidBy_take g timestamp effect hn hk, List.append_assoc, List.filterMap_cons]
    rcases effect.said n k with _ | v
    · rfl
    · rfl

/-- A callback removes nothing. -/
theorem grows_take (g : ChatGui) (timestamp : Str) (effect : Effect) :
    Grows (fun _ => True) g (g.take timestamp effect) := by
  cases effect with
  | userList users =>
    rw [take]
    rcases users.strings with _ | us
    · exact .refl g
    · exact .of_eq rfl fun _ => rfl
  | received chat message sender =>
    rw [take, onMessageReceived]
    rcases formatUsername chat with _ | chat'
    · exact .refl g
    rcases formatUsername (if sender.truthy then sender else chat) with _ | sender'
    · exact .refl g
    simp only [Option.bind_eq_bind, Option.bind_some]
    have happend : ∀ k entry, Grows (fun _ => True) g (g.append k entry) :=
      fun k entry => .append g k trivial
    split_ifs
    · exact happend _ _
    · exact (happend _ _).insert chat'
    · exact happend _ _
  | _ => exact .refl g

/-- Nor does a round. -/
theorem grows_round (g : ChatGui) (timestamp : Str) (effects : List Effect) :
    Grows (fun _ => True) g (g.round timestamp effects) := by
  induction effects generalizing g with
  | nil => exact .refl g
  | cons effect effects ih => exact (grows_take g timestamp effect).trans (ih _)

/-- What is received opens no other conversation. -/
theorem activeUser_take (g : ChatGui) (timestamp : Str) (effect : Effect) :
    (g.take timestamp effect).activeUser = g.activeUser := by
  cases effect with
  | userList users =>
    rw [take]
    rcases users.strings with _ | us
    · rfl
    · rfl
  | received chat message sender =>
    rw [take, onMessageReceived]
    rcases formatUsername chat with _ | chat'
    · rfl
    rcases formatUsername (if sender.truthy then sender else chat) with _ | sender'
    · rfl
    simp only [Option.bind_eq_bind, Option.bind_some]
    split_ifs
    · rfl
    · rfl
    · rfl
  | _ => rfl

/-- Nor do all that a round receives. -/
theorem activeUser_round (g : ChatGui) (timestamp : Str) (effects : List Effect) :
    (g.round timestamp effects).activeUser = g.activeUser := by
  induction effects generalizing g with
  | nil => rfl
  | cons effect effects ih => exact (ih _).trans (activeUser_take g timestamp effect)

/-- The call behind an event is a matter of the user and the open conversation. -/
theorem method_congr (hname : g'.username = g.username) (hactive : g'.activeUser = g.activeUser)
    (e : GuiEvent) : g'.method e = g.method e := by
  cases e with
  | newGroup groupName members =>
    rcases groupName with _ | groupName
    · rfl
    rcases members with _ | members
    · rfl
    simp only [method, hname]
  | send entry => simp only [method, hactive]
  | upload filePath contents => simp only [method, hactive]
  | _ => rfl

/-- So a round between a send and the rest of its event changes nothing there. -/
theorem method_round (g : ChatGui) (timestamp : Str) (effects : List Effect) (e : GuiEvent) :
    (g.round timestamp effects).method e = g.method e :=
  method_congr (grows_round g timestamp effects).username (activeUser_round g timestamp effects) e

/-- The user stays the same. -/
theorem username_handle (g : ChatGui) (printable : CodePoint → Bool) (p : Moment × GuiEvent) :
    (g.handle printable p).username = g.username := by
  obtain ⟨m, e⟩ := p
  cases e with
  | message fromUser message sender =>
    exact (grows_take g m.timestamp (.received fromUser message sender)).username
  | userList => rfl
  | newGroup | switchUser | send | upload => exact (grows_user g printable m rfl).username

end ChatGui

/-! ## Between the two -/

variable {F : Json.Interpreter} {printable : CodePoint → Bool} {root : MediaRoot} {disk : Disk}
  {username n k : Str}

open ChatGui

/-- A notice stands under no name. -/
theorem said_notice (hn : n ∉ reserved) (chat message : Json) :
    (Effect.received chat message (.str (str "System"))).said n k = none := by
  have hformat : formatUsername (.str (str "System")) = some (str "System") := by decide
  have hsystem : str "System" ≠ n := by
    rintro rfl
    exact hn (List.mem_cons_self ..)
  have htruthy : (Json.str (str "System")).truthy = true := rfl
  rw [Effect.said, htruthy, if_pos rfl, hformat, if_neg]
  exact fun h => hsystem (Option.some.inj h.2)

/-- A file is announced by a notice. -/
theorem said_receiveFile (hn : n ∉ reserved) (p : Payload) :
    (receiveFile printable root username disk p).effects.filterMap (Effect.said n k) = [] := by
  simp only [receiveFile]
  split
  · rfl
  · split
    · rfl
    · split
      · rfl
      · split
        · rfl
        · rw [List.filterMap_cons, List.filterMap_cons, said_notice hn]
          rfl

/-- **What a payload adds to a conversation** is the text in it. -/
theorem said_receiveObject (hn : n ∉ reserved) (p : Payload) :
    (receiveObject printable root username disk p).effects.filterMap (Effect.said n k) =
      (p.said printable n k).toList := by
  have hone : ∀ effect : Effect, [effect].filterMap (Effect.said n k) =
      (effect.said n k).toList := by
    intro effect
    rw [List.filterMap_cons]
    rcases effect.said n k with _ | v
    · rfl
    · rfl
  rw [Payload.said]
  by_cases hmessage : (p.find (str "type")).isStr (str "message") = true
  · have hround : receiveObject printable root username disk p = _ :=
      receive_message (Json.isStr_iff.mp hmessage)
    rw [if_pos hmessage, hround, hone]
  rw [if_neg hmessage]
  by_cases hgroup : (p.find (str "type")).isStr (str "group_message") = true
  · have hround : receiveObject printable root username disk p = _ :=
      receive_groupMessage (Json.isStr_iff.mp hgroup)
    rw [if_pos hgroup, hround, hone]
  rw [if_neg hgroup, receiveObject]
  simp only [if_neg hmessage, if_neg hgroup]
  split_ifs
  · rfl
  · rfl
  · rfl
  · rw [hone, said_notice hn]
  · rw [hone, said_notice hn]
  · exact said_receiveFile hn p
  · rfl

/-- **One round of the client**, whatever the disk does. -/
theorem said_receive (hn : n ∉ reserved) (disk : Disk) (v : Json) :
    (receive printable root username disk v).effects.filterMap (Effect.said n k) =
      (v.said printable n k).toList := by
  cases v with
  | obj p => exact said_receiveObject hn p
  | _ => rfl

/-- A file is no text. -/
theorem sent_transfer {send : Str → Option Str} {now : UtcTime} {text : Str} {note : Option Str}
    {type toType : String} {recipient target filePath : Str} {contents : Except Str Bytes}
    (hname : SafeName 32 username) (hto : SafeName 48 recipient)
    (hconversation : ∀ encodedFile filename, (filePayload (str type) username recipient
      (str toType) encodedFile filename now.isoformat).conversation = none)
    (h : sendTransfer printable send username now (str type) recipient (str toType) target filePath
      contents = .sent text note) :
    ∃ o : Payload, Json.loads F text = some (.obj o) ∧ ∀ k, o.textFor k = none := by
  cases contents with
  | error e =>
    rw [sendTransfer] at h
    split_ifs at h
  | ok file =>
    obtain ⟨⟨hcheck, -, -⟩, -, rfl, -⟩ := sendTransfer_sent.mp h
    have hsafe := (transferFilename_kept hcheck).2
    refine ⟨_, Json.loads_dumps (canonical_filePayload type toType file now hname hto hsafe),
      fun k => ?_⟩
    rw [Payload.textFor, hconversation, if_neg (by rintro ⟨⟩)]

/-- A text is for its recipient. -/
theorem sent_message {type toType : String} {recipient message : Str} {now : UtcTime}
    (hname : SafeName 32 username) (hto : ∀ c ∈ recipient, c.val < 0x80)
    {conversation : Str} (hconversation : ∀ message, (textPayload (str type) username recipient
      (str toType) message now.isoformat).conversation = some conversation) :
    ∃ o : Payload, Json.loads F (Json.dumps (.obj (textPayload (str type) username recipient
      (str toType) message now.isoformat))) = some (.obj o) ∧
      ∀ k, o.textFor k = (if conversation = k then some message else none).map
        fun s => .str (Json.rejoined s) := by
  refine ⟨textPayload (str type) username recipient (str toType) (Json.rejoined message)
    now.isoformat, ?_, fun k => ?_⟩
  · rw [dumps_textPayload]
    exact Json.loads_dumps (canonical_textPayload type toType hname hto
      (Json.joined_rejoined message))
  · rw [Payload.textFor, hconversation]
    simp only [Option.some.injEq]
    split_ifs
    · rfl
    · rfl

/-- **What a call puts on the wire**: an object that comes back, with the text that it is for. -/
theorem sent_text {r : Method} {send : Str → Option Str} {now : UtcTime} {text : Str}
    {note : Option Str} (hname : SafeName 32 username)
    (h : r.call printable send username now = .sent text note) :
    ∃ o : Payload, Json.loads F text = some (.obj o) ∧
      ∀ k, o.textFor k = (r.textFor k).map fun s => .str (Json.rejoined s) := by
  cases r with
  | sendMessage u message =>
    obtain ⟨hu, rfl, -⟩ := sendMessage_sent h
    exact sent_message hname hu.ascii fun _ => rfl
  | sendGroupMessage g message =>
    obtain ⟨hg, rfl, -⟩ := sendGroupMessage_sent h
    exact sent_message hname hg.ascii fun _ => rfl
  | createGroup g ms =>
    obtain ⟨hg, hms, rfl⟩ := createGroup_sent h
    exact ⟨_, Json.loads_dumps (canonical_groupPayload now hname hg hms), fun _ => rfl⟩
  | sendFile u path contents =>
    obtain ⟨hu, h⟩ := checked_eq_sent.mp h
    obtain ⟨u, hu, hto⟩ := isSafeUsername_iff.mp hu
    obtain rfl := Json.str.inj hu
    exact sent_transfer hname ⟨hto.1, hto.2.1.trans (by decide), hto.2.2⟩ (fun _ _ => rfl) h
  | sendGroupFile g path contents =>
    obtain ⟨hg, h⟩ := checked_eq_sent.mp h
    obtain ⟨g, hg, hto⟩ := isSafeGroupName_iff.mp hg
    obtain rfl := Json.str.inj hg
    exact sent_transfer hname hto (fun _ _ => rfl) h

end GuardedIM
