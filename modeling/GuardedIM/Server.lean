import GuardedIM.Dispatch
import GuardedIM.Interleave

/-!
# The chat server: `server/server.py`

One thread per connection runs `handle_client` over the tables `clients` and `groups`.
A step of a handler is what it does between two points where another thread can get in:
one locked section, one read from its socket, or one `send_payload`. Everything outside
the program is an input of the step: what was read, and whether `sendall` succeeded.

`Phase` says where in `handle_client` a thread is and holds its local variables.
`handleClient` executes a step, `Moves` lists the steps one by one, and
`handleClient_moves` connects the two. Every proof about the server goes through `Moves`.

The events are the history that the theorems are about: what was registered, looked up,
stored, snapshot and written, by which handler.
-/

namespace GuardedIM

/-- A connection, by the number of the thread that handles it. -/
abbrev Conn := ℕ

/-- An entry of `clients`: a connection and the key to write to it with. -/
abbrev Target := Conn × Key

/-- The two tables behind `state_lock`. -/
structure Tables where
  /-- `clients`: username to connection and AES key -/
  clients : Dict Str Target
  /-- `groups`: group name to its member list -/
  groups : Dict Str (List Str)

/-- The locals `aes_key` and `username` of a handler past its name check. -/
structure Session where
  /-- `aes_key` -/
  key : Key
  /-- `username` -/
  name : Str
  deriving DecidableEq

/-- Where a handler is. -/
inductive Phase where
  /-- the connection has not been accepted yet -/
  | idle
  /-- before `recv_exact_socket(conn, 256)` -/
  | readKey
  /-- before `conn.recv(1024)` -/
  | readName (key : Key)
  /-- before `send_error(…, "Invalid username.")` -/
  | refuse (key : Key) (username : Str)
  /-- before the locked check and insertion -/
  | register (σ : Session)
  /-- before `list(clients.keys())` for the first list -/
  | firstList (σ : Session)
  /-- before the first list is sent -/
  | sendFirst (σ : Session) (users : List Str)
  /-- before the snapshot of `broadcast_user_list`; without a session, in `finally` -/
  | broadcast (σ : Option Session)
  /-- in the loop of `broadcast_user_list` -/
  | listing (σ : Option Session) (usernames : List Str) (targets : List Target)
  /-- before `read_frame` -/
  | loop (σ : Session)
  /-- a request has passed its own checks -/
  | act (σ : Session) (a : Action)
  /-- in `forward_payload`, before the send -/
  | forwardTo (σ : Session) (t : Target) (payload : Payload)
  /-- in a loop over members, before the next lookup; `ack` is sent after the loop -/
  | cast (σ : Session) (members : List Str) (payload : Payload) (ack : Option Payload)
  /-- in a loop over members, before the send to the one looked up -/
  | castTo (σ : Session) (t : Target) (members : List Str) (payload : Payload)
      (ack : Option Payload)
  /-- in `finally`, before the locked removal -/
  | cleanup (username : Option Str)
  /-- before `conn.close()` -/
  | close
  /-- the handler has returned -/
  | closed

/-- What comes from outside the program during one step. -/
inductive Input where
  /-- the listener hands over the connection -/
  | accept
  /-- what `private_key.decrypt` made of 256 bytes; `none` when either raised -/
  | key (aesKey : Option Key)
  /-- the text of `conn.recv(1024).decode()`; `none` when either raised -/
  | name (text : Option Str)
  /-- a frame that decrypts to a JSON object, and the clock's `isoformat()` -/
  | frame (o : Payload) (now : Str)
  /-- a frame that does not -/
  | junk
  /-- no further frame: `read_frame` returned `None` or raised -/
  | eof
  /-- nothing -/
  | run
  /-- whether the `sendall` of this step returned -/
  | sent (ok : Bool)

/-- What a step reports. -/
inductive Event where
  /-- the handler of `c` decrypted its AES key -/
  | handshake (c : Conn) (key : Key)
  /-- the handler of `c` inserted its entry -/
  | registered (c : Conn) (σ : Session)
  /-- the handler of `c` ran the locked part of its `finally` -/
  | cleaned (c : Conn)
  /-- the handler of `c` read the object `o` -/
  | frame (c : Conn) (o : Payload)
  /-- the handler of `c` looked up a username -/
  | looked (c : Conn) (username : Str) (target : Option Target)
  /-- the handler of `c` stored a new group -/
  | grouped (c : Conn) (groupName : Str) (members : List Str)
  /-- the handler of `c` took a snapshot of `clients` -/
  | snapshot (c : Conn)
  /-- the handler of `c` ran `send_payload`; `ok` when it returned -/
  | wrote (c : Conn) (t : Target) (payload : Payload) (ok : Bool)

/-- `send_payload` raises where `AESGCM` rejects the key or `sendall` raises. -/
def sendPayload (c : Conn) (t : Target) (payload : Payload) (ok : Bool) : Event :=
  .wrote c t payload (usable t.2 && ok)

/-- The payload of a `user_list`. -/
def userList (usernames : List Str) : Payload :=
  [(str "type", .str (str "user_list")), (str "users", .arr (usernames.map .str))]

/-- The payload of a `group_invite`. -/
def groupInvite (groupName : Str) (members : List Str) : Payload :=
  [(str "type", .str (str "group_invite")), (str "group_name", .str groupName),
    (str "members", .arr (members.map .str))]

/-- The payload of a `group_created`. -/
def groupCreated (groupName : Str) : Payload :=
  [(str "type", .str (str "group_created")), (str "group_name", .str groupName)]

/-- `if username in clients and clients[username][0] is conn: del clients[username]` -/
def removeOwn (c : Conn) (username : Option Str) (clients : Dict Str Target) :
    Dict Str Target :=
  match username with
  | none => clients
  | some u =>
    match Dict.get clients u with
    | some t => if t.1 = c then Dict.erase clients u else clients
    | none => clients

/-- The connection and key a handler writes its own answers with. -/
def Session.target (σ : Session) (c : Conn) : Target := (c, σ.key)

/-- `not members or username not in members` does not hold. -/
def isMember (username : Str) (members : Option (List Str)) : Bool :=
  match members with
  | some ms => decide (username ∈ ms)
  | none => false

variable (printable : CodePoint → Bool)

/-- One step of the handler of `c`. Events are newest first. -/
def handleClient (c : Conn) (tb : Tables) : Phase → Input → Option (Tables × Phase × List Event)
  | .idle, .accept => some (tb, .readKey, [])
  | .readKey, .key none => some (tb, .cleanup none, [])
  | .readKey, .key (some k) => some (tb, .readName k, [.handshake c k])
  | .readName _, .name none => some (tb, .cleanup none, [])
  | .readName k, .name (some text) =>
    let username := strip text
    if username = [] then some (tb, .cleanup (some username), [])
    else
      match isSafeUsername (.str username) with
      | .ok true => some (tb, .register ⟨k, username⟩, [])
      | _ => some (tb, .refuse k username, [])
  | .refuse k username, .sent ok =>
    some (tb, .cleanup (some username),
      [sendPayload c (c, k) (errorPayload (str "Invalid username.")) ok])
  | .register σ, .sent ok =>
    -- the duplicate is refused with the lock still held
    if (Dict.get tb.clients σ.name).isSome then
      some (tb, .cleanup (some σ.name),
        [sendPayload c (σ.target c) (errorPayload (str "Username already connected.")) ok])
    else none
  | .register σ, .run =>
    if (Dict.get tb.clients σ.name).isSome then none
    else
      some ({ tb with clients := Dict.set tb.clients σ.name (c, σ.key) }, .firstList σ,
        [.registered c σ])
  | .firstList σ, .run => some (tb, .sendFirst σ (Dict.keys tb.clients), [.snapshot c])
  | .sendFirst σ users, .sent ok =>
    some (tb, .broadcast (some σ), [sendPayload c (σ.target c) (userList users) ok])
  | .broadcast σ, .run =>
    some (tb, .listing σ (Dict.keys tb.clients) (Dict.values tb.clients), [.snapshot c])
  | .listing σ usernames (t :: targets), .sent ok =>
    some (tb, .listing σ usernames targets, [sendPayload c t (userList usernames) ok])
  | .listing (some σ) _ [], .run => some (tb, .loop σ, [])
  | .listing none _ [], .run => some (tb, .close, [])
  | .loop σ, .eof => some (tb, .cleanup (some σ.name), [])
  | .loop σ, .junk => some (tb, .loop σ, [])
  | .loop σ, .frame o now =>
    match dispatch printable σ.name now o with
    | .ok a => some (tb, .act σ a, [.frame c o])
    | .error _ => some (tb, .loop σ, [.frame c o])
  | .act σ .ignore, .run => some (tb, .loop σ, [])
  | .act σ (.reply payload), .sent ok =>
    some (tb, .loop σ, [sendPayload c (σ.target c) payload ok])
  | .act σ (.create groupName members), .run =>
    if (Dict.get tb.groups groupName).isSome then
      some (tb, .act σ (.reply (errorPayload (str "Group already exists."))), [])
    else
      some ({ tb with groups := Dict.set tb.groups groupName members },
        .cast σ members (groupInvite groupName members) (some (groupCreated groupName)),
        [.grouped c groupName members])
  | .act σ (.fanOut groupName payload), .run =>
    let members := Dict.get tb.groups groupName
    if isMember σ.name members then some (tb, .cast σ (members.getD []) payload none, [])
    else some (tb, .act σ (.reply (errorPayload (str "Not a member of that group."))), [])
  | .act σ (.forward toUser payload), .run =>
    let target := Dict.get tb.clients toUser
    match target with
    | some t => some (tb, .forwardTo σ t payload, [.looked c toUser target])
    | none => some (tb, .loop σ, [.looked c toUser target])
  | .forwardTo σ t payload, .sent ok => some (tb, .loop σ, [sendPayload c t payload ok])
  | .cast σ (member :: members) payload ack, .run =>
    let target := Dict.get tb.clients member
    match target with
    | some t =>
      if member = σ.name then some (tb, .cast σ members payload ack, [.looked c member target])
      else some (tb, .castTo σ t members payload ack, [.looked c member target])
    | none => some (tb, .cast σ members payload ack, [.looked c member target])
  | .cast σ [] _ none, .run => some (tb, .loop σ, [])
  | .cast σ [] _ (some ack), .run => some (tb, .act σ (.reply ack), [])
  | .castTo σ t members payload ack, .sent ok =>
    -- an exception leaves the whole loop
    let e := sendPayload c t payload ok
    if usable t.2 && ok then some (tb, .cast σ members payload ack, [e])
    else some (tb, .loop σ, [e])
  | .cleanup username, .run =>
    some ({ tb with clients := removeOwn c username tb.clients }, .broadcast none, [.cleaned c])
  | .close, .run => some (tb, .closed, [])
  | _, _ => none

/-- The server: one handler thread per connection. -/
def server : Interleave.Program Conn Tables Phase Input Event where
  memory := ⟨[], []⟩
  start := .idle
  step := handleClient printable

/-- Every step of the handler of `c`, one constructor each. -/
inductive Moves (c : Conn) (tb : Tables) :
    Phase → Tables → Phase → List Event → Prop where
  | accept : Moves c tb .idle tb .readKey []
  | noKey : Moves c tb .readKey tb (.cleanup none) []
  | key (k : Key) : Moves c tb .readKey tb (.readName k) [.handshake c k]
  | noName (k : Key) : Moves c tb (.readName k) tb (.cleanup none) []
  | emptyName (k : Key) : Moves c tb (.readName k) tb (.cleanup (some [])) []
  | goodName (k : Key) (u : Str) : SafeName 32 u →
      Moves c tb (.readName k) tb (.register ⟨k, u⟩) []
  | badName (k : Key) (u : Str) : ¬ SafeName 32 u → Moves c tb (.readName k) tb (.refuse k u) []
  | refuse (k : Key) (u : Str) (ok : Bool) :
      Moves c tb (.refuse k u) tb (.cleanup (some u))
        [sendPayload c (c, k) (errorPayload (str "Invalid username.")) ok]
  | duplicate (σ : Session) (t : Target) (ok : Bool) : Dict.get tb.clients σ.name = some t →
      Moves c tb (.register σ) tb (.cleanup (some σ.name))
        [sendPayload c (σ.target c) (errorPayload (str "Username already connected.")) ok]
  | register (σ : Session) : Dict.get tb.clients σ.name = none →
      Moves c tb (.register σ) ⟨Dict.set tb.clients σ.name (c, σ.key), tb.groups⟩
        (.firstList σ) [.registered c σ]
  | firstList (σ : Session) :
      Moves c tb (.firstList σ) tb (.sendFirst σ (Dict.keys tb.clients)) [.snapshot c]
  | sendFirst (σ : Session) (users : List Str) (ok : Bool) :
      Moves c tb (.sendFirst σ users) tb (.broadcast (some σ))
        [sendPayload c (σ.target c) (userList users) ok]
  | snapshot (so : Option Session) :
      Moves c tb (.broadcast so) tb
        (.listing so (Dict.keys tb.clients) (Dict.values tb.clients)) [.snapshot c]
  | list (so : Option Session) (users : List Str) (t : Target) (ts : List Target) (ok : Bool) :
      Moves c tb (.listing so users (t :: ts)) tb (.listing so users ts)
        [sendPayload c t (userList users) ok]
  | listed (σ : Session) (users : List Str) :
      Moves c tb (.listing (some σ) users []) tb (.loop σ) []
  | unlisted (users : List Str) : Moves c tb (.listing none users []) tb .close []
  | eof (σ : Session) : Moves c tb (.loop σ) tb (.cleanup (some σ.name)) []
  | junk (σ : Session) : Moves c tb (.loop σ) tb (.loop σ) []
  | request (σ : Session) (o : Payload) (now : Str) (a : Action) :
      dispatch printable σ.name now o = .ok a →
      Moves c tb (.loop σ) tb (.act σ a) [.frame c o]
  | raises (σ : Session) (o : Payload) : Moves c tb (.loop σ) tb (.loop σ) [.frame c o]
  | ignore (σ : Session) : Moves c tb (.act σ .ignore) tb (.loop σ) []
  | reply (σ : Session) (p : Payload) (ok : Bool) :
      Moves c tb (.act σ (.reply p)) tb (.loop σ) [sendPayload c (σ.target c) p ok]
  | groupExists (σ : Session) (g : Str) (ms : List Str) :
      Moves c tb (.act σ (.create g ms)) tb
        (.act σ (.reply (errorPayload (str "Group already exists.")))) []
  | create (σ : Session) (g : Str) (ms : List Str) : Dict.get tb.groups g = none →
      Moves c tb (.act σ (.create g ms)) ⟨tb.clients, Dict.set tb.groups g ms⟩
        (.cast σ ms (groupInvite g ms) (some (groupCreated g))) [.grouped c g ms]
  | fanOut (σ : Session) (g : Str) (p : Payload) (ms : List Str) :
      Dict.get tb.groups g = some ms → σ.name ∈ ms →
      Moves c tb (.act σ (.fanOut g p)) tb (.cast σ ms p none) []
  | notMember (σ : Session) (g : Str) (p : Payload) :
      Moves c tb (.act σ (.fanOut g p)) tb
        (.act σ (.reply (errorPayload (str "Not a member of that group.")))) []
  | found (σ : Session) (u : Str) (p : Payload) (t : Target) : Dict.get tb.clients u = some t →
      Moves c tb (.act σ (.forward u p)) tb (.forwardTo σ t p) [.looked c u (some t)]
  | missing (σ : Session) (u : Str) (p : Payload) : Dict.get tb.clients u = none →
      Moves c tb (.act σ (.forward u p)) tb (.loop σ) [.looked c u none]
  | forward (σ : Session) (t : Target) (p : Payload) (ok : Bool) :
      Moves c tb (.forwardTo σ t p) tb (.loop σ) [sendPayload c t p ok]
  | member (σ : Session) (m : Str) (ms : List Str) (p : Payload) (ack : Option Payload)
      (t : Target) : Dict.get tb.clients m = some t → m ≠ σ.name →
      Moves c tb (.cast σ (m :: ms) p ack) tb (.castTo σ t ms p ack) [.looked c m (some t)]
  | skip (σ : Session) (m : Str) (ms : List Str) (p : Payload) (ack : Option Payload) :
      m = σ.name ∨ Dict.get tb.clients m = none →
      Moves c tb (.cast σ (m :: ms) p ack) tb (.cast σ ms p ack)
        [.looked c m (Dict.get tb.clients m)]
  | castEnd (σ : Session) (p : Payload) : Moves c tb (.cast σ [] p none) tb (.loop σ) []
  | castAck (σ : Session) (p ack : Payload) :
      Moves c tb (.cast σ [] p (some ack)) tb (.act σ (.reply ack)) []
  | castSent (σ : Session) (t : Target) (ms : List Str) (p : Payload) (ack : Option Payload) :
      usable t.2 = true →
      Moves c tb (.castTo σ t ms p ack) tb (.cast σ ms p ack) [.wrote c t p true]
  | castFailed (σ : Session) (t : Target) (ms : List Str) (p : Payload) (ack : Option Payload) :
      Moves c tb (.castTo σ t ms p ack) tb (.loop σ) [.wrote c t p false]
  | cleanup (uo : Option Str) :
      Moves c tb (.cleanup uo) ⟨removeOwn c uo tb.clients, tb.groups⟩ (.broadcast none)
        [.cleaned c]
  | close : Moves c tb .close tb .closed []

variable {printable}

/-- **The inversion lemma of `handleClient`.** -/
theorem handleClient_moves {c : Conn} {tb : Tables} {ph : Phase} {i : Input}
    {m : Tables × Phase × List Event} (h : handleClient printable c tb ph i = some m) :
    Moves printable c tb ph m.1 m.2.1 m.2.2 := by
  simp only [handleClient] at h
  split at h
  case h_5 k text =>
    -- the username
    split at h
    · rename_i hempty
      obtain rfl := Option.some.inj h
      rw [hempty]
      exact .emptyName k
    · split at h
      · rename_i hsafe
        obtain rfl := Option.some.inj h
        obtain ⟨u, hu, hsafe⟩ := isSafeUsername_iff.mp hsafe
        obtain rfl := Json.str.inj hu
        exact .goodName k _ hsafe
      · rename_i hunsafe
        obtain rfl := Option.some.inj h
        exact .badName k _ fun hsafe => hunsafe (isSafeUsername_iff.mpr ⟨_, rfl, hsafe⟩)
  case h_7 σ ok =>
    split_ifs at h with htaken
    obtain rfl := Option.some.inj h
    obtain ⟨t, ht⟩ := Option.isSome_iff_exists.mp htaken
    exact .duplicate σ t ok ht
  case h_8 σ =>
    split_ifs at h with hfree
    obtain rfl := Option.some.inj h
    exact .register σ (Option.not_isSome_iff_eq_none.mp hfree)
  case h_17 σ o now =>
    split at h
    · rename_i a ha
      obtain rfl := Option.some.inj h
      exact .request σ o now a ha
    · obtain rfl := Option.some.inj h
      exact .raises σ o
  case h_20 σ g ms =>
    split_ifs at h with hexists
    · obtain rfl := Option.some.inj h
      exact .groupExists σ g ms
    · obtain rfl := Option.some.inj h
      exact .create σ g ms (Option.not_isSome_iff_eq_none.mp hexists)
  case h_21 σ g p =>
    split_ifs at h with hmember
    · obtain rfl := Option.some.inj h
      rcases hg : Dict.get tb.groups g with _ | ms
      · rw [hg] at hmember
        cases hmember
      · rw [hg] at hmember
        exact .fanOut σ g p ms hg (of_decide_eq_true hmember)
    · obtain rfl := Option.some.inj h
      exact .notMember σ g p
  case h_22 σ u p =>
    split at h
    · rename_i t ht
      obtain rfl := Option.some.inj h
      rw [ht]
      exact .found σ u p t ht
    · rename_i hnone
      obtain rfl := Option.some.inj h
      rw [hnone]
      exact .missing σ u p hnone
  case h_24 σ u ms p ack =>
    split at h
    · rename_i t ht
      split_ifs at h with hself
      · obtain rfl := Option.some.inj h
        exact .skip σ u ms p ack (.inl hself)
      · obtain rfl := Option.some.inj h
        rw [ht]
        exact .member σ u ms p ack t ht hself
    · rename_i hnone
      obtain rfl := Option.some.inj h
      exact .skip σ u ms p ack (.inr hnone)
  case h_27 σ t ms p ack ok =>
    rw [sendPayload] at h
    split_ifs at h with hok
    · obtain rfl := Option.some.inj h
      rw [hok]
      exact .castSent σ t ms p ack (Bool.and_eq_true_iff.mp hok).1
    · obtain rfl := Option.some.inj h
      rw [Bool.not_eq_true] at hok
      rw [hok]
      exact .castFailed σ t ms p ack
  case h_30 => cases h
  all_goals
    -- one step without a branch
    obtain rfl := Option.some.inj h
    constructor

/-- The same for a step of the server. -/
theorem server_moves {c : Conn} {tb : Tables} {ph : Phase} {i : Input}
    {m : Tables × Phase × List Event} (h : (server printable).step c tb ph i = some m) :
    Moves printable c tb ph m.1 m.2.1 m.2.2 := handleClient_moves h

end GuardedIM
