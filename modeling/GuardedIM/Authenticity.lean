import GuardedIM.Network

/-!
# Who wrote what is shown

On a network that may send frames again, to either side, a frame proves that its text was sealed
under the key, and no more: both directions of a connection use one key, so what the server wrote
to a client can come back to it as the client's own request.

* `shown_authentic`: for a text or a file to one user this does no harm. What a client shows as
  another user's was sealed by that user, for this client, with that content.
* `group_origin`: for a group it does. All that can be said is that some member sealed it for the
  group; `reflected` sends the post of one member out under the name of another.
* `replayed`: and one frame is delivered as often as the network likes.
-/

namespace GuardedIM

open Interleave Interleave.Program

/-- A key belongs to one name: no two users chose the same one. -/
def OneName (log : List Event) : Prop :=
  ∀ c c' σ σ', .registered c σ ∈ log → .registered c' σ' ∈ log → σ.key = σ'.key → σ.name = σ'.name

/-- One message, or one file. -/
structure SameContent (o p : Payload) : Prop where
  /-- of the same kind -/
  type : p.find (str "type") = o.find (str "type")
  /-- with the same text or data -/
  payload : p.find (str "payload") = o.find (str "payload")
  /-- under the same name -/
  filename : p.find (str "filename") = o.find (str "filename")

variable {A : Aead} {F : Json.Interpreter} {printable : CodePoint → Bool}
  {x : Config (Option Conn) Tables Phase NetEvent} {log past later : List NetEvent} {key : Key}
  {text username now u v g : Str} {σ : Session} {c d : Conn} {o p q : Payload} {t : Target}
  {ok : Bool}

theorem SameContent.trans (h : SameContent o p) (h' : SameContent p q) : SameContent o q where
  type := h'.type.trans h.type
  payload := h'.payload.trans h.payload
  filename := h'.filename.trans h.filename

/-! ## What is passed on -/

/-- What is passed on is what was asked for. -/
theorem Passes.sameContent {a : Action} (h : Passes printable username now o a)
    (ha : (∃ g, a = .fanOut g p) ∨ ∃ u, a = .forward u p) : SameContent o p where
  type := (h.type_kept ha).1
  payload := h.payload_kept ha
  filename := by
    have hof : (bindSender username o).find (str "filename") = o.find (str "filename") :=
      find_bindSender username o (by decide)
    cases h with
    | groupMessage =>
      obtain ⟨_, ⟨⟩⟩ | ⟨_, ⟨⟩⟩ := ha
      rw [find_groupText _ _ _ _ (by decide), hof]
    | message =>
      obtain ⟨_, ⟨⟩⟩ | ⟨_, ⟨⟩⟩ := ha
      rw [find_userText _ _ (by decide), hof]
    | groupFile | userFile =>
      obtain ⟨_, ⟨⟩⟩ | ⟨_, ⟨⟩⟩ := ha
      rw [find_fileOut _ _ (by decide), hof]
    | ignore | create => obtain ⟨_, ⟨⟩⟩ | ⟨_, ⟨⟩⟩ := ha

/-- The address of a file stays as it is. -/
theorem fileTo_fileOut (now username : Str) (o : Payload) :
    fileTo printable (fileOut now (bindSender username o)) = fileTo printable o := by
  have hkey : str "to" ∉ [str "from", str "payload_type", str "timestamp"] := by decide
  have hto : Dict.get (fileOut now (bindSender username o)) (str "to") = Dict.get o (str "to") :=
    Dict.get_write o [(str "from", .str username), (str "payload_type", .str (str "file")),
      (str "timestamp", .str (now ++ str "Z"))] hkey
  rw [fileTo, hto, fileTo]

/-- So what was passed on to a user could be asked for again, -/
theorem Passes.toUser_again (h : Passes printable username now o (.forward u p)) :
    ToUser printable p u := by
  have htype := (h.type_kept (.inr ⟨u, rfl⟩)).1
  cases h with
  | message ht hu =>
    refine .inl ⟨htype.trans ht, ?_⟩
    rw [find_userText _ _ (by decide), find_bindSender _ _ (by decide), hu]
  | userFile ht hfile _ hg =>
    refine .inr ⟨⟨_, htype.trans ht, hfile⟩, ?_, (fileTo_fileOut ..).symm⟩
    rwa [find_outgoing_file _ _ _ (by decide)]

/-- and so could what was passed on to a group. -/
theorem Passes.toGroup_again (h : Passes printable username now o (.fanOut g p)) :
    ToGroup printable p g := by
  have htype := (h.type_kept (.inl ⟨g, rfl⟩)).1
  cases h with
  | groupMessage ht => exact .inl ⟨htype.trans ht, groupText_to ..⟩
  | groupFile ht hfile _ hg =>
    refine .inr ⟨⟨_, htype.trans ht, hfile⟩, ?_, (fileTo_fileOut ..).symm⟩
    rwa [find_outgoing_file _ _ _ (by decide)]

theorem ToUser.unique (h : ToUser printable o u) (h' : ToUser printable o v) : u = v := by
  rcases h with ⟨ht, hu⟩ | ⟨hfile, -, rfl⟩
  · rcases h' with ⟨-, hv⟩ | ⟨hfile, -⟩
    · rw [hu] at hv
      exact Json.str.inj hv
    · exact absurd hfile (Payload.IsText.not_file (.inl ht))
  · rcases h' with ⟨ht, -⟩ | ⟨-, -, rfl⟩
    · exact absurd hfile (Payload.IsText.not_file (.inl ht))
    · rfl

theorem ToUser.isForwarded (h : ToUser printable o u) : o.IsForwarded := by
  rcases h with ⟨ht, -⟩ | ⟨⟨t, ht, rfl | rfl⟩, -⟩
  · exact ⟨_, ht, .message⟩
  · exact ⟨_, ht, .messageFile⟩
  · exact ⟨_, ht, .groupFile⟩

theorem ToGroup.isForwarded (h : ToGroup printable o g) : o.IsForwarded := by
  rcases h with ⟨ht, -⟩ | ⟨⟨t, ht, rfl | rfl⟩, -⟩
  · exact ⟨_, ht, .groupMessage⟩
  · exact ⟨_, ht, .messageFile⟩
  · exact ⟨_, ht, .groupFile⟩

/-- The errors are plain text. -/
theorem canonical_error {msg : Str} (h : msg ∈ requestErrors ++ handlerErrors) :
    Json.Canonical F (.obj (errorPayload msg)) := by
  have hascii : (requestErrors ++ handlerErrors).all (·.all (·.val < 0x80)) = true := by decide
  exact canonical_errorPayload msg (Json.scalar_ascii (Json.ascii_of_all
    (List.all_eq_true.mp hascii msg h))).joined

/-- **Everything the server writes survives `json.dumps` and `json.loads`.** -/
theorem canonical_reach {y : Config Conn Tables Phase Event}
    (h : (server printable).Reach (FromWire A F) y) (hw : .wrote c t p ok ∈ y.log) :
    Json.Canonical F (.obj p) := by
  have hmeets : ∀ e ∈ y.log,
      e.Meets (fun p => Json.Canonical F (.obj p)) fun p => Json.Canonical F (.obj p) := by
    refine (meets_reach h (fun _ => canonical_error) (fun us hus => canonical_userList hus) ?_).2
    intro z e o now σ a hC hloop hname hd hreply
    obtain ⟨⟨data, -, hdata⟩, hnow⟩ := hC σ o now hloop rfl
    have ho := opened_canonical hdata
    have hpass := dispatch_passes hd hreply
    cases a with
    | ignore => trivial
    | reply q => exact absurd rfl (hreply q)
    | create g ms =>
      obtain ⟨hg, hms⟩ := hpass.names hname
      exact ⟨canonical_groupInvite hg hms, canonical_groupCreated hg⟩
    | fanOut g p => exact hpass.canonical ho hname hnow (.inl ⟨g, rfl⟩)
    | forward u p => exact hpass.canonical ho hname hnow (.inr ⟨u, rfl⟩)
  exact (hmeets _ hw).elim And.right id

/-! ## Where a payload comes from -/

/-- A request that is being worked on was read. -/
theorem exists_of_current {log : List Event} (h : current log c = some o) :
    ∃ later before, log = later ++ .frame c o :: before := by
  obtain ⟨later, e, before, rfl, he, -⟩ := List.findSome?_eq_some_iff.mp h
  cases e with
  | frame d o' =>
    rw [Event.request] at he
    split_ifs at he with hd
    obtain rfl := Option.some.inj he
    exact ⟨later, before, by rw [hd]⟩
  | _ => cases he

/-- **Behind every text and file that is passed on** there is a request that was sealed under the
key of the session it is passed on for. -/
theorem sealed_request (h : (network A F printable).Reach (CanDeliver A) x)
    (hlog : x.log = later ++ .server (.wrote c t p ok) :: past) (hp : p.IsForwarded) :
    ∃ σ o u text, Authorised printable (serverLog past) c t p σ o u ∧ Sealed past σ.key text ∧
      Json.loads F text = some (.obj o) := by
  have hserver := server_reach h
  have hsplit : (serverPart x).log = serverLog later ++ .wrote c t p ok :: serverLog past := by
    show serverLog x.log = _
    rw [hlog, serverLog_append]
    rfl
  have hjust := authorised_log hserver.any
  rw [hsplit] at hjust
  obtain ⟨σ, o, u, hauth⟩ := hjust.at c t p ok rfl hp
  obtain ⟨_, before, hframe⟩ := exists_of_current hauth.request
  obtain ⟨after, past', rfl, rfl⟩ := exists_of_serverLog hframe
  have hsealed := frames_sealed h
  rw [hlog, ← List.singleton_append, ← List.append_assoc, ← List.append_assoc] at hsealed
  obtain ⟨σ', text, hσ', htext, ho⟩ := hsealed.at c o rfl
  have hreg : .registered c σ' ∈ serverLog (after ++ .server (.frame c o) :: past') := by
    rw [serverLog_append]
    refine List.mem_append_right _ ?_
    rw [mem_serverLog] at hσ' ⊢
    exact List.mem_cons_of_mem _ hσ'
  obtain rfl := hauth.oneSession σ' hreg
  refine ⟨σ', o, u, text, hauth, ?_, ho⟩
  have happ := htext.append (after ++ [.server (.frame c o)])
  rwa [List.append_assoc] at happ

/-- What the server sealed comes back as what it was. -/
theorem loads_wrote (h : (network A F printable).Reach (CanDeliver A) x)
    (hw : .server (.wrote c t p ok) ∈ x.log)
    (ho : Json.loads F (Json.dumps (.obj p)) = some (.obj o)) : o = p := by
  have hc : Json.Canonical F (.obj p) :=
    canonical_reach (server_reach h) (mem_serverLog.mpr hw)
  rw [Json.loads_dumps hc] at ho
  exact (Json.obj.inj (Option.some.inj ho)).symm

/-! ## One recipient -/

/-- A text or a file for one user comes from the user it names, unless it is one's own. -/
theorem direct_origin (h : (network A F printable).Reach (CanDeliver A) x)
    (hone : OneName (serverLog x.log))
    (hlog : x.log = later ++ .server (.wrote c (d, key) p ok) :: past) (hp : p.IsForwarded)
    (hdirect : ∀ g, ¬ ToGroup printable p g) :
    ∃ σ v, .registered c σ ∈ serverLog past ∧ .registered d ⟨key, v⟩ ∈ serverLog past ∧
      p.find (str "from") = .str σ.name ∧ (σ.name = v ∨ ∃ text o, .sealed σ.key text ∈ past ∧
        Json.loads F text = some (.obj o) ∧ ToUser printable o v ∧ SameContent o p) := by
  obtain ⟨σ, o, v, text, hauth, hsealed, ho⟩ := sealed_request h hlog hp
  obtain ⟨now, a, hpass, ha⟩ := hauth.passed
  have hmem : ∀ e ∈ serverLog past, e ∈ serverLog x.log := by
    intro e he
    rw [hlog, serverLog_append]
    exact List.mem_append_right _ (List.mem_cons_of_mem _ he)
  rcases ha with ⟨g, rfl⟩ | ⟨u, rfl⟩
  · exact absurd hpass.toGroup_again (hdirect g)
  · have hto := hpass.toUser
    obtain rfl : v = u := by
      rcases hauth.addressed with hv | ⟨g, -, hg, -⟩
      · exact hv.unique hto
      · exact absurd hg hto.not_toGroup
    refine ⟨σ, v, hauth.session, hauth.looked.registered, hauth.sender, ?_⟩
    cases hsealed with
    | client hs => exact .inr ⟨text, o, hs, ho, hto, hpass.sameContent (.inr ⟨v, rfl⟩)⟩
    | @server c₂ d₂ p₂ ok₂ hw htext =>
      -- the request is what the server itself wrote to this client: a message for it
      left
      subst htext
      obtain rfl := loads_wrote h (hlog ▸ List.mem_append_right _ (List.mem_cons_of_mem _ hw)) ho
      obtain ⟨later₂, past₂, rfl⟩ := List.append_of_mem hw
      have hlog₂ : x.log = (later ++ .server (.wrote c (d, key) p ok) :: later₂) ++
          .server (.wrote c₂ (d₂, σ.key) o ok₂) :: past₂ := by
        rw [hlog, List.append_assoc, List.cons_append]
      obtain ⟨σ₂, o₂, v₂, -, hauth₂, -, -⟩ := sealed_request h hlog₂ hto.isForwarded
      obtain ⟨now₂, a₂, hpass₂, ha₂⟩ := hauth₂.passed
      rcases ha₂ with ⟨g, rfl⟩ | ⟨u, rfl⟩
      · exact absurd hpass₂.toGroup_again hto.not_toGroup
      · obtain rfl := hpass₂.toUser_again.unique hto
        obtain rfl : v₂ = u := by
          rcases hauth₂.addressed with hv | ⟨g, -, hg, -⟩
          · exact hv.unique hpass₂.toUser
          · exact absurd hg hpass₂.toUser.not_toGroup
        have hreg₂ : .registered d₂ ⟨σ.key, v₂⟩ ∈ serverLog x.log := by
          rw [hlog₂, serverLog_append]
          exact List.mem_append_right _ (List.mem_cons_of_mem _ hauth₂.looked.registered)
        exact hone _ _ _ _ (hmem _ hauth.session) hreg₂ rfl

/-! ## A request -/

/-- The server starts on the request that is delivered. -/
theorem next_request (hloop : x.thread (some c) = .loop σ) {data : Bytes}
    (hlen : data.length ≤ maxFrameSize) (hdata : opened A F σ.key data = some (.obj o))
    {a : Action} (hd : dispatch printable σ.name now o = .ok a) :
    (network A F printable).next x (some c, .deliver data now) =
      some (after x (some c) (x.memory, .act σ a, [.server (.frame c o)])) := by
  have hm : handleClient printable c x.memory (.loop σ) (.frame o now) =
      some (x.memory, .act σ a, [.frame c o]) := by
    simp only [handleClient, hd]
  exact next_deliver hloop hlen hdata hm

/-- A text to a user who is there is read, and written to them. -/
theorem deliver_forward (h : (network A F printable).Reach (CanDeliver A) x)
    (hloop : x.thread (some c) = .loop σ) {data : Bytes} (hlen : data.length ≤ maxFrameSize)
    (hunforged : Unforged A x.log σ.key data) (hdata : opened A F σ.key data = some (.obj o))
    (hnow : ∀ d ∈ now, d.val < 0x80) (hd : dispatch printable σ.name now o = .ok (.forward u p))
    (ht : Dict.get x.memory.clients u = some t) (hkey : usable t.2 = true) :
    ∃ z, (network A F printable).Reach (CanDeliver A) z ∧ z.thread (some c) = .loop σ ∧
      z.memory = x.memory ∧ z.log = [.server (.wrote c t p true), .server (.looked c u (some t)),
        .server (.frame c o)] ++ x.log := by
  let y₁ := after x (some c) (x.memory, .act σ (.forward u p), [.server (.frame c o)])
  let y₂ := after y₁ (some c) (x.memory, .forwardTo σ t p, [.server (.looked c u (some t))])
  let y₃ := after y₂ (some c) (x.memory, .loop σ, [.server (.wrote c t p true)])
  have h₁ : (network A F printable).next x (some c, .deliver data now) = some y₁ :=
    next_request hloop hlen hdata hd
  have h₂ : (network A F printable).next y₁ (some c, .other .run) = some y₂ := by
    have hthread : y₁.thread (some c) = .act σ (.forward u p) := after_thread_self ..
    have hmemory : y₁.memory = x.memory := rfl
    simp only [Program.next, network, Input.isQuiet, hthread, hmemory, serve, handleClient, ht,
      if_true, Option.map_some, List.map_cons, List.map_nil, y₂]
  have h₃ : (network A F printable).next y₂ (some c, .other (.sent true)) = some y₃ := by
    have hthread : y₂.thread (some c) = .forwardTo σ t p := after_thread_self ..
    have hmemory : y₂.memory = x.memory := rfl
    simp only [Program.next, network, Input.isQuiet, hthread, hmemory, serve, handleClient,
      sendPayload, hkey, Bool.true_and, if_true, Option.map_some, List.map_cons, List.map_nil, y₃]
  have hcan := canDeliver hloop hunforged hnow
  exact ⟨y₃, ((h.step hcan h₁).step canDeliver_other h₂).step canDeliver_other h₃,
    after_thread_self .., rfl, rfl⟩

/-! ## Alice and Bob -/

/-- Bob's key. -/
def bobKey : Key := List.replicate 16 1

/-- A connection joins with a key of its own. -/
def joinWith (c : Conn) (key : Key) (name : Str) (others : ℕ) : List (Option Conn × NetInput) :=
  let joins : List Input :=
    [.accept, .key (some key), .name (some name), .run, .run, .sent true, .run] ++
      List.replicate (others + 1) (.sent true) ++ [.run]
  joins.map fun i => (some c, .other i)

/-- No frame is delivered. -/
def NetInput.isOffline : NetInput → Bool
  | .deliver _ _ => false
  | _ => true

theorem canDeliver_of_isOffline (x : Config (Option Conn) Tables Phase NetEvent)
    (a : Option Conn × NetInput) (h : a.2.isOffline = true) : CanDeliver A x a := by
  rintro _ _ _ - hinput
  rw [hinput] at h
  cases h

/-- The sessions of a history. -/
def sessionsIn (log : List Event) : List (Conn × Session) :=
  log.filterMap fun
    | .registered c σ => some (c, σ)
    | _ => none

theorem mem_sessionsIn {log : List Event} : (c, σ) ∈ sessionsIn log ↔ .registered c σ ∈ log := by
  rw [sessionsIn, List.mem_filterMap]
  constructor
  · rintro ⟨e, he, heq⟩
    cases e with
    | registered =>
      obtain ⟨rfl, rfl⟩ := Prod.mk.inj (Option.some.inj heq)
      exact he
    | _ => cases heq
  · exact fun h => ⟨_, h, rfl⟩

/-- A client sealed something with this key. -/
def NetEvent.isSealedBy (key : Key) : NetEvent → Bool
  | .sealed key' _ => decide (key' = key)
  | .server _ => false

/-- A client sealed this text with this key. -/
def NetEvent.isSealed (key : Key) (text : Str) : NetEvent → Bool
  | .sealed key' text' => decide (key' = key) && decide (text' = text)
  | .server _ => false

theorem NetEvent.eq_of_isSealed {e : NetEvent} (h : e.isSealed key text = true) :
    e = .sealed key text := by
  cases e with
  | sealed key' text' =>
    obtain ⟨rfl, rfl⟩ := by simpa [NetEvent.isSealed] using h
    rfl
  | server => cases h

/-- Alice and Bob have joined, and Alice has sealed a text for Bob. -/
def aliceSealed (x : Config (Option Conn) Tables Phase NetEvent) : Bool :=
  (x.thread (some 0)).isAliceLoop &&
    (decide (Dict.get x.memory.clients (str "bob") = some (1, bobKey)) &&
    (decide (sessionsIn (serverLog x.log) =
      [(1, ⟨bobKey, str "bob"⟩), (0, ⟨demoKey, str "alice"⟩)]) &&
    (x.log.any (·.isSealed demoKey (Json.dumps (.obj (textTo (str "bob"))))) &&
      x.log.all fun e => !e.isSealedBy bobKey)))

theorem exists_aliceSealed : ∃ x : Config (Option Conn) Tables Phase NetEvent,
    (network demoAead demoInterpreter fun _ => true).Reach (CanDeliver demoAead) x ∧
      x.thread (some 0) = .loop ⟨demoKey, str "alice"⟩ ∧
      Dict.get x.memory.clients (str "bob") = some (1, bobKey) ∧
      sessionsIn (serverLog x.log) = [(1, ⟨bobKey, str "bob"⟩), (0, ⟨demoKey, str "alice"⟩)] ∧
      .sealed demoKey (Json.dumps (.obj (textTo (str "bob")))) ∈ x.log ∧
      ∀ e ∈ x.log, e.isSealedBy bobKey = false := by
  obtain ⟨x, hx, hp⟩ := exists_run_of_execIf (P := network demoAead demoInterpreter fun _ => true)
    canDeliver_of_isOffline (joinWith 0 demoKey (str "alice") 0 ++
      (joinWith 1 bobKey (str "bob") 1 ++
        [(none, .encrypt demoKey (Json.dumps (.obj (textTo (str "bob")))))]))
    (p := aliceSealed) (by decide +kernel)
  simp only [aliceSealed, Bool.and_eq_true, decide_eq_true_eq, List.any_eq_true, List.all_eq_true,
    Bool.not_eq_true'] at hp
  obtain ⟨hloop, hbob, hsessions, ⟨e, he, hsealed⟩, hquiet⟩ := hp
  exact ⟨x, ⟨_, hx⟩, Phase.eq_loop_of_isAliceLoop hloop, hbob, hsessions,
    NetEvent.eq_of_isSealed hsealed ▸ he, hquiet⟩

/-- The frame of Alice's text. -/
theorem exists_hi : ∃ data, sealPayload demoAead demoKey (textTo (str "bob")) demoNonce.1 =
      some data ∧ data.length ≤ maxFrameSize ∧
      opened demoAead demoInterpreter demoKey data = some (.obj (textTo (str "bob"))) := by
  have hcanonical : Json.Canonical demoInterpreter (.obj (textTo (str "bob"))) :=
    ((Json.canonical_empty.field "type" (Json.canonical_literal "message")).field "to"
      (Json.canonical_literal "bob")).field "payload" (Json.canonical_literal "hi")
  have hlen : (Json.dumps (.obj (textTo (str "bob")))).length + 28 ≤ maxFrameSize := by
    decide +kernel
  obtain ⟨data, hdata, hdataLen⟩ := exists_sealed (A := demoAead) hcanonical demoKey rfl demoNonce
    (hlen.trans_lt (by decide))
  exact ⟨data, hdata, hdataLen ▸ hlen, opened_payload demoNonce hdata hcanonical⟩

/-! ## The client's side -/

section Client

variable {root : MediaRoot} {me n : Str} {disk : Disk} {chat message sender : Json}

/-- What a file is shown as. -/
theorem receiveFile_shows
    (h : .received chat message sender ∈ (receiveFile printable root username disk p).effects) :
    message = notice printable (p.find (str "filename")) (p.find (str "from")) ∧
      chat = if (p.find (str "to_type")).isStr (str "group") then
        hashed printable (p.find (str "to")) else p.find (str "from") := by
  simp only [receiveFile, buildReceivePath_eq] at h
  split at h
  · cases h
  · split at h
    · cases h
    · split at h
      · cases h
      · obtain hsaved | hshown := List.mem_cons.mp h
        · cases hsaved
        · obtain ⟨rfl, rfl, -⟩ := Effect.received.inj (List.mem_singleton.mp hshown)
          exact ⟨rfl, rfl⟩

/-- What is shown as a user's is a text or a file that names them, and that is not for a group. -/
theorem shown_as_user (h : .received (.str n) message sender ∈
      (receive printable root username disk (.obj p)).effects) (hn : SafeName 32 n) :
    p.find (str "from") = .str n ∧ p.IsForwarded ∧ (∀ g, ¬ ToGroup printable p g) ∧
      (p.find (str "type") = .str (str "message") ∧ message = p.find (str "payload") ∨
        p.IsFile ∧ message = notice printable (p.find (str "filename")) (.str n)) := by
  have hnot : ∀ v, hashed printable v ≠ .str n := fun v => hash_ne hn _
  have htext : ∀ {t}, p.find (str "type") = .str t → t ≠ str "message_file" →
      t ≠ str "group_file" → t ≠ str "group_message" → ∀ g, ¬ ToGroup printable p g := by
    rintro t ht h₁ h₂ h₃ g (⟨ht', -⟩ | ⟨hfile, -⟩)
    · exact h₃ (Json.str.inj (ht.symm.trans ht'))
    · exact not_isFile ht h₁ h₂ hfile
  simp only [receive, receiveObject] at h
  split at h
  · simp at h
  split at h
  · simp at h
  split at h
  · simp at h
  split at h
  · -- a text
    rename_i htype
    have ht := Json.isStr_iff.mp htype
    obtain ⟨hfrom, rfl, -⟩ := Effect.received.inj (List.mem_singleton.mp h)
    exact ⟨hfrom.symm, ⟨_, ht, .message⟩, htext ht (by decide) (by decide) (by decide),
      .inl ⟨ht, rfl⟩⟩
  split at h
  · exact absurd (Effect.received.inj (List.mem_singleton.mp h)).1.symm (hnot _)
  split at h
  · exact absurd (Effect.received.inj (List.mem_singleton.mp h)).1.symm (hnot _)
  split at h
  · exact absurd (Effect.received.inj (List.mem_singleton.mp h)).1.symm (hnot _)
  split at h
  · -- a file
    rename_i hnotext hnogroup _ _ htype
    obtain ⟨rfl, hchat⟩ := receiveFile_shows h
    have hfile : p.IsFile := by
      rcases Bool.or_eq_true_iff.mp htype with ht | ht
      · exact ⟨_, Json.isStr_iff.mp ht, .inl rfl⟩
      · exact ⟨_, Json.isStr_iff.mp ht, .inr rfl⟩
    split_ifs at hchat with hgroup
    · exact absurd hchat.symm (hnot _)
    · obtain ⟨t, ht, htype⟩ := hfile
      have hto : ∀ g, ¬ ToGroup printable p g := by
        rintro g (⟨ht', -⟩ | ⟨-, hgroup', -⟩)
        · rw [ht'] at hnogroup
          exact hnogroup rfl
        · exact hgroup hgroup'
      refine ⟨hchat.symm, ⟨t, ht, ?_⟩, hto, .inr ⟨⟨t, ht, htype⟩, by rw [hchat]⟩⟩
      rcases htype with rfl | rfl
      · exact .messageFile
      · exact .groupFile
  · simp at h

/-- **What a client shows as another user's was sealed by that user for it**, with that text or that
file, whatever the network did to the frames. It is asked of the cipher that nothing is forged, of
the users that no two have one key, and of the client itself that its own requests name it. -/
theorem shown_authentic (h : (network A F printable).Reach (CanDeliver A) x)
    (hone : OneName (serverLog x.log)) (hreg : .registered d ⟨key, me⟩ ∈ serverLog x.log)
    (hown : ∀ text (o : Payload), .sealed key text ∈ x.log → Json.loads F text = some (.obj o) →
      o.find (str "from") = .str me)
    {data : Bytes} (hdata : Unforged A x.log key data)
    (hshown : .received (.str n) message sender ∈
      (clientRound A F printable root me key disk data).effects)
    (hn : SafeName 32 n) (hne : n ≠ me) :
    ∃ c σ text, ∃ o : Payload, .registered c σ ∈ serverLog x.log ∧ σ.name = n ∧
      .sealed σ.key text ∈ x.log ∧ Json.loads F text = some (.obj o) ∧ ToUser printable o me ∧
      (o.find (str "type") = .str (str "message") ∧ message = o.find (str "payload") ∨
        o.IsFile ∧ message = notice printable (o.find (str "filename")) (.str n)) := by
  rcases hopened : opened A F key data with _ | v
  · rw [clientRound, hopened] at hshown
    cases hshown
  rw [clientRound, hopened] at hshown
  obtain ⟨text, hsealed, hv⟩ := hdata.opened hopened
  cases v with
  | obj p =>
    obtain ⟨hfrom, hp, hdirect, hcontent⟩ := shown_as_user hshown hn
    cases hsealed with
    | client hs =>
      -- its own request came back to it
      rw [hown text p hs hv] at hfrom
      exact absurd (Json.str.inj hfrom).symm hne
    | @server c d' q ok hw htext =>
      subst htext
      obtain rfl := loads_wrote h hw hv
      obtain ⟨later, past, hlog⟩ := List.append_of_mem hw
      have hmem : ∀ {e}, e ∈ past → e ∈ x.log := by
        intro e he
        rw [hlog]
        exact List.mem_append_right _ (List.mem_cons_of_mem _ he)
      have hserver : ∀ {e}, e ∈ serverLog past → e ∈ serverLog x.log := by
        intro e he
        exact mem_serverLog.mpr (hmem (mem_serverLog.mp he))
      obtain ⟨σ, v, hσ, hv', hname, horigin⟩ := direct_origin h hone hlog hp hdirect
      rw [hfrom] at hname
      obtain rfl := Json.str.inj hname
      obtain rfl : v = me := hone _ _ _ _ (hserver hv') hreg rfl
      obtain ⟨text, o, hs, ho, hto, hsame⟩ := horigin.resolve_left hne
      refine ⟨c, σ, text, o, hserver hσ, rfl, hmem hs, ho, hto, ?_⟩
      rw [hsame.type, hsame.payload, hsame.filename] at hcontent
      rcases hcontent with hmessage | ⟨⟨t, ht, hfile⟩, hmessage⟩
      · exact .inl hmessage
      · exact .inr ⟨⟨t, hsame.type.symm.trans ht, hfile⟩, hmessage⟩
  | _ => cases hshown

end Client

/-- Bob's client shows a text of Alice's. -/
theorem shown_authentic_alice : ∃ (x : Config (Option Conn) Tables Phase NetEvent) (data : Bytes)
    (disk : Disk), (network demoAead demoInterpreter fun _ => true).Reach (CanDeliver demoAead) x ∧
      .received (.str (str "alice")) (.str (str "hi")) (.str (str "alice")) ∈ (clientRound demoAead
        demoInterpreter (fun _ => true) demoRoot (str "bob") bobKey disk data).effects ∧
      ∃ c σ text, ∃ o : Payload, .registered c σ ∈ serverLog x.log ∧ σ.name = str "alice" ∧
        .sealed σ.key text ∈ x.log ∧ Json.loads demoInterpreter text = some (.obj o) ∧
        ToUser (fun _ => true) o (str "bob") ∧
        (o.find (str "type") = .str (str "message") ∧
            .str (str "hi") = o.find (str "payload") ∨
          o.IsFile ∧ .str (str "hi") = notice (fun _ => true) (o.find (str "filename"))
            (.str (str "alice"))) := by
  obtain ⟨x, hx, hloop, hbob, hsessions, hsealed, hquiet⟩ := exists_aliceSealed
  obtain ⟨data, hdata, hlen, hopened⟩ := exists_hi
  let p := userText [] (bindSender (str "alice") (textTo (str "bob")))
  have hd : dispatch (fun _ => true) (str "alice") [] (textTo (str "bob")) =
      .ok (.forward (str "bob") p) := rfl
  obtain ⟨z, hz, -, -, hlog⟩ := deliver_forward hx hloop hlen
    (unforged_sealed demoNonce hdata hsealed) hopened (by simp) hd hbob rfl
  have hw : .server (.wrote 0 (1, bobKey) p true) ∈ z.log := by
    rw [hlog]
    exact List.mem_cons_self ..
  have hcanonical := canonical_reach (server_reach hz) (mem_serverLog.mpr hw)
  have hshort : (Json.dumps (.obj (userText [] (bindSender (str "alice")
      (textTo (str "bob")))))).length + 28 ≤ maxFrameSize := by decide +kernel
  obtain ⟨sent, hsent, -⟩ := exists_sealed (A := demoAead) hcanonical bobKey rfl demoNonce
    (hshort.trans_lt (by decide))
  have hshows : .received (.str (str "alice")) (.str (str "hi")) (.str (str "alice")) ∈
      (clientRound demoAead demoInterpreter (fun _ => true) demoRoot (str "bob") bobKey ⟨true, true⟩
        sent).effects := by
    rw [clientRound, opened_payload demoNonce hsent hcanonical]
    exact List.mem_singleton_self _
  have hserver : serverLog z.log = [.wrote 0 (1, bobKey) p true,
      .looked 0 (str "bob") (some (1, bobKey)), .frame 0 (textTo (str "bob"))] ++
        serverLog x.log := by
    rw [hlog]
    rfl
  have hregistered : ∀ {c σ}, .registered c σ ∈ serverLog z.log →
      (c, σ) ∈ [(1, ⟨bobKey, str "bob"⟩), (0, ⟨demoKey, str "alice"⟩)] := by
    intro c σ hσ
    rw [hserver] at hσ
    rw [← hsessions, mem_sessionsIn]
    simpa using hσ
  refine ⟨z, sent, ⟨true, true⟩, hz, hshows, shown_authentic hz ?_ (d := 1) ?_ ?_
    (unforged_wrote demoNonce hsent hw) hshows (by decide) (by decide)⟩
  · -- the two keys differ
    intro c c' σ σ' hσ hσ' hkey
    have hmem := hregistered hσ
    have hmem' := hregistered hσ'
    simp only [List.mem_cons, Prod.mk.injEq, List.not_mem_nil, or_false] at hmem hmem'
    rcases hmem with ⟨-, rfl⟩ | ⟨-, rfl⟩ <;> rcases hmem' with ⟨-, rfl⟩ | ⟨-, rfl⟩
    · rfl
    · exact absurd hkey (by decide)
    · exact absurd hkey (by decide)
    · rfl
  · rw [hserver]
    exact List.mem_append_right _ (mem_sessionsIn.mp (hsessions ▸ List.mem_cons_self ..))
  · -- Bob's client has sealed nothing
    intro text o htext
    rw [hlog] at htext
    have hx : .sealed bobKey text ∈ x.log := by simpa using htext
    exact absurd (hquiet _ hx) (by simp [NetEvent.isSealedBy])

/-! ## A group -/

/-- **A post of a group was sealed for the group by one of its members**, and it is written to a
member in the name of a member. -/
theorem group_origin (h : (network A F printable).Reach (CanDeliver A) x)
    (hlog : x.log = later ++ .server (.wrote c (d, key) p ok) :: past)
    (hgroup : ToGroup printable p g) :
    ∃ ms n v, Stored (serverLog past) g ms ∧ n ∈ ms ∧ v ∈ ms ∧ p.find (str "from") = .str n ∧
      .registered d ⟨key, v⟩ ∈ serverLog past ∧ ∃ e σ text o, .registered e σ ∈ serverLog past ∧
        σ.name ∈ ms ∧ .sealed σ.key text ∈ past ∧ Json.loads F text = some (.obj o) ∧
        ToGroup printable o g ∧ SameContent o p := by
  induction hn : past.length using Nat.strongRecOn generalizing c d key p ok past later with
  | ind n ih =>
    obtain ⟨σ, o, v, text, hauth, hsealed, ho⟩ := sealed_request h hlog hgroup.isForwarded
    obtain ⟨now, a, hpass, ha⟩ := hauth.passed
    rcases ha with ⟨g', rfl⟩ | ⟨u, rfl⟩
    · obtain rfl := hpass.toGroup_again.unique hgroup
      have hto := hpass.toGroup
      have hsame := hpass.sameContent (.inl ⟨g', rfl⟩)
      obtain ⟨ms, hstored, honly, hσ, hv⟩ : ∃ ms, Stored (serverLog past) g' ms ∧
          (∀ ms', Stored (serverLog past) g' ms' → ms' = ms) ∧ σ.name ∈ ms ∧ v ∈ ms := by
        rcases hauth.addressed with hu | ⟨g, ms, hg, hstored, honly, hσ, hv, -⟩
        · exact absurd hto hu.not_toGroup
        · obtain rfl := hg.unique hto
          exact ⟨ms, hstored, honly, hσ, hv⟩
      refine ⟨ms, σ.name, v, hstored, hσ, hv, hauth.sender, hauth.looked.registered, ?_⟩
      cases hsealed with
      | client hs => exact ⟨c, σ, text, o, hauth.session, hσ, hs, ho, hto, hsame⟩
      | @server c₂ d₂ p₂ ok₂ hw htext =>
        -- a post that came back: whoever sealed that one sealed this one
        subst htext
        obtain rfl := loads_wrote h (hlog ▸ List.mem_append_right _ (List.mem_cons_of_mem _ hw)) ho
        obtain ⟨later₂, past₂, rfl⟩ := List.append_of_mem hw
        have hlog₂ : x.log = (later ++ .server (.wrote c (d, key) p ok) :: later₂) ++
            .server (.wrote c₂ (d₂, σ.key) o ok₂) :: past₂ := by
          rw [hlog, List.append_assoc, List.cons_append]
        have hlt : past₂.length < n := by
          rw [← hn, List.length_append, List.length_cons]
          omega
        obtain ⟨ms₂, -, -, hstored₂, -, -, -, -, e, τ, text, o₂, he, hτ, hs, ho₂, hto₂, hsame₂⟩ :=
          ih past₂.length hlt hlog₂ hto rfl
        have hearlier : ∀ {e : Event}, e ∈ serverLog past₂ → e ∈ serverLog
            (later₂ ++ .server (.wrote c₂ (d₂, σ.key) o ok₂) :: past₂) := by
          intro e he
          rw [serverLog_append]
          exact List.mem_append_right _ (List.mem_cons_of_mem _ he)
        obtain ⟨d', hd'⟩ := hstored₂
        obtain rfl := honly ms₂ ⟨d', hearlier hd'⟩
        exact ⟨e, τ, text, o₂, hearlier he, hτ, List.mem_append_right _ (List.mem_cons_of_mem _ hs),
          ho₂, hto₂, hsame₂.trans hsame⟩
    · exact absurd hgroup hpass.toUser_again.not_toGroup

/-- A text, or a list of texts, in ASCII. -/
def isPlain : Json → Bool
  | .str s => s.all (·.val < 0x80)
  | .arr l => l.all fun
    | .str s => s.all (·.val < 0x80)
    | _ => false
  | _ => false

/-- A string or a list of strings, inside an object. -/
theorem canonical_of_isPlain {v : Json} (h : isPlain v = true) :
    Json.CanonicalIn F (F.nesting - 1) v := by
  cases v with
  | str s => exact Json.canonical_str (Json.ascii_of_all h)
  | arr l =>
    refine .arr F.inside_pos fun v hv => ?_
    have hplain := List.all_eq_true.mp h v hv
    cases v with
    | str s => exact Json.canonical_str (Json.ascii_of_all hplain)
    | _ => cases hplain
  | _ => cases h

/-- A plain object, at midnight. -/
def isSealable (x : Config Conn Tables Phase Event) (a : Conn × Input) : Bool :=
  match a.2, x.thread a.1 with
  | .frame o now, .loop σ => now.isEmpty && (usable σ.key && (decide (Dict.keys o).Nodup &&
    (o.all (fun e => e.1.all (·.val < 0x80) && isPlain e.2) &&
      decide ((Json.dumps (.obj o)).length + 28 ≤ maxFrameSize))))
  | _, _ => true

theorem sealable_of_isSealable (x : Config Conn Tables Phase Event) (a : Conn × Input)
    (h : isSealable x a = true) : Sealable F x a := by
  intro σ o now hloop hframe
  simp only [isSealable, hloop, hframe, Bool.and_eq_true, decide_eq_true_eq, List.all_eq_true,
    List.isEmpty_iff] at h
  obtain ⟨rfl, hkey, hnodup, hplain, hlen⟩ := h
  refine ⟨hkey, .obj F.nesting_pos hnodup (fun e he => ?_) fun e he => ?_, hlen, by simp⟩
  · exact (Json.scalar_ascii (hplain e he).1).joined
  · exact canonical_of_isPlain (hplain e he).2

/-- Alice's post to the team was the last thing, and Bob is at his frame loop. -/
def teamPosted (x : Config Conn Tables Phase Event) : Bool :=
  (match x.thread 1 with
    | .loop σ => decide (σ = ⟨demoKey, str "bob"⟩)
    | _ => false) &&
  match x.log with
  | .wrote c t p ok :: _ => decide (c = 0) && (decide (t = (1, demoKey)) && (ok &&
    ((p.find (str "type")).isStr (str "group_message") &&
      ((p.find (str "to")).isStr (str "team") &&
        decide ((Json.dumps (.obj p)).length + 28 ≤ maxFrameSize)))))
  | _ => false

theorem exists_teamPosted : ∃ (x : Config (Option Conn) Tables Phase NetEvent)
    (later past : List NetEvent) (p : Payload),
    (network demoAead demoInterpreter fun _ => true).Reach (CanDeliver demoAead) x ∧
      x.log = later ++ .server (.wrote 0 (1, demoKey) p true) :: past ∧
      x.thread (some 1) = .loop ⟨demoKey, str "bob"⟩ ∧ ToGroup (fun _ => true) p (str "team") ∧
      (Json.dumps (.obj p)).length + 28 ≤ maxFrameSize := by
  obtain ⟨y, hy, hp⟩ := exists_run_of_execIf (P := server fun _ => true)
    (sealable_of_isSealable (F := demoInterpreter))
    (join 0 (str "alice") 0 ++ join 1 (str "bob") 1 ++
      [(0, .frame (newGroup [str "bob"]) []), (0, .run), (0, .run), (0, .run), (0, .sent true),
        (0, .run), (0, .sent true), (0, .frame (teamText (str "hi")) []), (0, .run), (0, .run),
        (0, .run), (0, .sent true)])
    (p := teamPosted) (by decide +kernel)
  obtain ⟨x, hx, rfl⟩ := network_complete (A := demoAead) demoNonce ⟨_, hy⟩
  rw [teamPosted, Bool.and_eq_true] at hp
  obtain ⟨hloop, hlast⟩ := hp
  split at hloop
  · rename_i σ hthread
    obtain rfl := of_decide_eq_true hloop
    split at hlast
    · rename_i c t p ok past hlog
      simp only [Bool.and_eq_true, decide_eq_true_eq, Json.isStr_iff] at hlast
      obtain ⟨rfl, rfl, rfl, htype, hto, hlen⟩ := hlast
      have hsplit : serverLog x.log = [] ++ .wrote 0 (1, demoKey) p true :: past := hlog
      obtain ⟨later, past', hxlog, -⟩ := exists_of_serverLog hsplit
      exact ⟨x, later, past', p, hx, hxlog, hthread, .inl ⟨htype, hto⟩, hlen⟩
    · cases hlast
  · cases hloop

/-- Alice's post, which Bob gets. -/
theorem group_origin_team : ∃ (past : List NetEvent) (p : Payload) (ms : List Str) (n v : Str),
    Stored (serverLog past) (str "team") ms ∧ n ∈ ms ∧ v ∈ ms ∧ p.find (str "from") = .str n ∧
      .registered 1 ⟨demoKey, v⟩ ∈ serverLog past ∧ ∃ e σ text, ∃ o : Payload,
        .registered e σ ∈ serverLog past ∧ σ.name ∈ ms ∧ .sealed σ.key text ∈ past ∧
        Json.loads demoInterpreter text = some (.obj o) ∧ ToGroup (fun _ => true) o (str "team") ∧
        SameContent o p := by
  obtain ⟨x, later, past, p, hx, hlog, -, hgroup, -⟩ := exists_teamPosted
  exact ⟨past, p, group_origin hx hlog hgroup⟩

/-- A request to a group that passed is one that passes again, whoever makes it. -/
theorem dispatch_again (h : Passes printable username now o (.fanOut g p))
    (username' now' : Str) : ∃ q, dispatch printable username' now' p = .ok (.fanOut g q) := by
  have htype := (h.type_kept (.inl ⟨g, rfl⟩)).1
  have hto := h.toGroup_again
  have hof : ∀ {k}, k ≠ str "from" → (bindSender username' p).find k = p.find k :=
    find_bindSender username' p
  cases h with
  | groupMessage ht _ hg =>
    have hname : isSafeGroupName (.str g) = .ok true := isSafeGroupName_iff.mpr ⟨g, rfl, hg⟩
    have hbranch : dispatch printable username' now' (groupText now (bindSender username o) (.str g)
        (o.find (str "payload"))) = groupMessage now' (bindSender username' (groupText now
          (bindSender username o) (.str g) (o.find (str "payload")))) := by
      simp only [dispatch]
      rw [hof (by decide), htype, ht]
      rfl
    rw [hbranch]
    simp only [groupMessage]
    rw [hof (by decide), groupText_to, hname]
    exact ⟨_, rfl⟩
  | groupFile ht hfile hchecks hg hsafe =>
    obtain ⟨hnamed, hfilename, hdata⟩ := hchecks.outgoing username now
    obtain ⟨s, raw, hs, hne, -⟩ := checkFileSize_iff.mp hdata
    have htruthy : (Json.str s).truthy = true := by simp [Json.truthy, hne]
    rw [hs] at hdata
    have hname : isSafeGroupName (.str (fileTo printable o)) = .ok true :=
      isSafeGroupName_iff.mpr ⟨_, rfl, hsafe⟩
    have hgroup : ((fileOut now (bindSender username o)).find (str "to_type")).isStr
        (str "group") = true := by
      rwa [find_outgoing_file _ _ _ (by decide)]
    have hbranch : dispatch printable username' now' (fileOut now (bindSender username o)) =
        file printable now' (bindSender username' (fileOut now (bindSender username o))) := by
      simp only [dispatch]
      rw [hof (by decide), htype, ht]
      rcases hfile with rfl | rfl <;> rfl
    rw [hbranch]
    simp only [file]
    rw [hof (by decide), hof (by decide), hof (by decide), fileTo_bindSender, fileTo_fileOut,
      hgroup, hname, hs, htruthy, hnamed, hfilename, hdata]
    exact ⟨_, rfl⟩

/-- **A post that comes back goes out again, in the name of whoever it was written to.** In every
state, when a member of a group is at the frame loop and the network delivers a post that the
server wrote to this member, the server takes it for a post of the member. -/
theorem reflected (h : (network A F printable).Reach (CanDeliver A) x)
    (hw : .server (.wrote c (d, σ.key) p ok) ∈ x.log) (hgroup : ToGroup printable p g)
    (hloop : x.thread (some d) = .loop σ) (nonce : Nonce) {data : Bytes}
    (hdata : sealPayload A σ.key p nonce.1 = some data) (hlen : data.length ≤ maxFrameSize)
    (hnow : ∀ d ∈ now, d.val < 0x80) :
    ∃ y z ms q, CanDeliver A x (some d, .deliver data now) ∧
      (network A F printable).next x (some d, .deliver data now) = some y ∧
      (network A F printable).next y (some d, .other .run) = some z ∧
      Stored (serverLog x.log) g ms ∧ z.thread (some d) = .cast σ ms q none ∧
      q.find (str "from") = .str σ.name ∧ SameContent p q := by
  have hserver := server_reach h
  obtain ⟨later, past, hlog⟩ := List.append_of_mem hw
  obtain ⟨τ, o, v, -, hauth, -, -⟩ := sealed_request h hlog hgroup.isForwarded
  obtain ⟨now₀, a, hpass, ha⟩ := hauth.passed
  rcases ha with ⟨g', rfl⟩ | ⟨u, rfl⟩
  case inr => exact absurd hgroup hpass.toUser_again.not_toGroup
  obtain rfl := hpass.toGroup_again.unique hgroup
  have hearlier : ∀ {e : Event}, e ∈ serverLog past → e ∈ serverLog x.log := by
    intro e he
    rw [hlog, serverLog_append]
    exact List.mem_append_right _ (List.mem_cons_of_mem _ he)
  obtain ⟨ms, ⟨e, he⟩, hv⟩ : ∃ ms, Stored (serverLog past) g' ms ∧ v ∈ ms := by
    rcases hauth.addressed with hu | ⟨g, ms, hg, hstored, -, -, hv, -⟩
    · exact absurd hpass.toGroup hu.not_toGroup
    · obtain rfl := hg.unique hpass.toGroup
      exact ⟨ms, hstored, hv⟩
  -- the session at the frame loop is the one the post was written to
  have hpast := (sessions_reach hserver).history d
  have hstage : stages (serverPart x) d = .session σ := by
    show (x.thread (some d)).stage = _
    rw [hloop]
    rfl
  rw [hstage] at hpast
  have hname : v = σ.name := congrArg Session.name ((sessions_reach hserver).once _ _ _
    (hearlier hauth.looked.registered) hpast.1)
  have hstored : Stored (serverLog x.log) g' ms := ⟨e, hearlier he⟩
  have htable : Dict.get x.memory.groups g' = some ms := (groups_reach hserver g' ms).mpr hstored
  obtain ⟨q, hq⟩ := dispatch_again hpass σ.name now
  have hqpass := dispatch_passes hq (by rintro _ ⟨⟩)
  have hopened := opened_payload nonce hdata (canonical_reach hserver (mem_serverLog.mpr hw))
  have hcan := canDeliver hloop (unforged_wrote nonce hdata hw) hnow
  have hnext : (network A F printable).next x (some d, .deliver data now) =
      some (after x (some d) (x.memory, .act σ (.fanOut g' q), [.server (.frame d p)])) :=
    next_request hloop hlen hopened hq
  let y := after x (some d) (x.memory, .act σ (.fanOut g' q), [.server (.frame d p)])
  let z := after y (some d) (x.memory, .cast σ ms q none, [])
  have hrun : (network A F printable).next y (some d, .other .run) = some z := by
    have hthread : y.thread (some d) = .act σ (.fanOut g' q) := after_thread_self ..
    have hmemory : y.memory = x.memory := rfl
    have hmember : isMember σ.name (some ms) = true := by simpa [isMember] using hname ▸ hv
    simp only [Program.next, network, Input.isQuiet, hthread, hmemory, serve, handleClient, htable,
      hmember, if_true, Option.getD_some, Option.map_some, List.map_nil, z]
  exact ⟨y, z, ms, q, hcan, hnext, hrun, hstored, after_thread_self ..,
    hqpass.sender_bound (.inl ⟨g', rfl⟩), hqpass.sameContent (.inl ⟨g', rfl⟩)⟩

/-- Alice's post comes back from Bob. -/
theorem reflected_bob : ∃ (x y z : Config (Option Conn) Tables Phase NetEvent) (data : Bytes)
    (ms : List Str) (p q : Payload), CanDeliver demoAead x (some 1, .deliver data []) ∧
      (network demoAead demoInterpreter fun _ => true).next x (some 1, .deliver data []) = some y ∧
      (network demoAead demoInterpreter fun _ => true).next y (some 1, .other .run) = some z ∧
      Stored (serverLog x.log) (str "team") ms ∧
      z.thread (some 1) = .cast ⟨demoKey, str "bob"⟩ ms q none ∧
      q.find (str "from") = .str (str "bob") ∧ SameContent p q := by
  obtain ⟨x, later, past, p, hx, hlog, hloop, hgroup, hlen⟩ := exists_teamPosted
  have hw : .server (.wrote 0 (1, demoKey) p true) ∈ x.log := by
    rw [hlog]
    exact List.mem_append_right _ (List.mem_cons_self ..)
  have hcanonical := canonical_reach (server_reach hx) (mem_serverLog.mpr hw)
  obtain ⟨data, hdata, hdataLen⟩ := exists_sealed (A := demoAead) hcanonical demoKey rfl demoNonce
    (hlen.trans_lt (by decide))
  have hnow : ∀ d ∈ ([] : Str), d.val < 0x80 := List.forall_mem_nil _
  obtain ⟨y, z, ms, q, hall⟩ := reflected hx hw hgroup hloop demoNonce hdata (hdataLen ▸ hlen) hnow
  exact ⟨x, y, z, data, ms, p, q, hall⟩

/-! ## Replay -/

/-- **One frame, any number of messages.** In every state, when a client is at its frame loop, the
network can deliver a frame that it has once seen as often as it likes, and every time the message
in it is written to the recipient, who is there. -/
theorem replayed (h : (network A F printable).Reach (CanDeliver A) x)
    (hloop : x.thread (some c) = .loop σ) {data : Bytes} (hlen : data.length ≤ maxFrameSize)
    (hunforged : Unforged A x.log σ.key data) (hdata : opened A F σ.key data = some (.obj o))
    (hnow : ∀ d ∈ now, d.val < 0x80) (hd : dispatch printable σ.name now o = .ok (.forward u p))
    (ht : Dict.get x.memory.clients u = some t) (hkey : usable t.2 = true) (n : ℕ) :
    ∃ z, (network A F printable).Reach (CanDeliver A) z ∧ z.thread (some c) = .loop σ ∧
      z.memory = x.memory ∧ z.log = (List.replicate n [NetEvent.server (.wrote c t p true),
        .server (.looked c u (some t)), .server (.frame c o)]).flatten ++ x.log := by
  induction n with
  | zero => exact ⟨x, h, hloop, rfl, rfl⟩
  | succ n ih =>
    obtain ⟨y, hy, hyloop, hymemory, hylog⟩ := ih
    have hyunforged : Unforged A y.log σ.key data := by
      intro text htext
      rw [hylog]
      exact (hunforged text htext).append _
    rw [← hymemory] at ht
    obtain ⟨z, hz, hzloop, hzmemory, hzlog⟩ :=
      deliver_forward hy hyloop hlen hyunforged hdata hnow hd ht hkey
    refine ⟨z, hz, hzloop, hzmemory.trans hymemory, ?_⟩
    rw [hzlog, hylog, List.replicate_succ, List.flatten_cons, List.append_assoc]

/-- Bob gets Alice's text twice. -/
theorem replayed_twice : ∃ (x z : Config (Option Conn) Tables Phase NetEvent) (p : Payload),
    (network demoAead demoInterpreter fun _ => true).Reach (CanDeliver demoAead) z ∧
      z.thread (some 0) = .loop ⟨demoKey, str "alice"⟩ ∧ z.memory = x.memory ∧
      z.log = (List.replicate 2 [NetEvent.server (.wrote 0 (1, bobKey) p true),
        .server (.looked 0 (str "bob") (some (1, bobKey))),
        .server (.frame 0 (textTo (str "bob")))]).flatten ++ x.log := by
  obtain ⟨x, hx, hloop, hbob, -, hsealed, -⟩ := exists_aliceSealed
  obtain ⟨data, hdata, hlen, hopened⟩ := exists_hi
  have hd : dispatch (fun _ => true) (str "alice") [] (textTo (str "bob")) =
      .ok (.forward (str "bob") (userText [] (bindSender (str "alice") (textTo (str "bob"))))) :=
    rfl
  obtain ⟨z, hz⟩ := replayed hx hloop hlen (unforged_sealed demoNonce hdata hsealed) hopened
    (by simp) hd hbob rfl 2
  exact ⟨x, z, _, hz⟩

end GuardedIM
