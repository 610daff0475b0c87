import GuardedIM.Chat

/-!
# What the streams carry

Four things are said about a connection with a window, in every state of the chat: what the handler
has read and what is under way to it are among what the client sent, in that order, if the server
knows it by the name of its user; what the client has read and what is under way to it are among
what the handlers wrote to it; the window shows what the client has read; and it shows what its own
client has sent, up to the text of an event that is not at its end. As long as the handler keeps the
session, and the client reads, the first two leave nothing out.

* `Follows`: these four, with the key that both ends use.
* `tracks_reach`: they hold in every run.
-/

namespace GuardedIM

open Interleave Interleave.Program ChatClient List

/-! ## Reading the history -/

/-- The object in a value. -/
def objectOf : Option Json → Option Payload
  | some (.obj o) => some o
  | _ => none

/-- What the handler of `c` can find in a frame of the client. -/
def ChatEvent.request (F : Json.Interpreter) (c : Conn) : ChatEvent → Option Payload
  | .called d _ text => if d = c then objectOf (Json.loads F text) else none
  | _ => none

/-- What the client of `c` has sent, in order. -/
def requested (F : Json.Interpreter) (c : Conn) (log : List ChatEvent) : List Payload :=
  (log.filterMap (ChatEvent.request F c)).reverse

/-- A text that the user of `c` sent for the conversation `k`. -/
def ChatEvent.post (c : Conn) (k : Str) : ChatEvent → Option Str
  | .called d r _ => if d = c then r.textFor k else none
  | _ => none

/-- All these texts, in order. -/
def posted (c : Conn) (k : Str) (log : List ChatEvent) : List Str :=
  (log.filterMap (ChatEvent.post c k)).reverse

/-- What the client of `c` read. -/
def ChatEvent.readBy (c : Conn) : ChatEvent → Option (Option Json)
  | .read d v => if d = c then some v else none
  | _ => none

/-- All that it read, in order. -/
def readBy (c : Conn) (log : List ChatEvent) : List (Option Json) :=
  (log.filterMap (ChatEvent.readBy c)).reverse

/-- What went out to `d`, and who wrote it. -/
def Event.arrival (d : Conn) : Event → Option (Conn × Payload)
  | .wrote c t p ok => if t.1 = d ∧ ok = true then some (c, p) else none
  | _ => none

/-- All that went out to it, in order. -/
def arrivals (d : Conn) (log : List Event) : List (Conn × Payload) :=
  (log.filterMap (Event.arrival d)).reverse

/-- The handler has not left its loop. -/
def Phase.isOpen : Phase → Bool
  | .cleanup _ | .broadcast none | .listing none _ _ | .close | .closed => false
  | _ => true

/-- What a connection is like without a window. -/
structure Unused (F : Json.Interpreter) (log : List ChatEvent) (inbound outbound : List Bytes)
    (c : Conn) : Prop where
  /-- nothing is under way from it -/
  outbound : outbound = []
  /-- or to it -/
  inbound : inbound = []
  /-- its handler has no key -/
  keyless : ∀ k, .handshake c k ∉ inServer log
  /-- and has read nothing -/
  asked : asked c (inServer log) = []
  /-- nothing has been sent from here -/
  unrequested : requested F c log = []
  /-- or written to it -/
  unwritten : arrivals c (inServer log) = []
  /-- nothing has been read here -/
  unread : readBy c log = []
  /-- or posted -/
  unposted : ∀ k, posted c k log = []

/-- The server knows the connection by the name of the user, if it knows it. -/
def Window.IsKnown (c : Conn) (log : List Event) (w : Window) : Prop :=
  ∀ σ, .registered c σ ∈ log → σ.name = w.gui.username

/-- What it is like with one. -/
structure Follows (A : Aead) (F : Json.Interpreter) (printable : CodePoint → Bool)
    (log : List ChatEvent) (inbound outbound : List Bytes) (c : Conn) (ph : Phase) (w : Window) :
    Prop where
  /-- `connect` has checked the name -/
  named : SafeName 32 w.gui.username
  /-- the handler has the key of the client -/
  keyed : ∀ k, .handshake c k ∈ inServer log → k = w.key
  /-- an event that is not at its end has sent its payload -/
  busy : ∀ m e, w.handler = some (m, e) → e.byUser = true ∧ ∃ r text note,
    w.gui.method e = some r ∧ r.call printable m.send w.gui.username m.utcnow = .sent text note
  /-- what the handler reads is what the client sent, if the frames are where it looks for them -/
  asked : w.IsKnown c (inServer log) → (asked c (inServer log)).reverse ++
    outbound.filterMap (fun body => objectOf (opened A F w.key body)) <+ requested F c log
  /-- all of it, in a session -/
  askedAll : w.IsKnown c (inServer log) → ph.isOpen = true →
    (GuardedIM.asked c (inServer log)).reverse ++
      outbound.filterMap (fun body => objectOf (opened A F w.key body)) = requested F c log
  /-- what the client reads is what the handlers wrote -/
  read : readBy c log ++ inbound.map (opened A F w.key) <+
    (arrivals c (inServer log)).map fun e => some (.obj e.2)
  /-- all of it, as long as it reads -/
  readAll : w.running = true → readBy c log ++ inbound.map (opened A F w.key) =
    (arrivals c (inServer log)).map fun e => some (.obj e.2)
  /-- the window shows what the client has read -/
  shown : ∀ n k, n ∉ ChatGui.reserved → k ≠ str "System" →
    w.gui.saidBy n k = (readBy c log).filterMap fun v => v.bind (Json.said printable n k)
  /-- and what its user has sent -/
  own : ∀ k, k.head? ≠ some (cp '#') →
    (posted c k log).map Json.str <+ w.gui.saidBy (str "You") k ++ (w.pending k).map Json.str

/-- One or the other. -/
def Tracks (A : Aead) (F : Json.Interpreter) (printable : CodePoint → Bool) (log : List ChatEvent)
    (inbound outbound : List Bytes) (c : Conn) (ph : Phase) : Option Window → Prop
  | none => Unused F log inbound outbound c
  | some w => Follows A F printable log inbound outbound c ph w

variable {A : Aead} {F : Json.Interpreter} {printable : CodePoint → Bool} {root : MediaRoot}
  {windows : Conn → Bool} {c d : Conn} {k : Key} {σ : Session} {p : Payload} {t : Target}
  {ok : Bool} {tb tb' : Tables} {ph ph' : Phase} {es past : List Event} {log : List ChatEvent}
  {inbound inbound' outbound outbound' : List Bytes} {w : Window}
  {C : Config Conn Tables Phase Event → Conn × Input → Prop}
  {y : Config Conn Tables Phase Event} {x : Config Conn Wires Line ChatEvent}

theorem Window.IsKnown.of_append {es log : List Event} (h : w.IsKnown c (es ++ log)) :
    w.IsKnown c log := fun σ hσ => h σ (mem_append_right _ hσ)

/-- One event more. -/
theorem reverse_filterMap_cons {α β : Type*} (f : α → Option β) (a : α) (l : List α) :
    ((a :: l).filterMap f).reverse = (l.filterMap f).reverse ++ (f a).toList := by
  rw [filterMap_cons]
  rcases f a with _ | b
  · exact (append_nil _).symm
  · exact reverse_cons

theorem requested_append (es log : List ChatEvent) :
    requested F c (es ++ log) = requested F c log ++ requested F c es := by
  rw [requested, filterMap_append, reverse_append, requested, requested]

theorem posted_append (k : Str) (es log : List ChatEvent) :
    posted c k (es ++ log) = posted c k log ++ posted c k es := by
  rw [posted, filterMap_append, reverse_append, posted, posted]

theorem readBy_append (es log : List ChatEvent) :
    readBy c (es ++ log) = readBy c log ++ readBy c es := by
  rw [readBy, filterMap_append, reverse_append, readBy, readBy]

theorem arrivals_append (es log : List Event) :
    arrivals c (es ++ log) = arrivals c log ++ arrivals c es := by
  rw [arrivals, filterMap_append, reverse_append, arrivals, arrivals]

theorem mem_arrivals {log : List Event} (h : (c, p) ∈ arrivals d log) :
    ∃ t, .wrote c t p true ∈ log ∧ t.1 = d := by
  obtain ⟨e, he, harrival⟩ := mem_filterMap.mp (mem_reverse.mp h)
  cases e with
  | wrote c' t p' ok =>
    rw [Event.arrival] at harrival
    split_ifs at harrival with ht
    obtain ⟨rfl, rfl⟩ := Prod.mk.inj (Option.some.inj harrival)
    obtain ⟨ht, rfl⟩ := ht
    exact ⟨t, he, ht⟩
  | _ => cases harrival

/-- What the server reports says nothing of the clients. -/
theorem filterMap_server {α : Type*} {f : ChatEvent → Option α} (hf : ∀ e, f (.server e) = none)
    (es : List Event) : ((es.map .server).filterMap f).reverse = [] := by
  have hnone : (es.map .server).filterMap f = [] := by
    rw [filterMap_map, filterMap_eq_nil_iff]
    exact fun e _ => hf e
  rw [hnone, reverse_nil]

theorem requested_map (es : List Event) : requested F c (es.map .server) = [] :=
  filterMap_server (fun _ => rfl) es

theorem posted_map (k : Str) (es : List Event) : posted c k (es.map .server) = [] :=
  filterMap_server (fun _ => rfl) es

theorem readBy_map (es : List Event) : readBy c (es.map .server) = [] :=
  filterMap_server (fun _ => rfl) es

/-! ## The handlers -/

/-- The key that a handler is about to write to its own client with. -/
theorem Phase.pending_keyed (h : ph.pending c = some (t, p))
    (hknown : ph.Known past) :
    (t.1 = c ∧ (ph.stage = .keyed t.2 ∨ ∃ u, ph.stage = .session ⟨t.2, u⟩)) ∨
      ∃ u, .registered t.1 ⟨t.2, u⟩ ∈ past := by
  cases ph with
  | refuse k u =>
    obtain ⟨rfl, -⟩ := Prod.mk.inj (Option.some.inj h)
    exact .inl ⟨rfl, .inl rfl⟩
  | register τ =>
    obtain ⟨rfl, -⟩ := Prod.mk.inj (Option.some.inj h)
    exact .inl ⟨rfl, .inl rfl⟩
  | sendFirst τ us =>
    obtain ⟨rfl, -⟩ := Prod.mk.inj (Option.some.inj h)
    exact .inl ⟨rfl, .inr ⟨τ.name, rfl⟩⟩
  | listing so us ts =>
    cases ts with
    | nil => cases h
    | cons t' ts =>
      obtain ⟨rfl, -⟩ := Prod.mk.inj (Option.some.inj h)
      exact .inr (hknown _ (mem_cons_self ..))
  | act τ a =>
    cases a with
    | reply q =>
      obtain ⟨rfl, -⟩ := Prod.mk.inj (Option.some.inj h)
      exact .inl ⟨rfl, .inr ⟨τ.name, rfl⟩⟩
    | _ => cases h
  | forwardTo τ t' q | castTo τ t' ms q ack =>
    obtain ⟨rfl, -⟩ := Prod.mk.inj (Option.some.inj h)
    exact .inr hknown
  | _ => cases h

/-- A handler writes to nobody without a key. -/
theorem Moves.wrote_handshake (hy : (server printable).Reach C y)
    (h : Moves printable c y.memory (y.thread c) tb' ph' es) (hw : .wrote d t p ok ∈ es) :
    .handshake t.1 t.2 ∈ y.log := by
  have hs := sessions_reach hy
  have hkeyed : ∀ {u}, .registered t.1 ⟨t.2, u⟩ ∈ y.log → .handshake t.1 t.2 ∈ y.log :=
    fun hu => hs.keyed _ _ hu
  obtain ⟨-, hpending⟩ := h.pending hw
  rcases Phase.pending_keyed hpending ((known_reach hy).2 c) with ⟨hself, hstage⟩ | ⟨u, hu⟩
  · have hpast : (y.thread c).stage.History c y.log := hs.history c
    rcases hstage with hstage | ⟨u, hstage⟩
    · rw [hstage] at hpast
      rw [hself]
      exact hpast.1
    · rw [hstage, ← hself] at hpast
      exact hkeyed hpast.1
  · exact hkeyed hu

/-- The key comes from the input. -/
theorem handshake_input {i : Input} (h : handleClient printable c tb ph i = some (tb', ph', es))
    (he : .handshake d k ∈ es) : d = c ∧ i = .key (some k) := by
  have hphase : ph = .readKey ∧ es = [.handshake c k] := by
    have hm : Moves printable c tb ph tb' ph' es := handleClient_moves h
    cases hm with
    | key k' =>
      obtain ⟨rfl, rfl⟩ := Event.handshake.inj (mem_singleton.mp he)
      exact ⟨rfl, rfl⟩
    | _ => simp [sendPayload] at he
  obtain ⟨rfl, rfl⟩ := hphase
  obtain ⟨rfl, -⟩ := Event.handshake.inj (mem_singleton.mp he)
  refine ⟨rfl, ?_⟩
  cases i with
  | key aesKey =>
    rcases aesKey with _ | k'
    · cases h
    · obtain ⟨-, -, hes⟩ := (Prod.mk.inj (Option.some.inj h)).imp_right Prod.mk.inj
      obtain ⟨-, rfl⟩ := Event.handshake.inj (cons.inj hes).1
      rfl
  | _ => cases h

/-- A handler that reads reports what it has read, at most. -/
theorem loop_events (h : Moves printable c tb (.loop σ) tb' ph' es) :
    es = [] ∨ ∃ o, es = [.frame c o] := by
  cases h with
  | request _ o | raises _ o => exact .inr ⟨o, rfl⟩
  | _ => exact .inl rfl

/-- It writes nothing, and has its key already. -/
theorem loop_silent (h : Moves printable c tb (.loop σ) tb' ph' es) :
    (∀ k, .handshake d k ∉ es) ∧ arrivals d es = [] := by
  rcases loop_events h with rfl | ⟨o, rfl⟩
  · exact ⟨fun k => not_mem_nil, rfl⟩
  · exact ⟨fun k hk => by simp at hk, rfl⟩

/-- It has a session. -/
theorem loop_history (hy : (server printable).Reach C y) (hphase : y.thread c = .loop σ) :
    .registered c σ ∈ y.log ∧ .handshake c σ.key ∈ y.log := by
  have hpast : (y.thread c).stage.History c y.log := (sessions_reach hy).history c
  rw [hphase] at hpast
  exact ⟨hpast.1, (sessions_reach hy).keyed c σ hpast.1⟩

theorem asked_frame (o : Payload) : asked c [.frame c o] = [o] := by simp [asked, Event.request]

/-- What it has read was in the body. -/
theorem asked_delivered {body : Bytes} {now : Str}
    (h : handleClient printable c tb (.loop σ) (delivered A F σ.key body now) =
      some (tb', ph', es)) :
    (asked c es).reverse <+ (objectOf (opened A F σ.key body)).toList := by
  rcases loop_events (handleClient_moves h) with rfl | ⟨o, rfl⟩
  · exact nil_sublist _
  · obtain ⟨-, _, now', -, hinput⟩ := frame_input h (mem_singleton_self _)
    obtain ⟨-, -, ho⟩ := delivered_frame hinput
    rw [asked_frame, ho]
    exact Sublist.refl _

/-- And if it goes on, it has read what was in the body. -/
theorem asked_open {body : Bytes} {now : Str}
    (h : handleClient printable c tb (.loop σ) (delivered A F σ.key body now) =
      some (tb', ph', es)) (hopen : ph'.isOpen = true) :
    (asked c es).reverse = (objectOf (opened A F σ.key body)).toList := by
  rw [delivered] at h
  split_ifs at h
  · rw [received] at h
    split at h
    · rename_i o ho
      have hes : es = [.frame c o] := by
        rw [handleClient] at h
        split at h
        · exact (Prod.mk.inj (Prod.mk.inj (Option.some.inj h)).2).2.symm
        · exact (Prod.mk.inj (Prod.mk.inj (Option.some.inj h)).2).2.symm
      rw [hes, asked_frame, ho]
      rfl
    · rename_i hnone
      have hes : [] = es := (Prod.mk.inj (Prod.mk.inj (Option.some.inj h)).2).2
      have hobject : objectOf (opened A F σ.key body) = none := by
        rcases hv : opened A F σ.key body with _ | v
        · rfl
        · cases v with
          | obj o => exact absurd hv (hnone o)
          | _ => rfl
      rw [← hes, hobject]
      rfl
  · have hph : Phase.cleanup (some σ.name) = ph' :=
      (Prod.mk.inj (Prod.mk.inj (Option.some.inj h)).2).1
    rw [← hph] at hopen
    cases hopen

/-- A session does not begin again. -/
theorem Moves.isOpen (h : Moves printable c tb ph tb' ph' es) (hopen : ph'.isOpen = true) :
    ph.isOpen = true := by
  cases h with
  | list so | snapshot so =>
    cases so with
    | none => cases hopen
    | some σ => rfl
  | cleanup | close | unlisted => cases hopen
  | _ => rfl

/-! ## Steps of a handler -/

/-- What handlers do to a connection without a window. -/
theorem Unused.serve (h : Unused F log inbound outbound c) (hkey : ∀ k, .handshake c k ∉ es)
    (hasked : GuardedIM.asked c es = []) (harrivals : arrivals c es = []) :
    Unused F (es.map .server ++ log) inbound outbound c := by
  refine ⟨h.outbound, h.inbound, fun k hk => ?_, ?_, ?_, ?_, ?_, fun k => ?_⟩
  · rw [inServer_append, inServer_map] at hk
    exact (mem_append.mp hk).elim (hkey k) (h.keyless k)
  · rw [inServer_append, inServer_map, asked_append, hasked, h.asked, nil_append]
  · rw [requested_append, requested_map, h.unrequested, nil_append]
  · rw [inServer_append, inServer_map, arrivals_append, harrivals, h.unwritten, nil_append]
  · rw [readBy_append, readBy_map, h.unread, nil_append]
  · rw [posted_append, posted_map, h.unposted, nil_append]

/-- And to one with a window. -/
theorem Follows.serve (h : Follows A F printable log inbound outbound c ph w)
    (hkey : ∀ k, .handshake c k ∈ es → k = w.key) (hopen : ph'.isOpen = true → ph.isOpen = true)
    (hasked : w.IsKnown c (inServer log) → (GuardedIM.asked c es).reverse ++
      outbound'.filterMap (fun body => objectOf (opened A F w.key body)) <+
        outbound.filterMap fun body => objectOf (opened A F w.key body))
    (haskedAll : w.IsKnown c (inServer log) → ph'.isOpen = true →
      (GuardedIM.asked c es).reverse ++
        outbound'.filterMap (fun body => objectOf (opened A F w.key body)) =
          outbound.filterMap fun body => objectOf (opened A F w.key body))
    (hread : inbound'.map (opened A F w.key) = inbound.map (opened A F w.key) ++
      (arrivals c es).map fun e => some (.obj e.2)) :
    Follows A F printable (es.map .server ++ log) inbound' outbound' c ph' w := by
  have hreadBy : GuardedIM.readBy c (es.map .server ++ log) = GuardedIM.readBy c log := by
    rw [readBy_append, readBy_map, append_nil]
  have hlog : inServer (es.map .server ++ log) = es ++ inServer log := by
    rw [inServer_append, inServer_map]
  refine ⟨h.named, fun k hk => ?_, h.busy, fun hknown => ?_, fun hknown hph' => ?_, ?_,
    fun hrunning => ?_, fun n k hn hk => ?_, fun k hk => ?_⟩
  · rw [hlog] at hk
    exact (mem_append.mp hk).elim (hkey k) (h.keyed k)
  · rw [hlog] at hknown
    rw [hlog, asked_append, reverse_append, append_assoc, requested_append, requested_map,
      append_nil]
    exact ((hasked hknown.of_append).append_left _).trans (h.asked hknown.of_append)
  · rw [hlog] at hknown
    rw [hlog, asked_append, reverse_append, append_assoc, requested_append, requested_map,
      append_nil, haskedAll hknown.of_append hph']
    exact h.askedAll hknown.of_append (hopen hph')
  · rw [hreadBy, hlog, arrivals_append, map_append, hread, ← append_assoc]
    exact h.read.append_right _
  · rw [hreadBy, hlog, arrivals_append, map_append, hread, ← append_assoc, h.readAll hrunning]
  · rw [hreadBy]
    exact h.shown n k hn hk
  · rw [posted_append, posted_map, append_nil]
    exact h.own k hk

/-! ## Steps of the client -/

/-- A user logs in. -/
theorem Unused.login (h : Unused F log inbound outbound c) {username : Str}
    (hname : SafeName 32 username) (key : Key) :
    Follows A F printable log inbound outbound c ph ⟨key, .start username, none, true⟩ := by
  obtain ⟨rfl, rfl, hkeyless, hasked, hunrequested, hunwritten, hunread, hunposted⟩ := h
  refine ⟨hname, fun k hk => absurd hk (hkeyless k), fun _ _ hhandler => ?_, fun _ => ?_,
    fun _ _ => ?_, ?_, fun _ => ?_, fun n k _ _ => ?_, fun k _ => ?_⟩
  · cases hhandler
  · rw [hasked]
    exact nil_sublist _
  · rw [hasked, hunrequested]
    rfl
  · rw [hunread]
    exact nil_sublist _
  · rw [hunread, hunwritten]
    rfl
  · rw [hunread]
    rfl
  · rw [hunposted]
    exact nil_sublist _

/-- The user does something. -/
theorem Follows.user (h : Follows A F printable log inbound outbound c ph w) (m : Moment)
    {e : GuiEvent} (hhandler : w.handler = none) (he : e.byUser = true) :
    Follows A F printable log inbound outbound c ph
      { w with gui := w.gui.handle printable (m, e) } := by
  have hgrows := w.gui.grows_user printable m he
  have hidle : ∀ k, w.pending k = [] := fun k => by
    rw [Window.pending, hhandler]
    rfl
  refine ⟨?_, h.keyed, fun m' e' hbusy => ?_, fun hknown => ?_, fun hknown => ?_, h.read,
    h.readAll, fun n k hn hk => ?_, fun k hk => ?_⟩
  · exact hgrows.username ▸ h.named
  · rw [hhandler] at hbusy
    cases hbusy
  · exact h.asked fun σ hσ => (hknown σ hσ).trans hgrows.username
  · exact h.askedAll fun σ hσ => (hknown σ hσ).trans hgrows.username
  · rw [hgrows.saidBy_eq hn]
    exact h.shown n k hn hk
  · have hown := h.own k hk
    rw [hidle, map_nil, append_nil] at hown
    exact (hown.trans (hgrows.saidBy_extends _ k).sublist).trans (sublist_append_left _ _)

/-- The client sends something. -/
theorem Follows.called (h : Follows A F printable log inbound outbound c ph w) {m : Moment}
    {e : GuiEvent} (hhandler : w.handler = none) (he : e.byUser = true) {r : Method} {text : Str}
    {note : Option Str} (hr : w.gui.method e = some r)
    (hcall : r.call printable m.send w.gui.username m.utcnow = .sent text note) (nonce : Nonce)
    {body : Bytes} (hbody : sendEncrypted A w.key text nonce.1 = some body) :
    Follows A F printable (.called c r text :: log) inbound (outbound ++ [body]) c ph
      { w with handler := some (m, e) } := by
  have hopened : opened A F w.key body = Json.loads F text := by
    rw [opened, decryptMessage_sendEncrypted nonce hbody]
  have hrequested : requested F c (.called c r text :: log) =
      requested F c log ++ (objectOf (Json.loads F text)).toList := by
    rw [requested, reverse_filterMap_cons, ChatEvent.request, if_pos rfl, requested]
  have hposted : ∀ k, posted c k (.called c r text :: log) =
      posted c k log ++ (r.textFor k).toList := by
    intro k
    rw [posted, reverse_filterMap_cons, ChatEvent.post, if_pos rfl, posted]
  have hinServer : inServer (.called c r text :: log) = inServer log := rfl
  have hidle : ∀ k, w.pending k = [] := fun k => by
    rw [Window.pending, hhandler]
    rfl
  have hpending : ∀ k, Window.pending k { w with handler := some (m, e) } =
      (r.textFor k).toList := fun k => by
    rw [Window.pending, Option.bind_some, hr, Option.bind_some]
  have hbodies : [body].filterMap (fun body => objectOf (opened A F w.key body)) =
      (objectOf (Json.loads F text)).toList := by
    rw [filterMap_cons, hopened]
    rcases objectOf (Json.loads F text) with _ | o
    · rfl
    · rfl
  refine ⟨h.named, h.keyed, fun m' e' hbusy => ?_, fun hknown => ?_, fun hknown hopen => ?_, h.read,
    h.readAll, h.shown, fun k hk => ?_⟩
  · obtain ⟨rfl, rfl⟩ := Prod.mk.inj (Option.some.inj hbusy)
    exact ⟨he, r, text, note, hr, hcall⟩
  · rw [hinServer, hrequested, filterMap_append, ← append_assoc, hbodies]
    exact (h.asked hknown).append_right _
  · rw [hinServer, hrequested, filterMap_append, ← append_assoc, hbodies, h.askedAll hknown hopen]
  · have hown := h.own k hk
    rw [hidle, map_nil, append_nil] at hown
    rw [hposted, map_append, hpending]
    exact hown.append_right _

/-- What was sent comes into the window. -/
theorem Follows.finish (h : Follows A F printable log inbound outbound c ph w) {m : Moment}
    {e : GuiEvent} (hhandler : w.handler = some (m, e)) (timestamp : Str) :
    Follows A F printable log inbound outbound c ph
      { w with gui := w.gui.handle printable ({ m with timestamp }, e), handler := none } := by
  obtain ⟨he, r, text, note, hr, hcall⟩ := h.busy m e hhandler
  have hgrows := w.gui.grows_user printable { m with timestamp } he
  have hpending : ∀ k, w.pending k = (r.textFor k).toList := fun k => by
    rw [Window.pending, hhandler, Option.bind_some, hr, Option.bind_some]
  refine ⟨?_, h.keyed, fun m' e' hbusy => ?_, fun hknown => ?_, fun hknown => ?_, h.read,
    h.readAll, fun n k hn hk => ?_, fun k hk => ?_⟩
  · exact hgrows.username ▸ h.named
  · cases hbusy
  · exact h.asked fun σ hσ => (hknown σ hσ).trans hgrows.username
  · exact h.askedAll fun σ hσ => (hknown σ hσ).trans hgrows.username
  · rw [hgrows.saidBy_eq hn]
    exact h.shown n k hn hk
  · have hown := h.own k hk
    refine Sublist.trans ?_ (sublist_append_left _ _)
    rw [hpending] at hown
    rcases hs : r.textFor k with _ | s
    · rw [hs, Option.toList_none, map_nil, append_nil] at hown
      exact hown.trans (hgrows.saidBy_extends _ k).sublist
    · rw [hs] at hown
      dsimp only
      rw [ChatGui.saidBy_sent (m := { m with timestamp }) hr hcall hs hk]
      exact hown

/-- The client reads something. -/
theorem Follows.receive {body : Bytes}
    (h : Follows A F printable log (body :: inbound) outbound c ph w)
    (hrunning : w.running = true) (timestamp : Str) (disk : Disk) (running : Bool) :
    Follows A F printable (.read c (opened A F w.key body) :: log) inbound outbound c ph
      ⟨w.key, w.gui.round timestamp
        (clientRound A F printable root w.gui.username w.key disk body).effects, w.handler,
        running⟩ := by
  have hreadBy : GuardedIM.readBy c (.read c (opened A F w.key body) :: log) =
      GuardedIM.readBy c log ++ [opened A F w.key body] := by
    rw [GuardedIM.readBy, reverse_filterMap_cons, ChatEvent.readBy, if_pos rfl, GuardedIM.readBy,
      Option.toList_some]
  have hrequested : requested F c (.read c (opened A F w.key body) :: log) = requested F c log :=
    rfl
  have hposted : ∀ k, posted c k (.read c (opened A F w.key body) :: log) = posted c k log :=
    fun _ => rfl
  have hinServer : inServer (.read c (opened A F w.key body) :: log) = inServer log := rfl
  have husername : ∀ effects, (w.gui.round timestamp effects).username = w.gui.username :=
    fun effects => (w.gui.grows_round timestamp effects).username
  refine ⟨?_, h.keyed, fun m e hbusy => ?_, fun hknown => ?_, fun hknown => ?_, ?_, fun _ => ?_,
    fun n k hn hk => ?_, fun k hk => ?_⟩
  · show SafeName 32 (w.gui.round timestamp _).username
    rw [husername]
    exact h.named
  · dsimp only
    rw [ChatGui.method_round, husername]
    exact h.busy m e hbusy
  · rw [hinServer, hrequested]
    exact h.asked fun σ hσ => (hknown σ hσ).trans (husername _)
  · rw [hinServer, hrequested]
    exact h.askedAll fun σ hσ => (hknown σ hσ).trans (husername _)
  · rw [hreadBy, append_assoc]
    exact h.read
  · rw [hreadBy, append_assoc]
    exact h.readAll hrunning
  · rw [hreadBy, ChatGui.saidBy_round _ _ _ hn hk, filterMap_append, h.shown n k hn hk]
    congr 1
    rw [clientRound]
    rcases opened A F w.key body with _ | v
    · rfl
    · dsimp only
      rw [said_receive hn, filterMap_cons, Option.bind_some]
      rcases v.said printable n k with _ | s
      · rfl
      · rfl
  · have hpending : Window.pending k ⟨w.key, w.gui.round timestamp (clientRound A F printable root
        w.gui.username w.key disk body).effects, w.handler, running⟩ = w.pending k := by
      simp only [Window.pending, ChatGui.method_round]
    rw [hposted, hpending]
    exact (h.own k hk).trans
      (((w.gui.grows_round timestamp _).saidBy_extends _ k).sublist.append_right _)

/-- The client does not read something, and stops. -/
theorem Follows.skip {body : Bytes}
    (h : Follows A F printable log (body :: inbound) outbound c ph w) :
    Follows A F printable log inbound outbound c ph { w with running := false } where
  named := h.named
  keyed := h.keyed
  busy := h.busy
  asked := h.asked
  askedAll := h.askedAll
  read := ((sublist_cons_self _ _).append_left _).trans h.read
  readAll hrunning := by cases hrunning
  shown := h.shown
  own := h.own

/-- The client stops. -/
theorem Follows.stop (h : Follows A F printable log inbound outbound c ph w) :
    Follows A F printable log inbound outbound c ph { w with running := false } where
  named := h.named
  keyed := h.keyed
  busy := h.busy
  asked := h.asked
  askedAll := h.askedAll
  read := h.read
  readAll hrunning := by cases hrunning
  shown := h.shown
  own := h.own

/-! ## Every run -/

/-- What was written to `d` in a step, and how it gets there. -/
inductive Carries (A : Aead) (F : Json.Interpreter) (d : Conn) (past es : List Event)
    (inbound inbound' : List Bytes) : Prop where
  /-- nothing -/
  | nothing : arrivals d es = [] → inbound' = inbound → Carries A F d past es inbound inbound'
  /-- a payload, under the key of its handler -/
  | payload (c : Conn) (key : Key) (p : Payload) (nonce : Nonce) (body : Bytes) :
      es = [.wrote c (d, key) p true] → sealPayload A key p nonce.1 = some body →
      inbound' = inbound ++ [body] → .handshake d key ∈ past → Json.Canonical F (.obj p) →
      Carries A F d past es inbound inbound'

/-- A step in which the handler of `d` reads nothing. -/
theorem Tracks.serve {window : Option Window}
    (h : Tracks A F printable log inbound outbound d ph window)
    (hopen : ph'.isOpen = true → ph.isOpen = true)
    (hkey : ∀ k, .handshake d k ∈ es → ∃ w, window = some w ∧ k = w.key)
    (hasked : asked d es = []) (hread : Carries A F d (inServer log) es inbound inbound') :
    Tracks A F printable (es.map .server ++ log) inbound' outbound d ph' window := by
  cases window with
  | none =>
    have hunused : Unused F log inbound outbound d := h
    have hkeyless : ∀ k, .handshake d k ∉ es := by
      intro k hk
      obtain ⟨w, ⟨⟩, -⟩ := hkey k hk
    cases hread with
    | nothing harrivals hinbound => exact hinbound ▸ hunused.serve hkeyless hasked harrivals
    | payload c key p nonce body _ _ _ hpast => exact absurd hpast (hunused.keyless key)
  | some w =>
    have hfollows : Follows A F printable log inbound outbound d ph w := h
    have hkeyed : ∀ k, .handshake d k ∈ es → k = w.key := by
      intro k hk
      obtain ⟨w', ⟨⟩, hk⟩ := hkey k hk
      exact hk
    refine hfollows.serve hkeyed hopen (fun _ => by rw [hasked]; exact Sublist.refl _)
      (fun _ _ => by rw [hasked]; rfl) ?_
    cases hread with
    | nothing harrivals hinbound => rw [harrivals, hinbound, map_nil, append_nil]
    | payload c key p nonce body hes hbody hinbound hpast hcanonical =>
      obtain rfl := hfollows.keyed key hpast
      have harrivals : arrivals d es = [(c, p)] := by
        rw [hes, arrivals, filterMap_cons, Event.arrival, if_pos ⟨rfl, rfl⟩]
        rfl
      rw [hinbound, harrivals, map_append, map_singleton, map_singleton,
        opened_payload nonce hbody hcanonical]

theorem arrivals_eq_nil (h : ∀ c t p, .wrote c t p true ∈ es → t.1 ≠ d) : arrivals d es = [] := by
  rw [arrivals, filterMap_eq_nil_iff.mpr, reverse_nil]
  intro e he
  cases e with
  | wrote c t p ok =>
    rw [Event.arrival, if_neg]
    rintro ⟨hd, rfl⟩
    exact h c t p he hd
  | _ => rfl

/-- What a send does to the streams. -/
theorem transmit_carries {streams streams' : Conn → List Bytes} {nonce : Nonce}
    (hy : (server printable).Reach (FromWire A F) y)
    (h : Moves printable c y.memory (y.thread c) tb' ph' es)
    (hafter : ∀ {t p}, .wrote c t p true ∈ es → Json.Canonical F (.obj p))
    (hsend : transmit A streams nonce es = some streams') (d : Conn) :
    Carries A F d y.log es (streams d) (streams' d) := by
  unfold transmit at hsend
  split at hsend
  · rename_i c' t p
    obtain ⟨body, hbody, rfl⟩ := Option.map_eq_some_iff.mp hsend
    have hmem : .wrote c' t p true ∈ [Event.wrote c' t p true] := mem_singleton_self _
    obtain rfl : c' = c := h.conn _ hmem
    by_cases hd : d = t.1
    · subst hd
      rw [Function.update_self]
      exact .payload c' t.2 p nonce body rfl hbody rfl (h.wrote_handshake hy hmem) (hafter hmem)
    · rw [Function.update_of_ne hd]
      refine .nothing (arrivals_eq_nil fun c t p he => ?_) rfl
      obtain ⟨-, rfl, -⟩ := Event.wrote.inj (mem_singleton.mp he)
      exact Ne.symm hd
  · rename_i hnone
    obtain rfl := Option.some.inj hsend
    refine .nothing (arrivals_eq_nil fun c' t p he => ?_) rfl
    rcases h.events with rfl | ⟨e, rfl⟩
    · cases he
    · obtain rfl := mem_singleton.mp he
      exact absurd rfl (hnone c' t p)

/-- A handler that is not given a frame reads nothing. -/
theorem asked_quiet {i : Input} (hi : ∀ o now, i ≠ .frame o now)
    (h : handleClient printable c tb ph i = some (tb', ph', es)) : asked d es = [] := by
  rw [asked, filterMap_eq_nil_iff]
  intro e he
  cases e with
  | frame c' o =>
    obtain ⟨-, _, now, -, rfl⟩ := frame_input h he
    exact absurd rfl (hi o now)
  | _ => rfl

/-- A client does something on another connection. -/
theorem Tracks.other {window : Option Window} {e : ChatEvent}
    (h : Tracks A F printable log inbound outbound d ph window) (hserver : e.server? = none)
    (hrequest : e.request F d = none) (hpost : ∀ k, e.post d k = none)
    (hread : e.readBy d = none) : Tracks A F printable (e :: log) inbound outbound d ph window := by
  have hinServer : inServer (e :: log) = inServer log := by
    rw [inServer, filterMap_cons_none hserver, inServer]
  have hrequested : requested F d (e :: log) = requested F d log := by
    rw [requested, filterMap_cons_none hrequest, requested]
  have hposted : ∀ k, posted d k (e :: log) = posted d k log := by
    intro k
    rw [posted, filterMap_cons_none (hpost k), posted]
  have hreadBy : readBy d (e :: log) = readBy d log := by
    rw [readBy, filterMap_cons_none hread, readBy]
  cases window with
  | none =>
    obtain ⟨houtbound, hinbound, hkeyless, hasked, hunrequested, hunwritten, hunread, hunposted⟩ :=
      h
    exact ⟨houtbound, hinbound, hinServer ▸ hkeyless, hinServer ▸ hasked,
      hrequested ▸ hunrequested, hinServer ▸ hunwritten, hreadBy ▸ hunread,
      fun k => hposted k ▸ hunposted k⟩
  | some w =>
    obtain ⟨hnamed, hkeyed, hbusy, hasked, haskedAll, hread, hreadAll, hshown, hown⟩ := h
    refine ⟨hnamed, hinServer ▸ hkeyed, hbusy, ?_, ?_, ?_, ?_, ?_, fun k hk => ?_⟩
    · rw [hinServer, hrequested]
      exact hasked
    · rw [hinServer, hrequested]
      exact haskedAll
    · rw [hinServer, hreadBy]
      exact hread
    · rw [hinServer, hreadBy]
      exact hreadAll
    · rw [hreadBy]
      exact hshown
    · rw [hposted]
      exact hown k hk

section Step

variable {g : Wires} {l : Line} {es : List ChatEvent}

/-- A step elsewhere. -/
theorem Converses.tracks_other
    (h : Converses A F printable root windows c x.memory (x.thread c) g l es)
    (hserver : (server printable).Reach (FromWire A F) (serverOf x))
    (hafter : ∀ {c t p}, .wrote c t p true ∈ inServer es → Json.Canonical F (.obj p))
    (hdc : d ≠ c) {window : Option Window}
    (hx : Tracks A F printable x.log (x.memory.inbound d) outbound d ph window) :
    Tracks A F printable (es ++ x.log) (g.inbound d) outbound d ph window := by
  -- the events of a handler are its own
  have hhandler : ∀ {i : Input} {m : Tables × Phase × List Event},
      handleClient printable c x.memory.tables (x.thread c).phase i = some m →
      (∀ k, .handshake d k ∉ m.2.2) ∧ asked d m.2.2 = [] := by
    intro i m hm
    have hconn := (handleClient_moves hm).conn
    refine ⟨fun k hk => hdc (hconn _ hk), ?_⟩
    exact (others_silent (d := d) fun e he => (hconn e he).trans_ne (Ne.symm hdc)).1
  have hreads : ∀ {σ : Session} {i : Input} {m : Tables × Phase × List Event},
      (x.thread c).phase = .loop σ →
      handleClient printable c x.memory.tables (x.thread c).phase i = some m →
      Tracks A F printable (m.2.2.map .server ++ x.log) (x.memory.inbound d) outbound d ph
        window := by
    intro σ i m hphase hm
    obtain ⟨hkey, hasked⟩ := hhandler hm
    refine hx.serve id (fun k hk => absurd hk (hkey k)) hasked (.nothing ?_ rfl)
    rw [hphase] at hm
    exact (loop_silent (handleClient_moves hm)).2
  cases h with
  | login | user | finish | lost => exact hx
  | called => exact hx.other rfl (if_neg (Ne.symm hdc)) (fun _ => if_neg (Ne.symm hdc)) rfl
  | receive =>
    dsimp only
    rw [Function.update_of_ne hdc]
    exact hx.other rfl rfl (fun _ => rfl) (if_neg (Ne.symm hdc))
  | tooLarge =>
    dsimp only
    rw [Function.update_of_ne hdc]
    exact hx
  | read w body rest σ readAt m _ _ _ hphase hm => exact hreads hphase hm
  | deliver data σ readAt m _ hphase hm => exact hreads hphase hm
  | handle i nonce m inbound _ hm hsend =>
    obtain ⟨hkey, hasked⟩ := hhandler hm
    rw [inServer_map] at hafter
    exact hx.serve id (fun k hk => absurd hk (hkey k)) hasked
      (transmit_carries hserver (handleClient_moves hm) hafter hsend d)

/-- A step on the connection. -/
theorem Converses.tracks_self
    (h : Converses A F printable root windows c x.memory (x.thread c) g l es)
    (hserver : (server printable).Reach (FromWire A F) (serverOf x))
    (hafter : ∀ {c t p}, .wrote c t p true ∈ inServer es → Json.Canonical F (.obj p))
    (hc : windows c = true)
    (hx : Tracks A F printable x.log (x.memory.inbound c) (x.thread c).outbound c (x.thread c).phase
      (x.thread c).window) :
    Tracks A F printable (es ++ x.log) (g.inbound c) l.outbound c l.phase l.window := by
  have hfollows : ∀ w, (x.thread c).window = some w → Follows A F printable x.log
      (x.memory.inbound c) (x.thread c).outbound c (x.thread c).phase w := by
    intro w hw
    rw [hw] at hx
    exact hx
  cases h with
  | login username key _ hwindow hname =>
    rw [hwindow] at hx
    exact Unused.login hx hname key
  | user w m e hwindow hhandler he => exact (hfollows w hwindow).user m hhandler he
  | called w m e r text note nonce body hwindow hhandler he hr hcall hbody =>
    exact (hfollows w hwindow).called hhandler he hr hcall nonce hbody
  | finish w m e timestamp hwindow hhandler => exact (hfollows w hwindow).finish hhandler timestamp
  | receive w timestamp disk body rest running hwindow hrunning hinbound =>
    dsimp only
    rw [Function.update_self]
    have hw := hfollows w hwindow
    rw [hinbound] at hw
    exact hw.receive hrunning timestamp disk running
  | tooLarge w body rest hwindow hinbound =>
    dsimp only
    rw [Function.update_self]
    have hw := hfollows w hwindow
    rw [hinbound] at hw
    exact hw.skip
  | lost w hwindow => exact (hfollows w hwindow).stop
  | read w body rest σ readAt m hwindow _ houtbound hphase hm =>
    have hw := hfollows w hwindow
    have hkey := hw.keyed _ (loop_history hserver hphase).2
    have hbodies : (x.thread c).outbound.filterMap
        (fun body => objectOf (opened A F w.key body)) =
        (objectOf (opened A F σ.key body)).toList ++
          rest.filterMap fun body => objectOf (opened A F w.key body) := by
      rw [houtbound, filterMap_cons, hkey]
      rcases objectOf (opened A F w.key body) with _ | o
      · rfl
      · rfl
    rw [hphase] at hm
    rw [hwindow]
    have hquiet := loop_silent (d := c) (handleClient_moves hm)
    refine hw.serve (fun k hk => absurd hk (hquiet.1 k)) (fun _ => ?_) (fun _ => ?_)
      (fun _ hopen => ?_) ?_
    · rw [hphase]
      rfl
    · rw [hbodies]
      exact (asked_delivered hm).append_right _
    · rw [hbodies, asked_open hm hopen]
    · rw [hquiet.2, map_nil, append_nil]
  | deliver data σ readAt m hother hphase hm =>
    obtain ⟨hregistered, hhandshake⟩ := loop_history hserver hphase
    rw [hphase] at hm
    have hquiet := loop_silent (d := c) (handleClient_moves hm)
    rcases hwindow : (x.thread c).window with _ | w
    · -- without a window there is no session
      rw [hwindow] at hx
      have hunused : Unused F x.log (x.memory.inbound c) (x.thread c).outbound c := hx
      exact absurd hhandshake (hunused.keyless _)
    · -- the session does not have the name of the user
      have hunknown : ¬ w.IsKnown c (inServer x.log) :=
        fun hknown => hother w hwindow (hknown σ hregistered)
      refine (hfollows w hwindow).serve (fun k hk => absurd hk (hquiet.1 k)) (fun _ => ?_)
        (fun hknown => absurd hknown hunknown) (fun hknown => absurd hknown hunknown) ?_
      · rw [hphase]
        rfl
      · rw [hquiet.2, map_nil, append_nil]
  | handle i nonce m inbound hadmits hm hsend =>
    rw [inServer_map] at hafter
    refine hx.serve (handleClient_moves hm).isOpen (fun k hk => ?_)
      (asked_quiet (not_frame_of_admits hadmits) hm)
      (transmit_carries hserver (handleClient_moves hm) hafter hsend c)
    obtain ⟨-, rfl⟩ := handshake_input hm hk
    have hwindow : (x.thread c).window.any fun w => decide (w.key = k) := by
      rw [Line.admits, hc] at hadmits
      exact hadmits
    obtain ⟨w, hw, hkey⟩ := (Option.any_eq_true ..).mp hwindow
    exact ⟨w, hw, (of_decide_eq_true hkey).symm⟩

end Step

/-- **In every run** the streams, the windows and the history agree. -/
theorem tracks_reach (h : (chat A F printable root windows).Reach Any x) :
    ∀ d, windows d = true → Tracks A F printable x.log (x.memory.inbound d)
      (x.thread d).outbound d (x.thread d).phase (x.thread d).window := by
  refine h.invariant (I := fun x => ∀ d, windows d = true → Tracks A F printable x.log
    (x.memory.inbound d) (x.thread d).outbound d (x.thread d).phase (x.thread d).window) ?_ ?_
  · exact fun d _ => ⟨rfl, rfl, fun k => not_mem_nil, rfl, rfl, rfl, rfl, fun k => rfl⟩
  · rintro z c i ⟨g, l, es⟩ hreach hz - hm d hd
    have hnext : (chat A F printable root windows).Reach Any (after z c (g, l, es)) :=
      hreach.step (a := (c, i)) trivial (by rw [Program.next, hm, Option.map_some])
    have hserver := serverOf_reach hreach
    have hserver' := serverOf_reach hnext
    have hmoves : Converses A F printable root windows c z.memory (z.thread c) g l es :=
      chat_converses hm
    have hafter : ∀ {c t p}, .wrote c t p true ∈ inServer es → Json.Canonical F (.obj p) := by
      intro c' t p hp
      have hwrote : .wrote c' t p true ∈ inServer (es ++ z.log) := by
        rw [inServer_append]
        exact mem_append_left _ hp
      exact canonical_reach hserver' hwrote
    have htracks := hz d hd
    rw [after_memory, after_log]
    by_cases hdc : d = c
    · subst hdc
      rw [after_thread_self]
      exact hmoves.tracks_self hserver hafter hd htracks
    · rw [after_thread_ne _ _ hdc]
      exact hmoves.tracks_other hserver hafter hdc htracks

end GuardedIM
