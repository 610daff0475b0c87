import GuardedIM.Authenticity
import GuardedIM.InOrder
import GuardedIM.Window

/-!
# The chat: windows, clients, server

All parts at once. On some connections there is a window with its client; on the others there is
anybody, who sends what they like. A step is a step of one handler, one event of one window, or one
round of one `receive_loop`; they interleave freely. An event whose call sends a payload takes two
steps, and a round can come in between: what it does to the window, it does after `sendall`. The two
streams of a connection are given by the bodies of their frames, and a stream loses nothing and
keeps the order: that is TCP. A send can fail, and a loop can end, at any time.

The handshake is not in the streams. `recv_exact_socket` gives the handler the whole key, and `recv`
any part of what follows it as the name. If that is the name of the user, the frames are where they
should be; else the handler reads anything. A client that did not get the whole public key has no
window, or stops at the first frame.

* `chat`: the program. `chat_refines`: without the windows it is the server.
* `Tracks`: what the streams, the windows and the history have to do with each other.
-/

namespace GuardedIM

open Interleave Interleave.Program ChatClient

/-- A window whose user has logged in, with its client. -/
structure Window where
  /-- `client.aes_key` -/
  key : Key
  /-- the window -/
  gui : ChatGui
  /-- the event whose payload is sent, before it goes on -/
  handler : Option (Moment × GuiEvent)
  /-- the client is in `receive_loop` -/
  running : Bool

/-- The text in a payload that is sent, for the conversation `k`, which is not in the window yet. -/
def Window.pending (k : Str) (w : Window) : List Str :=
  (w.handler.bind fun p => (w.gui.method p.2).bind (Method.textFor k)).toList

/-- A connection. -/
structure Line where
  /-- where the handler is -/
  phase : Phase
  /-- the window, once there is one -/
  window : Option Window
  /-- what the client has sent and the handler has not read -/
  outbound : List Bytes

/-- What the connections share. -/
structure Wires where
  /-- the tables of the server -/
  tables : Tables
  /-- what was sent to each connection and has not been read there -/
  inbound : Conn → List Bytes

/-- What happens on a connection. -/
inductive ChatInput where
  /-- `ChatGUI.__init__`, and a key from `generate_aes_key` -/
  | login (username : Str) (key : Key)
  /-- the user does something in the window -/
  | user (m : Moment) (e : GuiEvent) (nonce : Nonce)
  /-- what follows the send, with the clock then -/
  | finish (timestamp : Str)
  /-- the client reads a frame -/
  | receive (timestamp : Str) (disk : Disk)
  /-- the client loses the connection -/
  | lost
  /-- the handler reads a frame of the client -/
  | read (readAt : UtcTime)
  /-- the handler reads a body from somebody else -/
  | deliver (data : Bytes) (readAt : UtcTime)
  /-- the handler makes another step -/
  | handle (i : Input) (nonce : Nonce)

/-- What a step reports. -/
inductive ChatEvent where
  /-- something in the server -/
  | server (e : Event)
  /-- a method of the client of `c` has sent its payload -/
  | called (c : Conn) (r : Method) (text : Str)
  /-- the client of `c` has read a frame with this value, if any -/
  | read (c : Conn) (v : Option Json)

section Chat

variable (A : Aead) (F : Json.Interpreter) (printable : CodePoint → Bool) (root : MediaRoot)
  (windows : Conn → Bool)

/-- The streams after a step of a handler; a send that goes out had a body. -/
def transmit (inbound : Conn → List Bytes) (nonce : Nonce) :
    List Event → Option (Conn → List Bytes)
  | [.wrote _ t p true] => (sealPayload A t.2 p nonce.1).map fun body =>
      Function.update inbound t.1 (inbound t.1 ++ [body])
  | _ => some inbound

/-- What a handler can be given, frames aside. The key is the one that the client sent; the name is
what `recv` returned. -/
def Line.admits (isWindow : Bool) (l : Line) : Input → Bool
  | .frame _ _ | .junk => false
  | .key (some k) => !isWindow || l.window.any fun w => decide (w.key = k)
  | _ => true

/-- One step on the connection `c`. -/
def converse (c : Conn) (g : Wires) (l : Line) :
    ChatInput → Option (Wires × Line × List ChatEvent)
  | .login username key =>
    match l.window, isSafeUsername (.str username) with
    | none, .ok true =>
      if windows c then some (g, { l with window := some ⟨key, .start username, none, true⟩ }, [])
      else none
    | _, _ => none
  | .user m e nonce =>
    match l.window with
    | none => none
    | some w =>
      match w.handler, e.byUser, w.gui.method e, w.gui.call printable m e with
      | none, true, some r, some (.sent text _) =>
        (sendEncrypted A w.key text nonce.1).map fun body =>
          (g, { l with window := some { w with handler := some (m, e) },
                       outbound := l.outbound ++ [body] }, [.called c r text])
      | none, true, _, _ =>
        some (g, { l with window := some { w with gui := w.gui.handle printable (m, e) } }, [])
      | _, _, _, _ => none
  | .finish timestamp =>
    match l.window with
    | none => none
    | some w =>
      w.handler.map fun p =>
        (g, { l with window := some { w with
          gui := w.gui.handle printable ({ p.1 with timestamp }, p.2), handler := none } }, [])
  | .receive timestamp disk =>
    match l.window, g.inbound c with
    | some w, body :: rest =>
      let g' : Wires := { g with inbound := Function.update g.inbound c rest }
      if w.running then
        if body.length ≤ maxFrameSize then
          let round := clientRound A F printable root w.gui.username w.key disk body
          let w' : Window :=
            { w with gui := w.gui.round timestamp round.effects, running := round.continues }
          some (g', { l with window := some w' }, [.read c (opened A F w.key body)])
        else some (g', { l with window := some { w with running := false } }, [])
      else none
    | _, _ => none
  | .lost => l.window.map fun w => (g, { l with window := some { w with running := false } }, [])
  | .read readAt =>
    match l.window, l.outbound, l.phase with
    | some w, body :: rest, .loop σ =>
      if σ.name = w.gui.username then
        (handleClient printable c g.tables l.phase
          (GuardedIM.delivered A F σ.key body readAt.isoformat)).map fun m =>
            ({ g with tables := m.1 }, { l with phase := m.2.1, outbound := rest },
              m.2.2.map .server)
      else none
    | _, _, _ => none
  | .deliver data readAt =>
    match l.phase with
    | .loop σ =>
      -- nobody's window, or one whose frames are not where the handler looks for them
      if l.window.all fun w => decide (σ.name ≠ w.gui.username) then
        (handleClient printable c g.tables l.phase
          (GuardedIM.delivered A F σ.key data readAt.isoformat)).map fun m =>
            ({ g with tables := m.1 }, { l with phase := m.2.1 }, m.2.2.map .server)
      else none
    | _ => none
  | .handle i nonce =>
    if l.admits (windows c) i then
      (handleClient printable c g.tables l.phase i).bind fun m =>
        (transmit A g.inbound nonce m.2.2).map fun inbound =>
          (⟨m.1, inbound⟩, { l with phase := m.2.1 }, m.2.2.map .server)
    else none

/-- The whole chat. -/
def chat : Program Conn Wires Line ChatInput ChatEvent where
  memory := ⟨⟨[], []⟩, fun _ => []⟩
  start := ⟨.idle, none, []⟩
  step := converse A F printable root windows

/-- The steps on a connection, one by one. -/
inductive Converses (c : Conn) (g : Wires) (l : Line) : Wires → Line → List ChatEvent → Prop where
  /-- the user logs in -/
  | login (username : Str) (key : Key) : windows c = true → l.window = none →
      SafeName 32 username →
      Converses c g l g { l with window := some ⟨key, .start username, none, true⟩ } []
  /-- the user does something, and the client sends nothing -/
  | user (w : Window) (m : Moment) (e : GuiEvent) : l.window = some w → w.handler = none →
      e.byUser = true → Converses c g l g
        { l with window := some { w with gui := w.gui.handle printable (m, e) } } []
  /-- the client sends something -/
  | called (w : Window) (m : Moment) (e : GuiEvent) (r : Method) (text : Str) (note : Option Str)
      (nonce : Nonce) (body : Bytes) : l.window = some w → w.handler = none → e.byUser = true →
      w.gui.method e = some r →
      r.call printable m.send w.gui.username m.utcnow = .sent text note →
      sendEncrypted A w.key text nonce.1 = some body →
      Converses c g l g
        { l with
          window := some { w with handler := some (m, e) }
          outbound := l.outbound ++ [body] } [.called c r text]
  /-- the event goes on behind the send -/
  | finish (w : Window) (m : Moment) (e : GuiEvent) (timestamp : Str) : l.window = some w →
      w.handler = some (m, e) →
      Converses c g l g
        { l with
          window := some { w with
            gui := w.gui.handle printable ({ m with timestamp }, e), handler := none } } []
  /-- the client reads a frame -/
  | receive (w : Window) (timestamp : Str) (disk : Disk) (body : Bytes) (rest : List Bytes)
      (running : Bool) : l.window = some w → w.running = true → g.inbound c = body :: rest →
      Converses c g l { g with inbound := Function.update g.inbound c rest }
        { l with
          window := some ⟨w.key, w.gui.round timestamp
            (clientRound A F printable root w.gui.username w.key disk body).effects, w.handler,
            running⟩ }
        [.read c (opened A F w.key body)]
  /-- a frame is too large, and the client stops reading -/
  | tooLarge (w : Window) (body : Bytes) (rest : List Bytes) : l.window = some w →
      g.inbound c = body :: rest →
      Converses c g l { g with inbound := Function.update g.inbound c rest }
        { l with window := some { w with running := false } } []
  /-- the connection is lost, and the client stops reading -/
  | lost (w : Window) : l.window = some w →
      Converses c g l g { l with window := some { w with running := false } } []
  /-- the handler reads a frame of the client -/
  | read (w : Window) (body : Bytes) (rest : List Bytes) (σ : Session) (readAt : UtcTime)
      (m : Tables × Phase × List Event) : l.window = some w → σ.name = w.gui.username →
      l.outbound = body :: rest → l.phase = .loop σ → handleClient printable c g.tables l.phase
        (GuardedIM.delivered A F σ.key body readAt.isoformat) = some m →
      Converses c g l { g with tables := m.1 } { l with phase := m.2.1, outbound := rest }
        (m.2.2.map .server)
  /-- or of somebody else -/
  | deliver (data : Bytes) (σ : Session) (readAt : UtcTime) (m : Tables × Phase × List Event) :
      (∀ w, l.window = some w → σ.name ≠ w.gui.username) → l.phase = .loop σ →
      handleClient printable c g.tables l.phase
        (GuardedIM.delivered A F σ.key data readAt.isoformat) = some m →
      Converses c g l { g with tables := m.1 } { l with phase := m.2.1 } (m.2.2.map .server)
  /-- the handler makes another step -/
  | handle (i : Input) (nonce : Nonce) (m : Tables × Phase × List Event)
      (inbound : Conn → List Bytes) : l.admits (windows c) i = true →
      handleClient printable c g.tables l.phase i = some m →
      transmit A g.inbound nonce m.2.2 = some inbound →
      Converses c g l ⟨m.1, inbound⟩ { l with phase := m.2.1 } (m.2.2.map .server)

end Chat

variable {A : Aead} {F : Json.Interpreter} {printable : CodePoint → Bool} {root : MediaRoot}
  {windows : Conn → Bool} {c d : Conn} {g g' : Wires} {l l' : Line} {es : List ChatEvent}

/-- **The inversion lemma.** -/
theorem chat_converses {i : ChatInput} {m : Wires × Line × List ChatEvent}
    (h : (chat A F printable root windows).step c g l i = some m) :
    Converses A F printable root windows c g l m.1 m.2.1 m.2.2 := by
  simp only [chat] at h
  unfold converse at h
  split at h
  · split at h
    · rename_i hwindow hname
      split_ifs at h with hc
      obtain rfl := Option.some.inj h
      obtain ⟨u, hu, hsafe⟩ := isSafeUsername_iff.mp hname
      obtain rfl := Json.str.inj hu
      exact .login _ _ hc hwindow hsafe
    · cases h
  · split at h
    · cases h
    · rename_i w hwindow
      split at h
      · rename_i r text note hhandler huser hmethod hcall
        rw [ChatGui.call, hmethod, Option.map_some] at hcall
        obtain ⟨body, hbody, rfl⟩ := Option.map_eq_some_iff.mp h
        exact .called w _ _ r text note _ body hwindow hhandler huser hmethod
          (Option.some.inj hcall) hbody
      · rename_i hhandler huser _
        obtain rfl := Option.some.inj h
        exact .user w _ _ hwindow hhandler huser
      · cases h
  · split at h
    · cases h
    · rename_i w hwindow
      obtain ⟨p, hhandler, rfl⟩ := Option.map_eq_some_iff.mp h
      exact .finish w p.1 p.2 _ hwindow hhandler
  · split at h
    · rename_i w body rest hwindow hinbound
      dsimp only at h
      split_ifs at h with hrunning
      · obtain rfl := Option.some.inj h
        exact .receive w _ _ body rest _ hwindow hrunning hinbound
      · obtain rfl := Option.some.inj h
        exact .tooLarge w body rest hwindow hinbound
    · cases h
  · obtain ⟨w, hwindow, rfl⟩ := Option.map_eq_some_iff.mp h
    exact .lost w hwindow
  · split at h
    · rename_i w body rest σ hwindow houtbound hphase
      split_ifs at h with hname
      obtain ⟨m, hm, rfl⟩ := Option.map_eq_some_iff.mp h
      exact .read w body rest σ _ m hwindow hname houtbound hphase hm
    · cases h
  · split at h
    · rename_i σ hphase
      split_ifs at h with hother
      obtain ⟨m, hm, rfl⟩ := Option.map_eq_some_iff.mp h
      refine .deliver _ σ _ m (fun w hwindow => ?_) hphase hm
      rw [hwindow] at hother
      exact of_decide_eq_true hother
    · cases h
  · split_ifs at h with hadmits
    obtain ⟨m, hm, h⟩ := Option.bind_eq_some_iff.mp h
    obtain ⟨inbound, hinbound, rfl⟩ := Option.map_eq_some_iff.mp h
    exact .handle _ _ m inbound hadmits hm hinbound

/-! ## The server in the chat -/

/-- The part of an event that is the server's. -/
def ChatEvent.server? : ChatEvent → Option Event
  | .server e => some e
  | _ => none

/-- What happened in the server. -/
def inServer (log : List ChatEvent) : List Event := log.filterMap ChatEvent.server?

/-- The server by itself. -/
def serverOf (x : Config Conn Wires Line ChatEvent) : Config Conn Tables Phase Event :=
  ⟨x.memory.tables, fun c => (x.thread c).phase, inServer x.log⟩

variable {x y : Config Conn Wires Line ChatEvent}

theorem inServer_append (log past : List ChatEvent) :
    inServer (log ++ past) = inServer log ++ inServer past := List.filterMap_append

@[simp] theorem inServer_map (es : List Event) : inServer (es.map .server) = es := by
  rw [inServer, List.filterMap_map]
  exact List.filterMap_some

/-- A step of a handler in the chat is a step of the server. -/
theorem serverOf_after {i : Input} {m : Tables × Phase × List Event} {g' : Wires} {l' : Line}
    (hm : handleClient printable c x.memory.tables (x.thread c).phase i = some m)
    (htables : g'.tables = m.1) (hphase : l'.phase = m.2.1) :
    (server printable).next (serverOf x) (c, i) =
      some (serverOf (after x c (g', l', m.2.2.map .server))) := by
  have hstep : (server printable).step c (serverOf x).memory ((serverOf x).thread c) i =
      some m := hm
  rw [Program.next, hstep, Option.map_some]
  congr 1
  show Config.mk _ _ _ = Config.mk _ _ _
  rw [after_log, inServer_append, inServer_map]
  congr 1
  · exact htables.symm
  · funext d
    by_cases hd : d = c
    · subst hd
      rw [after_thread_self, Function.update_self, hphase]
    · rw [after_thread_ne _ _ hd, Function.update_of_ne hd]
      rfl

/-- The rest does not concern it. -/
theorem serverOf_silent {g' : Wires} {l' : Line} (hes : inServer es = [])
    (htables : g'.tables = x.memory.tables) (hphase : l'.phase = (x.thread c).phase) :
    serverOf (after x c (g', l', es)) = serverOf x := by
  show Config.mk _ _ _ = Config.mk _ _ _
  rw [after_log, inServer_append, hes, List.nil_append]
  congr 1
  funext d
  by_cases hd : d = c
  · subst hd
    rw [after_thread_self]
    exact hphase
  · rw [after_thread_ne _ _ hd]

theorem not_frame_of_admits {isWindow : Bool} {i : Input} (h : l.admits isWindow i = true)
    (o : Payload) (now : Str) : i ≠ .frame o now := by
  rintro rfl
  cases h

/-- **Without the windows the chat is the server.** -/
theorem chat_refines : Refines (chat A F printable root windows) Any (server printable)
    (FromWire A F) serverOf where
  init := rfl
  step {x y a} _ hn := by
    obtain ⟨c, i⟩ := a
    obtain ⟨⟨g', l', es⟩, hm, rfl⟩ := next_eq_some hn
    -- a frame that is read came as a body
    have hread : ∀ {σ : Session} {data : Bytes} {readAt : UtcTime},
        (x.thread c).phase = .loop σ →
        FromWire A F (serverOf x) (c, GuardedIM.delivered A F σ.key data readAt.isoformat) := by
      intro σ data readAt hphase σ' o now hloop hframe
      obtain rfl := Phase.loop.inj (hphase.symm.trans hloop)
      obtain ⟨rfl, hlen, ho⟩ := delivered_frame hframe
      exact ⟨⟨data, hlen, ho⟩, readAt.ascii_isoformat⟩
    have hmoves : Converses A F printable root windows c x.memory (x.thread c) g' l' es :=
      chat_converses hm
    cases hmoves with
    | read w body rest σ readAt m _ _ _ hphase hm' =>
      exact .inr ⟨_, hread hphase, serverOf_after hm' rfl rfl⟩
    | deliver data σ readAt m _ hphase hm' =>
      exact .inr ⟨_, hread hphase, serverOf_after hm' rfl rfl⟩
    | handle i nonce m inbound hadmits hm' =>
      exact .inr ⟨(c, i), fromWire_quiet _ _ (not_frame_of_admits hadmits),
        serverOf_after hm' rfl rfl⟩
    | login | user | called | finish | receive | tooLarge | lost =>
      exact .inl (serverOf_silent rfl rfl rfl)

theorem serverOf_reach (h : (chat A F printable root windows).Reach Any x) :
    (server printable).Reach (FromWire A F) (serverOf x) := chat_refines.reach h

end GuardedIM
