import GuardedIM.Conversation
import GuardedIM.FrameSize
import GuardedIM.Inert
import GuardedIM.ReceiveLoop
import GuardedIM.Simulation

/-!
# The server behind a network that is not trusted

The frames between the clients and the server pass through a network that may keep them, drop
them, change their order, send them again or back to where they came from, and make up any bytes.
It cannot make a text for a key it does not know: a body that decrypts under a key decrypts to a
text that was sealed under that key before. That is what AES-GCM is used for, and `Unforged` asks
it of every frame. Nothing in a frame says who sealed it, for whom or when, so nothing else holds.

The `network` runs the handlers on such frames. `network_refines` says that the server has no
other runs there than by itself, and `frames_sealed` what is known about a frame it reads.
-/

namespace GuardedIM

open Interleave Interleave.Program

/-- What happens outside the handlers. -/
inductive NetInput where
  /-- the holder of a key seals a text under it -/
  | encrypt (key : Key) (text : Str)
  /-- a frame reaches the handler, and the clock's `isoformat()` -/
  | deliver (data : Bytes) (now : Str)
  /-- what is not a frame -/
  | other (i : Input)

/-- What a step on the network reports. -/
inductive NetEvent where
  /-- a client sealed a text -/
  | sealed (key : Key) (text : Str)
  /-- a handler reports something -/
  | server (e : Event)

/-- A handler gets the next body, if it is within the limit. -/
def delivered (A : Aead) (F : Json.Interpreter) (key : Key) (data : Bytes) (now : Str) : Input :=
  if data.length ≤ maxFrameSize then received A F key data now else .eof

/-- A step of a handler, as a step on the network. -/
def serve (printable : CodePoint → Bool) (c : Conn) (tb : Tables) (ph : Phase) (i : Input) :
    Option (Tables × Phase × List NetEvent) :=
  (handleClient printable c tb ph i).map fun m => (m.1, m.2.1, m.2.2.map .server)

variable (A : Aead) (F : Json.Interpreter) (printable : CodePoint → Bool)

/-- The handlers, and the clients as one thread more. -/
def network : Program (Option Conn) Tables Phase NetInput NetEvent where
  memory := ⟨[], []⟩
  start := .idle
  step t tb ph i :=
    match t, i with
    | none, .encrypt key text => some (tb, ph, [.sealed key text])
    | some c, .deliver data now =>
      match ph with
      | .loop σ => serve printable c tb ph (delivered A F σ.key data now)
      | _ => none
    | some c, .other i => if i.isQuiet then serve printable c tb ph i else none
    | _, _ => none

/-- The text was sealed under the key: by a client, or by the server. -/
inductive Sealed (log : List NetEvent) (key : Key) (text : Str) : Prop where
  /-- `send_encrypted` -/
  | client : .sealed key text ∈ log → Sealed log key text
  /-- `send_payload` -/
  | server {c d : Conn} {p : Payload} {ok : Bool} : .server (.wrote c (d, key) p ok) ∈ log →
      Json.dumps (.obj p) = text → Sealed log key text

/-- The body decrypts to nothing that was not sealed. -/
def Unforged (log : List NetEvent) (key : Key) (data : Bytes) : Prop :=
  ∀ text, decryptMessage A data key = .ok text → Sealed log key text

/-- What the network can do: it delivers unforged bodies, and the clock's text is ASCII. -/
def CanDeliver (x : Config (Option Conn) Tables Phase NetEvent)
    (a : Option Conn × NetInput) : Prop :=
  ∀ σ data now, x.thread a.1 = .loop σ → a.2 = .deliver data now →
    Unforged A x.log σ.key data ∧ ∀ d ∈ now, d.val < 0x80

/-- The part of an event that is the server's. -/
def NetEvent.server? : NetEvent → Option Event
  | .server e => some e
  | .sealed _ _ => none

/-- The server's history. -/
def serverLog (log : List NetEvent) : List Event := log.filterMap NetEvent.server?

/-- The server alone. -/
def serverPart (x : Config (Option Conn) Tables Phase NetEvent) :
    Config Conn Tables Phase Event :=
  ⟨x.memory, fun c => x.thread (some c), serverLog x.log⟩

variable {A F printable} {x : Config (Option Conn) Tables Phase NetEvent}
  {log past later : List NetEvent} {key : Key} {text : Str} {σ : Session} {c d : Conn}
  {o p : Payload} {u : Str} {ok : Bool}

theorem serverLog_append (log past : List NetEvent) :
    serverLog (log ++ past) = serverLog log ++ serverLog past := List.filterMap_append

@[simp] theorem serverLog_map (es : List Event) : serverLog (es.map .server) = es := by
  rw [serverLog, List.filterMap_map]
  exact List.filterMap_some

@[simp] theorem mem_serverLog {e : Event} : e ∈ serverLog log ↔ .server e ∈ log := by
  rw [serverLog, List.mem_filterMap]
  constructor
  · rintro ⟨_ | e', he, heq⟩
    · cases heq
    · obtain rfl := Option.some.inj heq
      exact he
  · exact fun he => ⟨_, he, rfl⟩

/-- An event of the server's history, and what was before it. -/
theorem exists_of_serverLog {later before : List Event} {e : Event}
    (h : serverLog log = later ++ e :: before) :
    ∃ after past, log = after ++ .server e :: past ∧ serverLog past = before := by
  rw [serverLog, List.filterMap_eq_append_iff] at h
  obtain ⟨after, rest, rfl, -, hrest⟩ := h
  obtain ⟨skipped, e', past, rfl, -, he, hpast⟩ := List.filterMap_eq_cons_iff.mp hrest
  refine ⟨after ++ skipped, past, ?_, hpast⟩
  rcases e' with _ | e'
  · cases he
  · obtain rfl := Option.some.inj he
    rw [List.append_assoc]

theorem Sealed.append (h : Sealed past key text) (log : List NetEvent) :
    Sealed (log ++ past) key text := by
  cases h with
  | client hs => exact .client (List.mem_append_right _ hs)
  | server hw hp => exact .server (List.mem_append_right _ hw) hp

/-! ## The server on the network -/

theorem serverPart_after {m : Tables × Phase × List Event} :
    serverPart (after x (some c) (m.1, m.2.1, m.2.2.map .server)) = after (serverPart x) c m := by
  rw [serverPart, after_memory, after_log, serverLog_append, serverLog_map]
  show Config.mk _ _ _ = Config.mk _ _ _
  congr 1
  funext d
  by_cases hd : d = c
  · subst hd
    rw [after_thread_self, Function.update_self]
  · rw [after_thread_ne _ _ (fun h => hd (Option.some.inj h)), Function.update_of_ne hd]
    rfl

/-- A step of a handler on the network is a step of the server. -/
theorem next_serve {i : Input} {m : Tables × Phase × List NetEvent}
    (h : serve printable c x.memory (x.thread (some c)) i = some m) :
    (server printable).next (serverPart x) (c, i) = some (serverPart (after x (some c) m)) := by
  rw [serve] at h
  obtain ⟨m', hm', rfl⟩ := Option.map_eq_some_iff.mp h
  rw [serverPart_after]
  exact congrArg (Option.map _) hm'

/-- The steps of the network, one by one. -/
inductive NetMoves (A : Aead) (F : Json.Interpreter) (printable : CodePoint → Bool)
    (x : Config (Option Conn) Tables Phase NetEvent) :
    Option Conn × NetInput → Tables × Phase × List NetEvent → Prop where
  /-- a client seals a text -/
  | encrypt (key : Key) (text : Str) : NetMoves A F printable x (none, .encrypt key text)
      (x.memory, x.thread none, [.sealed key text])
  /-- a handler reads a frame -/
  | deliver {c : Conn} {σ : Session} {data : Bytes} {now : Str}
      {m : Tables × Phase × List NetEvent} : x.thread (some c) = .loop σ →
      serve printable c x.memory (.loop σ) (delivered A F σ.key data now) = some m →
      NetMoves A F printable x (some c, .deliver data now) m
  /-- a handler does anything else -/
  | other {c : Conn} {i : Input} {m : Tables × Phase × List NetEvent} : i.isQuiet = true →
      serve printable c x.memory (x.thread (some c)) i = some m →
      NetMoves A F printable x (some c, .other i) m

theorem network_moves {t : Option Conn} {i : NetInput} {m : Tables × Phase × List NetEvent}
    (h : (network A F printable).step t x.memory (x.thread t) i = some m) :
    NetMoves A F printable x (t, i) m := by
  rcases t with _ | c
  · cases i with
    | encrypt key text =>
      obtain rfl := Option.some.inj h
      exact .encrypt key text
    | deliver | other => cases h
  · cases i with
    | encrypt => cases h
    | deliver data now =>
      simp only [network] at h
      split at h
      · rename_i σ hloop
        exact .deliver hloop (hloop ▸ h)
      · cases h
    | other i =>
      simp only [network] at h
      split_ifs at h with hi
      exact .other hi h

/-- What a delivered frame is for the handler. -/
theorem delivered_frame {data : Bytes} {now now' : Str}
    (h : delivered A F key data now = .frame o now') :
    now' = now ∧ data.length ≤ maxFrameSize ∧ opened A F key data = some (.obj o) := by
  rw [delivered] at h
  split_ifs at h with hlen
  rw [received] at h
  split at h
  · rename_i o' ho
    obtain ⟨rfl, rfl⟩ := Input.frame.inj h
    exact ⟨rfl, hlen, ho⟩
  · cases h

/-- **The server on the network is the server**, on frames that it decrypted. -/
theorem network_refines : Refines (network A F printable) (CanDeliver A) (server printable)
    (FromWire A F) serverPart where
  init := rfl
  step {x y a} hC hn := by
    obtain ⟨t, i⟩ := a
    obtain ⟨m, hm, rfl⟩ := next_eq_some hn
    cases network_moves hm with
    | encrypt key text =>
      exact .inl rfl
    | @deliver c σ data now m hloop hserve =>
      refine .inr ⟨(c, delivered A F σ.key data now), ?_, next_serve (by rw [hloop]; exact hserve)⟩
      intro σ' o' now' hloop' hframe
      obtain rfl := Phase.loop.inj (hloop.symm.trans hloop')
      obtain ⟨rfl, hlen, ho⟩ := delivered_frame hframe
      exact ⟨⟨data, hlen, ho⟩, (hC σ data now' hloop rfl).2⟩
    | @other c i m hi hserve =>
      exact .inr ⟨(c, i), fromWire_quiet _ _ (Input.not_frame_of_isQuiet hi), next_serve hserve⟩

theorem server_reach (h : (network A F printable).Reach (CanDeliver A) x) :
    (server printable).Reach (FromWire A F) (serverPart x) :=
  network_refines.reach h

/-! ## Every run of the server is one on the network -/

/-- A handler at its frame loop is given what a client can seal. -/
def Sealable (F : Json.Interpreter) (x : Config Conn Tables Phase Event) (a : Conn × Input) :
    Prop :=
  ∀ σ o now, x.thread a.1 = .loop σ → a.2 = .frame o now → usable σ.key = true ∧
    Json.Canonical F (.obj o) ∧ (Json.dumps (.obj o)).length + 28 ≤ maxFrameSize ∧
    ∀ d ∈ now, d.val < 0x80

theorem next_other {i : Input} (hi : i.isQuiet = true) {m : Tables × Phase × List Event}
    (hm : handleClient printable c x.memory (x.thread (some c)) i = some m) :
    (network A F printable).next x (some c, .other i) =
      some (after x (some c) (m.1, m.2.1, m.2.2.map .server)) := by
  simp only [Program.next, network, hi, if_true, serve, hm, Option.map_some]

theorem next_encrypt (key : Key) (text : Str) :
    (network A F printable).next x (none, .encrypt key text) =
      some (after x none (x.memory, x.thread none, [.sealed key text])) := rfl

/-- What the server makes of a body that is delivered to a handler at its frame loop. -/
theorem next_deliver {now : Str} (hloop : x.thread (some c) = .loop σ) {data : Bytes}
    (hlen : data.length ≤ maxFrameSize) (hdata : opened A F σ.key data = some (.obj o))
    {m : Tables × Phase × List Event}
    (hm : handleClient printable c x.memory (.loop σ) (.frame o now) = some m) :
    (network A F printable).next x (some c, .deliver data now) =
      some (after x (some c) (m.1, m.2.1, m.2.2.map .server)) := by
  have hdelivered : delivered A F σ.key data now = .frame o now := by
    rw [delivered, if_pos hlen, received, hdata]
  simp only [Program.next, network, hloop, hdelivered, serve, hm, Option.map_some]

/-- What was sealed can be delivered. -/
theorem canDeliver {now : Str} (hloop : x.thread (some c) = .loop σ) {data : Bytes}
    (hdata : Unforged A x.log σ.key data) (hnow : ∀ d ∈ now, d.val < 0x80) :
    CanDeliver A x (some c, .deliver data now) := by
  intro σ' data' now' hloop' heq
  obtain rfl := Phase.loop.inj (hloop.symm.trans hloop')
  obtain ⟨rfl, rfl⟩ := NetInput.deliver.inj heq
  exact ⟨hdata, hnow⟩

/-- The other steps are not restricted. -/
theorem canDeliver_other {t : Option Conn} {i : Input} : CanDeliver A x (t, .other i) := by
  rintro _ _ _ - ⟨⟩

theorem canDeliver_encrypt {t : Option Conn} {key : Key} {text : Str} :
    CanDeliver A x (t, .encrypt key text) := by
  rintro _ _ _ - ⟨⟩

/-- A payload comes out of its frame. -/
theorem opened_payload (nonce : Nonce) {data : Bytes}
    (hdata : sealPayload A key p nonce.1 = some data) (hp : Json.Canonical F (.obj p)) :
    opened A F key data = some (.obj p) :=
  opened_sent (x := .payload p nonce) hdata hp

/-- What a client sealed is unforged. -/
theorem unforged_sealed (nonce : Nonce) {data : Bytes}
    (hdata : sealPayload A key o nonce.1 = some data)
    (hs : .sealed key (Json.dumps (.obj o)) ∈ log) : Unforged A log key data := by
  intro text htext
  have hsent : Sent.body A key (.payload o nonce) = some data := hdata
  rw [decryptMessage_sent hsent] at htext
  obtain rfl := Except.ok.inj htext
  exact .client hs

/-- What the server writes is unforged. -/
theorem unforged_wrote (nonce : Nonce) {data : Bytes}
    (hdata : sealPayload A key p nonce.1 = some data)
    (hw : .server (.wrote c (d, key) p ok) ∈ log) : Unforged A log key data := by
  intro text htext
  have hsent : Sent.body A key (.payload p nonce) = some data := hdata
  rw [decryptMessage_sent hsent] at htext
  obtain rfl := Except.ok.inj htext
  exact .server hw rfl

/-- Frames are read at the frame loop. -/
theorem loop_of_frame {tb : Tables} {ph : Phase} {now : Str} {m : Tables × Phase × List Event}
    (h : handleClient printable c tb ph (.frame o now) = some m) : ∃ σ, ph = .loop σ := by
  cases ph with
  | loop σ => exact ⟨σ, rfl⟩
  | listing so us ts => rcases so with _ | σ <;> rcases ts with _ | ⟨t, ts⟩ <;> cases h
  | act σ a => cases a <;> cases h
  | cast σ ms p ack => rcases ms with _ | ⟨u, ms⟩ <;> rcases ack with _ | q <;> cases h
  | _ => cases h

/-- **The network does not restrict honest clients**: what the server reaches on objects that they
seal, it reaches there. -/
theorem network_complete (nonce : Nonce) {y : Config Conn Tables Phase Event}
    (h : (server printable).Reach (Sealable F) y) :
    ∃ x, (network A F printable).Reach (CanDeliver A) x ∧ serverPart x = y := by
  obtain ⟨as, hrun⟩ := h
  induction hrun with
  | nil => exact ⟨_, reach_init, rfl⟩
  | @snoc _ y _ a _ hC hn ih =>
    obtain ⟨x, hx, rfl⟩ := ih
    obtain ⟨c, i⟩ := a
    obtain ⟨m, hm, rfl⟩ := next_eq_some hn
    by_cases hi : i.isQuiet = true
    · exact ⟨_, hx.step canDeliver_other (next_other hi hm), serverPart_after⟩
    cases i with
    | frame o now =>
      -- a client seals the object, and the network delivers it
      obtain ⟨σ, hloop⟩ : ∃ σ, x.thread (some c) = .loop σ := loop_of_frame hm
      obtain ⟨hkey, hcanonical, hlen, hnow⟩ := hC σ o now hloop rfl
      obtain ⟨data, hdata, hdataLen⟩ := exists_sealed (A := A) hcanonical σ.key hkey nonce
        (hlen.trans_lt (by decide))
      have hopened := opened_payload nonce hdata hcanonical
      let z := after x none (x.memory, x.thread none, [.sealed σ.key (Json.dumps (.obj o))])
      have hzloop : z.thread (some c) = .loop σ :=
        (after_thread_ne _ _ (by rintro ⟨⟩)).trans hloop
      have hz : (network A F printable).Reach (CanDeliver A) z :=
        hx.step canDeliver_encrypt (next_encrypt ..)
      have hcan : CanDeliver A z (some c, .deliver data now) :=
        canDeliver hzloop (unforged_sealed nonce hdata (List.mem_cons_self ..)) hnow
      have hmz : handleClient printable c z.memory (.loop σ) (.frame o now) = some m := by
        rw [← hloop]
        exact hm
      refine ⟨_, hz.step hcan (next_deliver hzloop (hdataLen ▸ hlen) hopened hmz), ?_⟩
      exact serverPart_after
    | _ => exact absurd rfl hi

/-! ## What a handler reads -/

/-- Objects come from frames. -/
theorem frame_input {tb tb' : Tables} {ph ph' : Phase} {es : List Event} {i : Input}
    (h : handleClient printable c tb ph i = some (tb', ph', es)) (he : .frame d o ∈ es) :
    d = c ∧ ∃ σ now, ph = .loop σ ∧ i = .frame o now := by
  have hloop : ∃ σ, ph = .loop σ := by
    have hm : Moves printable c tb ph tb' ph' es := handleClient_moves h
    cases hm with
    | request σ | raises σ => exact ⟨σ, rfl⟩
    | _ => simp [sendPayload] at he
  obtain ⟨σ, rfl⟩ := hloop
  cases i with
  | frame o' now =>
    have hes : es = [.frame c o'] := by
      rw [handleClient] at h
      split at h
      · exact (Prod.mk.inj (Prod.mk.inj (Option.some.inj h)).2).2.symm
      · exact (Prod.mk.inj (Prod.mk.inj (Option.some.inj h)).2).2.symm
    rw [hes] at he
    obtain ⟨rfl, rfl⟩ := Event.frame.inj (List.mem_singleton.mp he)
    exact ⟨rfl, σ, now, rfl, rfl⟩
  | junk | eof =>
    obtain rfl := (Prod.mk.inj (Prod.mk.inj (Option.some.inj h)).2).2
    cases he
  | _ => cases h

theorem opened_text {data : Bytes} {v : Json} (h : opened A F key data = some v) :
    ∃ text, decryptMessage A data key = .ok text ∧ Json.loads F text = some v := by
  rw [opened] at h
  split at h
  · exact ⟨_, ‹_›, h⟩
  · cases h

/-- The object in an unforged body was sealed. -/
theorem Unforged.opened {data : Bytes} (h : Unforged A log key data) {v : Json}
    (ho : opened A F key data = some v) :
    ∃ text, Sealed log key text ∧ Json.loads F text = some v := by
  obtain ⟨text, htext, hv⟩ := opened_text ho
  exact ⟨text, h text htext, hv⟩

/-- **What a handler reads was sealed before, under the key of its session.** -/
theorem frames_sealed (h : (network A F printable).Reach (CanDeliver A) x) :
    Justified (fun e past => ∀ c o, e = .server (.frame c o) → ∃ σ text,
      .registered c σ ∈ serverLog past ∧ Sealed past σ.key text ∧
        Json.loads F text = some (.obj o)) x.log := by
  refine h.invariant (I := fun x => Justified _ x.log) trivial ?_
  rintro z t i ⟨tb, ph, es⟩ hreach hz hC hm
  rw [after_log]
  -- whatever the handler reports, it reports one event
  have hone : ∀ {c : Conn} {j : Input},
      serve printable c z.memory (z.thread (some c)) j = some (tb, ph, es) →
      (∀ o now σ, z.thread (some c) = .loop σ → j = .frame o now → ∃ text,
        Sealed z.log σ.key text ∧ Json.loads F text = some (.obj o)) →
      Justified (fun e past => ∀ c o, e = .server (.frame c o) → ∃ σ text,
        .registered c σ ∈ serverLog past ∧ Sealed past σ.key text ∧
          Json.loads F text = some (.obj o)) (es ++ z.log) := by
    intro c j hserve hread
    obtain ⟨⟨tb', ph', es'⟩, hm', heq⟩ := Option.map_eq_some_iff.mp hserve
    obtain ⟨rfl, rfl, rfl⟩ : tb' = tb ∧ ph' = ph ∧ es'.map .server = es :=
      (Prod.mk.inj heq).imp_right Prod.mk.inj
    have hmoves : Moves printable c z.memory (z.thread (some c)) tb' ph' es' :=
      handleClient_moves hm'
    rcases hmoves.events with rfl | ⟨e, rfl⟩
    · exact hz
    · refine ⟨?_, hz⟩
      rintro d o hframe
      obtain rfl := NetEvent.server.inj hframe
      obtain ⟨rfl, σ, now, hloop, hj⟩ := frame_input hm' (List.mem_singleton_self _)
      obtain ⟨text, htext, ho⟩ := hread o now σ hloop hj
      have hpast := (sessions_reach (server_reach hreach)).history d
      have hstage : stages (serverPart z) d = .session σ := by
        show (z.thread (some d)).stage = _
        rw [hloop]
        rfl
      rw [hstage] at hpast
      exact ⟨σ, text, hpast.1, htext, ho⟩
  cases network_moves hm with
  | encrypt key text => exact ⟨by rintro _ _ ⟨⟩, hz⟩
  | @deliver c σ data now _ hloop hserve =>
    refine hone (hloop ▸ hserve) fun o now' σ' hloop' hframe => ?_
    obtain rfl := Phase.loop.inj (hloop.symm.trans hloop')
    obtain ⟨rfl, -, ho⟩ := delivered_frame hframe
    exact (hC σ data now' hloop rfl).1.opened ho
  | other hi hserve =>
    exact hone hserve fun o now' σ' _ hframe =>
      absurd hframe (Input.not_frame_of_isQuiet hi o now')

end GuardedIM
