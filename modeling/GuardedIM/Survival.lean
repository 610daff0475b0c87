import GuardedIM.Link
import GuardedIM.ReceiveLoop

/-!
# When a session survives

* `Phase.Serving`: where the client's handler is while the session lasts.
* `Link.Goes`: what holds at both ends and in between, and `Link.Goes.step`: what a calm step does
  to it.
* `session_survives`: in every run of calm steps both ends keep the session, and the client is given
  everything that was sent to it.
-/

namespace GuardedIM

open Interleave Interleave.Program

variable {printable : CodePoint → Bool} {A : Aead} {F : Json.Interpreter} {root : MediaRoot}
  {c d : Conn} {σ : Session} {disk : Disk} {p : Payload} {t : Target} {ok : Bool} {tb tb' : Tables}
  {ph ph' : Phase} {i : Input} {es : List Event}
  {C : Config Conn Tables Phase Event → Conn × Input → Prop} {x : Config Conn Tables Phase Event}
  {l l' : Link}

/-! ## The client's handler -/

/-- The handler keeps the session, and has nothing in hand for the client that would end it. -/
structure Phase.Serving (F : Json.Interpreter) (printable : CodePoint → Bool) (σ : Session)
    (ph : Phase) : Prop where
  /-- it is between registration and `finally` -/
  session : ph.stage = .session σ
  /-- no error in particular -/
  harmless : ph.Meets (Harmless F printable) (Harmless F printable)

/-- **A step of the client's handler** that rejects nothing. -/
theorem Phase.Serving.step (h : ph.Serving F printable σ)
    (hm : handleClient printable c tb ph i = some (tb', ph', es)) (hloop : ph.reading = false)
    (hlist : Harmless F printable (userList (Dict.keys tb.clients)))
    (haccepts : ∀ τ a, ph = .act τ a → (∀ q, a ≠ .reply q) → Accepts tb τ.name a) :
    ph'.Serving F printable σ := by
  obtain ⟨hσ, hmeets⟩ := h
  have hmoves : Moves printable c tb ph tb' ph' es := handleClient_moves hm
  cases hmoves with
  | firstList => exact ⟨hσ, hlist⟩
  | snapshot so =>
    cases so with
    | none => cases hσ
    | some τ => exact ⟨hσ, hlist⟩
  | list so =>
    cases so with
    | none => cases hσ
    | some τ => exact ⟨hσ, hmeets⟩
  | sendFirst | listed | ignore | reply | missing | forward | castEnd | castFailed =>
    exact ⟨hσ, trivial⟩
  | found | member | skip | castSent => exact ⟨hσ, hmeets⟩
  | groupExists τ g ms =>
    -- the name is free
    have hfree : Dict.get tb.groups g = none := haccepts _ _ rfl (by rintro _ ⟨⟩)
    cases i with
    | run => simp [handleClient, hfree] at hm
    | _ => cases hm
  | notMember τ g q =>
    have hmember : isMember τ.name (Dict.get tb.groups g) = true :=
      haccepts _ _ rfl (by rintro _ ⟨⟩)
    cases i with
    | run => simp [handleClient, hmember] at hm
    | _ => cases hm
  | create =>
    refine ⟨hσ, hmeets.1, fun q hq => ?_⟩
    obtain rfl := Option.some.inj hq
    exact hmeets.2
  | fanOut =>
    refine ⟨hσ, hmeets, ?_⟩
    rintro q ⟨⟩
  | castAck τ q ack => exact ⟨hσ, hmeets.2 ack rfl⟩
  | eof | junk | request | raises => cases hloop
  | _ => cases hσ

/-- What it is about to send does not end the session either. -/
theorem Phase.Serving.pending (h : ph.Serving F printable σ)
    (hp : ph.pending c = some (t, p)) : Harmless F printable p := by
  obtain ⟨hσ, hmeets⟩ := h
  cases ph with
  | refuse | register => cases hσ
  | listing so us ts =>
    cases ts with
    | nil => cases hp
    | cons t' ts =>
      obtain ⟨-, rfl⟩ := Prod.mk.inj (Option.some.inj hp)
      exact hmeets
  | act τ a =>
    cases a with
    | reply q =>
      obtain ⟨-, rfl⟩ := Prod.mk.inj (Option.some.inj hp)
      exact hmeets
    | _ => cases hp
  | sendFirst | forwardTo =>
    obtain ⟨-, rfl⟩ := Prod.mk.inj (Option.some.inj hp)
    exact hmeets
  | castTo =>
    obtain ⟨-, rfl⟩ := Prod.mk.inj (Option.some.inj hp)
    exact hmeets.1
  | _ => cases hp

/-- Its entry is in the table. -/
theorem Phase.Serving.registered (h : (server printable).Reach C x)
    (hc : (x.thread c).Serving F printable σ) : .registered c σ ∈ x.log ∧
      Dict.get x.memory.clients σ.name = some (c, σ.key) := by
  have hpast := (sessions_reach h).history c
  rw [stages, hc.session] at hpast
  exact ⟨hpast.1, ((sessions_reach h).table σ.name c σ.key).mpr hpast⟩

/-! ## The session -/

/-- A frame of the client that its handler has not read yet. -/
def Asks (A : Aead) (F : Json.Interpreter) (printable : CodePoint → Bool) (σ : Session)
    (body : Bytes) : Prop :=
  ∃ text o, ∃ nonce : Nonce, ChatClient.Honest F printable σ.name text o ∧
    sendEncrypted A σ.key text nonce.1 = some body ∧ body.length ≤ maxFrameSize

/-- A frame that the client has not read yet. -/
def Readable (A : Aead) (F : Json.Interpreter) (printable : CodePoint → Bool) (σ : Session)
    (p : Payload) (body : Bytes) : Prop :=
  Harmless F printable p ∧ body.length ≤ maxFrameSize ∧
    ∃ nonce : Nonce, sealPayload A σ.key p nonce.1 = some body

/-- What holds at both ends and in between, as long as the session goes on. -/
structure Link.Goes (A : Aead) (F : Json.Interpreter) (printable : CodePoint → Bool)
    (root : MediaRoot) (c : Conn) (σ : Session) (x : Config Conn Tables Phase Event) (l : Link) :
    Prop where
  /-- the server's part is a run of the server -/
  reach : (GuardedIM.server printable).Reach (FromWire A F) l.server
  /-- the client is in its loop -/
  running : l.running = true
  /-- and its connection is open -/
  connected : l.closed = false
  /-- its handler is where it should be -/
  serving : (l.server.thread c).Serving F printable σ
  /-- no request on its way will be answered before the tables are consulted -/
  asks : ∀ body ∈ l.outbound, Asks A F printable σ body
  /-- and no payload on its way will end the session -/
  delivered : ∃ es got waiting, l.server.log = es ++ x.log ∧
    sentTo c es = (got ++ waiting).map (fun p => (σ.key, p, true)) ∧
    l.effects = got.flatMap
      (fun p => (receive printable root σ.name ⟨true, true⟩ (.obj p)).effects) ∧
    List.Forall₂ (Readable A F printable σ) waiting l.inbound

theorem Link.Goes.alive (h : l.Goes A F printable root c σ x) : l.Alive A printable root c σ x := by
  obtain ⟨es, got, waiting, hlog, hsent, heffects, hreads⟩ := h.delivered
  exact ⟨h.running, h.connected, (Phase.Serving.registered h.reach h.serving).2, es, got, waiting,
    hlog, hsent, heffects, hreads.imp fun _ _ hp => hp.2.2⟩

theorem sentTo_append (c : Conn) (es log : List Event) :
    sentTo c (es ++ log) = sentTo c log ++ sentTo c es := by
  rw [sentTo, List.filterMap_append, List.reverse_append, sentTo, sentTo]

/-- The name of the client. -/
theorem Link.Goes.name (h : l.Goes A F printable root c σ x) : SafeName 32 σ.name :=
  (names_reach h.reach).1 c σ (Phase.Serving.registered h.reach h.serving).1

/-- The client calls a method. -/
theorem Link.Goes.call (h : l.Goes A F printable root c σ x) {r : ChatClient.Method} {now : UtcTime}
    {nonce : Nonce} (hcalm : Calm A F c σ l (.call r now nonce))
    (hnext : l.next A F printable root c σ (.call r now nonce) = some l') :
    l'.Goes A F printable root c σ x := by
  simp only [Link.next] at hnext
  split at hnext
  · rename_i text note hcall
    split at hnext
    · rename_i body hbody
      rw [if_neg (Bool.eq_false_iff.mp h.connected)] at hnext
      obtain rfl := Option.some.inj hnext
      obtain ⟨⟨o, ho⟩, hshort⟩ := ChatClient.Method.honest (F := F) h.name hcall
      have hlen : text.length + 28 ≤ maxFrameSize := by
        cases r with
        | createGroup g ms =>
          have hcreate : ChatClient.createGroup (fun _ => none) σ.name now g ms =
              .sent text note := hcall
          rw [(ChatClient.createGroup_sent hcreate).2.2]
          exact hcalm g ms rfl
        | _ => exact hshort nofun
      have hsent := hbody
      rw [ho.dumped] at hsent
      have hbodyLen := length_sent ho.canonical nonce hsent
      rw [← ho.dumped] at hbodyLen
      have hask : Asks A F printable σ body := ⟨text, o, nonce, ho, hbody, hbodyLen.trans_le hlen⟩
      exact { h with asks := List.forall_mem_append.mpr ⟨h.asks, by simpa using hask⟩ }
    · obtain rfl := Option.some.inj hnext
      exact h
  · obtain rfl := Option.some.inj hnext
    exact h

/-- Its handler reads a frame. -/
theorem Link.Goes.read (h : l.Goes A F printable root c σ x) {readAt : UtcTime}
    (hnext : l.next A F printable root c σ (.read readAt) = some l') :
    l'.Goes A F printable root c σ x := by
  simp only [Link.next] at hnext
  split at hnext
  · rename_i body rest τ hout hloop
    obtain rfl : τ = σ := by
      have hσ := h.serving.session
      rw [hloop] at hσ
      exact Stage.session.inj hσ
    obtain ⟨hask, hasks⟩ := List.forall_mem_cons.mp (hout ▸ h.asks)
    obtain ⟨text, o, nonce, ho, hsent, hlen⟩ := hask
    rw [ho.dumped] at hsent
    have hreceived := received_sent (F := F) ho.canonical nonce hsent readAt.isoformat
    have hopened : opened A F τ.key body = some (.obj o) := by
      rw [opened_sent (x := .text (Json.dumps (.obj o)) nonce) hsent trivial]
      exact Json.loads_dumps ho.canonical
    rw [if_pos hlen, hreceived] at hnext
    obtain ⟨y, hy, rfl⟩ := Option.map_eq_some_iff.mp hnext
    have hwire : FromWire A F l.server (c, .frame o readAt.isoformat) := by
      intro σ' o' now' hloop' heq
      obtain rfl := Phase.loop.inj (hloop.symm.trans hloop')
      obtain ⟨rfl, rfl⟩ := Input.frame.inj heq
      exact ⟨⟨body, hlen, hopened⟩, readAt.ascii_isoformat⟩
    have hreach := h.reach.step hwire hy
    obtain ⟨⟨tb, ph, es⟩, hm, rfl⟩ := next_eq_some hy
    obtain ⟨hph, hes⟩ : ph.Serving F printable τ ∧ es = [.frame c o] := by
      have hstep : handleClient printable c l.server.memory (.loop τ)
          (.frame o readAt.isoformat) = some (tb, ph, es) := hloop ▸ hm
      rw [handleClient] at hstep
      split at hstep
      · rename_i a ha
        obtain ⟨⟩ := Option.some.inj hstep
        refine ⟨⟨rfl, ?_⟩, rfl⟩
        exact dispatch_harmless ha (fun q hq => ho.passes readAt q (hq ▸ ha)) ho.canonical h.name
          readAt.ascii_isoformat
      · obtain ⟨⟩ := Option.some.inj hstep
        exact ⟨⟨rfl, trivial⟩, rfl⟩
    obtain ⟨past, got, waiting, hlog, hsentTo, heffects, hreads⟩ := h.delivered
    refine ⟨hreach, h.running, h.connected, ?_, hasks, es ++ past, got, waiting, ?_, ?_, heffects,
      hreads⟩
    · rw [after_thread_self]
      exact hph
    · rw [after_log, hlog, List.append_assoc]
    · rw [sentTo_append, hes, hsentTo]
      exact List.append_nil _
  · cases hnext

/-- What a step of some handler sends to the client. -/
theorem Link.Goes.sends (h : l.Goes A F printable root c σ x) {m : Tables × Phase × List Event}
    {nonce : Nonce} (hcalm : Calm A F c σ l (.serve d i nonce))
    (hm : (GuardedIM.server printable).step d l.server.memory (l.server.thread d) i = some m)
    (hreach : (GuardedIM.server printable).Reach (FromWire A F) (after l.server d m)) {e : Event}
    {key : Key} (he : e ∈ m.2.2) (hto : Event.toConn c e = some (key, p, ok)) :
    key = σ.key ∧ Harmless F printable p ∧ FitsFrame A p := by
  have hmoves : Moves printable d l.server.memory (l.server.thread d) m.1 m.2.1 m.2.2 :=
    server_moves hm
  obtain ⟨d', t, rfl, ht, rfl⟩ : ∃ d' t, e = .wrote d' t p ok ∧ t.1 = c ∧ t.2 = key := by
    cases e with
    | wrote d' t q ok' =>
      rw [Event.toConn] at hto
      split_ifs at hto with ht
      obtain ⟨rfl, rfl, rfl⟩ := Prod.mk.inj (Option.some.inj hto) |>.imp_right Prod.mk.inj
      exact ⟨d', t, rfl, ht, rfl⟩
    | _ => cases hto
  obtain ⟨rfl, hpending⟩ := hmoves.pending he
  have hregistered := (Phase.Serving.registered h.reach h.serving).1
  -- whoever has registered with this connection is the client
  have honly : (∃ u, .registered t.1 ⟨t.2, u⟩ ∈ l.server.log) → t.2 = σ.key := by
    rintro ⟨u, hu⟩
    rw [ht] at hu
    exact congrArg Session.key ((sessions_reach h.reach).once c _ _ hu hregistered)
  have htarget := Phase.pending_target hpending ((known_reach h.reach).2 d')
  refine ⟨?_, ?_, hcalm.2 t p hpending ht⟩
  · rcases htarget with ⟨k, rfl, hk⟩ | hu
    · obtain rfl : d' = c := ht
      exact hk σ h.serving.session
    · exact honly hu
  · by_cases hself : d' = c
    · subst hself
      exact h.serving.pending hpending
    · rcases (harmless_reach hreach).2 _ (List.mem_append_left _ he) with ⟨hown, -⟩ | hp
      · exact absurd (hown.symm.trans ht) hself
      · exact hp

/-- A handler makes a step. -/
theorem Link.Goes.serve (h : l.Goes A F printable root c σ x) (hkey : usable σ.key = true)
    {nonce : Nonce} (hcalm : Calm A F c σ l (.serve d i nonce))
    (hwire : FromWire A F l.server (d, i))
    (hnext : l.next A F printable root c σ (.serve d i nonce) = some l') :
    l'.Goes A F printable root c σ x := by
  simp only [Link.next] at hnext
  split_ifs at hnext with hreading
  split at hnext
  · cases hnext
  rename_i m hm
  obtain ⟨inbound, hinbound, rfl⟩ := Option.map_eq_some_iff.mp hnext
  have hmoves : Moves printable d l.server.memory (l.server.thread d) m.1 m.2.1 m.2.2 :=
    server_moves hm
  have hreach : (GuardedIM.server printable).Reach (FromWire A F) (after l.server d m) := by
    refine h.reach.step hwire ?_
    rw [Program.next, hm, Option.map_some]
  obtain ⟨past, got, waiting, hlog, hsentTo, heffects, hreads⟩ := h.delivered
  refine ⟨hreach, h.running, h.connected, ?_, h.asks, ?_⟩
  · by_cases hd : d = c
    · subst hd
      have hlist : Harmless F printable (userList (Dict.keys l.server.memory.clients)) :=
        harmless_userList (clients_names h.reach)
      rw [after_thread_self]
      exact h.serving.step hm (Bool.eq_false_iff.mpr fun hr => hreading ⟨rfl, hr⟩) hlist
        fun τ a hact => hcalm.1 τ a rfl hact
    · rw [after_thread_ne _ _ (Ne.symm hd)]
      exact h.serving
  · have hsame : ∀ {es}, m.2.2 = es → (∀ e ∈ es, Event.toConn c e = none) →
        inbound = l.inbound ∧ sentTo c es = [] := by
      rintro es rfl hnone
      rw [Link.transmit, List.findSome?_eq_none_iff.mpr hnone] at hinbound
      refine ⟨(Option.some.inj hinbound).symm, ?_⟩
      rw [sentTo, List.filterMap_eq_nil_iff.mpr hnone, List.reverse_nil]
    have hlog' : (after l.server d m).log = (m.2.2 ++ past) ++ x.log := by
      rw [after_log, hlog, List.append_assoc]
    rcases hto : m.2.2.findSome? (Event.toConn c) with _ | ⟨key, p, ok⟩
    · -- nothing for the client
      obtain ⟨hin, hsent⟩ := hsame rfl (List.findSome?_eq_none_iff.mp hto)
      refine ⟨m.2.2 ++ past, got, waiting, hlog', ?_, heffects, hin ▸ hreads⟩
      rw [sentTo_append, hsent, List.append_nil, hsentTo]
    · obtain ⟨e, he, hto'⟩ := List.exists_of_findSome?_eq_some hto
      obtain ⟨rfl, hp, hfits⟩ := h.sends hcalm hm hreach he hto'
      have hmax : maxFrameSize < 4294967296 := by decide
      have hlen := (fitsFrame_iff hp.canonical).mp hfits
      obtain ⟨body, hbody, hbodyLen⟩ := exists_sealed (A := A) hp.canonical σ.key hkey nonce
        (by omega)
      simp only [Link.transmit, hto, hbody] at hinbound
      -- the connection is open, so the send does not fail
      obtain rfl : ok = true := by
        cases ok with
        | true => rfl
        | false =>
          rw [if_neg (Bool.eq_false_iff.mp h.connected)] at hinbound
          cases hinbound
      obtain rfl := Option.some.inj hinbound
      refine ⟨m.2.2 ++ past, got, waiting ++ [p], hlog', ?_, heffects,
        List.rel_append hreads (.cons ⟨hp, by omega, nonce, hbody⟩ .nil)⟩
      have hone : sentTo c m.2.2 = [(σ.key, p, true)] := by
        rcases hmoves.events with hes | ⟨e', hes⟩
        · rw [hes] at he
          cases he
        · rw [hes] at he ⊢
          obtain rfl := List.mem_singleton.mp he
          simp [sentTo, hto']
      rw [sentTo_append, hone, hsentTo]
      simp

/-- The client reads a frame. -/
theorem Link.Goes.receive (h : l.Goes A F printable root c σ x)
    (hcalm : Calm A F c σ l (.receive disk))
    (hnext : l.next A F printable root c σ (.receive disk) = some l') :
    l'.Goes A F printable root c σ x := by
  simp only [Link.next] at hnext
  split at hnext
  · rename_i body rest hrunning hin
    obtain ⟨past, got, waiting, hlog, hsent, heffects, hreads⟩ := h.delivered
    rw [hin] at hreads
    cases hreads with
    | @cons p _ waiting _ hread hrest =>
      obtain ⟨hp, hlen, nonce, hbody⟩ := hread
      have hopened : opened A F σ.key body = some (.obj p) :=
        opened_sent (x := .payload p nonce) hbody hp.canonical
      -- the disk is asked for files only
      have hround : clientRound A F printable root σ.name σ.key disk body =
          GuardedIM.receive printable root σ.name ⟨true, true⟩ (.obj p) := by
        rw [clientRound, hopened]
        by_cases hfile : p.IsFile
        · rw [hcalm body p (by rw [hin, List.head?_cons]) hopened hfile]
        · exact receive_disk hfile
      have hgoes := hp.continues root σ.name
      rw [if_pos hlen, hround] at hnext
      obtain rfl := Option.some.inj hnext
      refine ⟨h.reach, hgoes, ?_, h.serving, h.asks, past, got ++ [p], waiting, hlog, ?_, ?_,
        hrest⟩
      · simp only [h.connected, receive_open hgoes, Bool.or_false]
      · rw [hsent, List.append_assoc, List.singleton_append]
      · simp only [heffects, List.flatMap_append, List.flatMap_singleton]
  · cases hnext

/-- **A calm step keeps the session going.** -/
theorem Link.Goes.step (h : l.Goes A F printable root c σ x) (hkey : usable σ.key = true)
    {a : Link.Act} (hcalm : Calm A F c σ l a) (hwire : a.FromWire A F l)
    (hnext : l.next A F printable root c σ a = some l') : l'.Goes A F printable root c σ x := by
  cases a with
  | call r now nonce => exact h.call hcalm hnext
  | read readAt => exact h.read hnext
  | hangUp =>
    rw [Link.next, if_neg (Bool.eq_false_iff.mp h.connected)] at hnext
    cases hnext
  | serve d i nonce => exact h.serve hkey hcalm hwire hnext
  | receive disk => exact h.receive hcalm hnext
  | lost =>
    simp only [Link.next] at hnext
    split at hnext
    · rename_i hclosed _
      have hσ := h.serving.session
      rw [hclosed] at hσ
      cases hσ
    · cases hnext

theorem Link.Goes.run (h : l.Goes A F printable root c σ x) (hkey : usable σ.key = true)
    (hrun : Link.Run A F printable root c σ (Calm A F c σ) l l') :
    l'.Goes A F printable root c σ x := by
  induction hrun with
  | refl => exact h
  | tail _ hstep ih =>
    obtain ⟨a, hcalm, hwire, hnext⟩ := hstep
    exact ih.step hkey hcalm hwire hnext

/-- The client can read all that is on its way. -/
theorem Link.Goes.drain (h : l.Goes A F printable root c σ x) (hkey : usable σ.key = true) :
    ∃ l', Link.Run A F printable root c σ (Calm A F c σ) l l' ∧ l'.server = l.server ∧
      l'.inbound = [] := by
  induction hin : l.inbound generalizing l with
  | nil => exact ⟨l, .refl, rfl, hin⟩
  | cons body rest ih =>
    have hlen : body.length ≤ maxFrameSize := by
      obtain ⟨past, got, waiting, -, -, -, hreads⟩ := h.delivered
      rw [hin] at hreads
      cases hreads with
      | cons hread => exact hread.2.1
    have hcalm : Calm A F c σ l (.receive ⟨true, true⟩) := fun _ _ _ _ _ => rfl
    obtain ⟨l₁, hnext, hserver, hrest⟩ : ∃ l₁,
        l.next A F printable root c σ (.receive ⟨true, true⟩) = some l₁ ∧
          l₁.server = l.server ∧ l₁.inbound = rest := by
      simp only [Link.next, h.running, hin, if_pos hlen]
      exact ⟨_, rfl, rfl, rfl⟩
    obtain ⟨l₂, hrun, hserver', hnil⟩ := ih (h.step hkey hcalm trivial hnext) hrest
    exact ⟨l₂, .head ⟨_, hcalm, trivial, hnext⟩ hrun, hserver'.trans hserver, hnil⟩

/-- The session begins. -/
theorem Link.goes_start (hx : (GuardedIM.server printable).Reach (FromWire A F) x)
    (hreg : x.thread c = .firstList σ) : (Link.start x).Goes A F printable root c σ x where
  reach := hx
  running := rfl
  connected := rfl
  serving := by
    show (x.thread c).Serving F printable σ
    rw [hreg]
    exact ⟨rfl, trivial⟩
  asks := nofun
  delivered := ⟨[], [], [], rfl, rfl, rfl, .nil⟩

/-- **When a session goes on.** From its registration on, whatever a client asks for by its methods
and whatever the others do, in every run whose steps are calm the client is in its loop, with its
connection open, and the server has it in the table. Everything the server has sent to it went out;
its callbacks were called for what it has read, and it can read the rest. -/
theorem session_survives (A : Aead) (F : Json.Interpreter) (printable : CodePoint → Bool)
    (root : MediaRoot) (hx : (server printable).Reach (FromWire A F) x)
    (hreg : x.thread c = .firstList σ) (hkey : usable σ.key = true)
    (hrun : Link.Run A F printable root c σ (Calm A F c σ) (Link.start x) l) :
    l.Alive A printable root c σ x ∧
      ∃ l', Link.Run A F printable root c σ (Calm A F c σ) l l' ∧ l'.server = l.server ∧
        l'.inbound = [] ∧ l'.Alive A printable root c σ x := by
  have hgoes := (Link.goes_start hx hreg).run hkey hrun
  obtain ⟨l', hrest, hserver, hin⟩ := hgoes.drain hkey
  exact ⟨hgoes.alive, l', hrest, hserver, hin, (hgoes.run hkey hrest).alive⟩

/-- Alice registers, and the steps are made. -/
theorem Link.exists_run {C : Link → Link.Act → Prop} {test : Link → Link.Act → Bool}
    (hC : ∀ l a, test l a = true → C l a ∧ a.isQuiet = true) (as : List Link.Act)
    {p : Link → Bool}
    (h : ((GuardedIM.server fun _ => true).execIf
      (fun _ a => a.2.isQuiet) (GuardedIM.server fun _ => true).init
      (arrive 0 (str "alice") ++ [(0, .run)])).any (fun x =>
        (match x.thread 0 with
          | .firstList τ => decide (τ = ⟨demoKey, str "alice"⟩)
          | _ => false) &&
        ((Link.start x).execIf demoAead demoInterpreter (fun _ => true) demoRoot 0
          ⟨demoKey, str "alice"⟩ test as).any p) = true) :
    ∃ x l, (GuardedIM.server fun _ => true).Reach (FromWire demoAead demoInterpreter) x ∧
      x.thread 0 = .firstList ⟨demoKey, str "alice"⟩ ∧
      Link.Run demoAead demoInterpreter (fun _ => true) demoRoot 0 ⟨demoKey, str "alice"⟩ C
        (Link.start x) l ∧ p l = true := by
  obtain ⟨x, hx, hp⟩ := exists_run_of_execIf (C := FromWire demoAead demoInterpreter)
    (fun y a ha => fromWire_quiet y a (Input.not_frame_of_isQuiet ha)) _ h
  obtain ⟨hreg, hrun⟩ := Bool.and_eq_true_iff.mp hp
  obtain ⟨l, hl, hpl⟩ := Option.any_eq_true _ _ |>.mp hrun
  refine ⟨x, l, ⟨_, hx⟩, ?_, Link.run_of_execIf (fun l a ha =>
    ⟨(hC l a ha).1, Link.Act.fromWire_of_isQuiet (hC l a ha).2⟩) hl, hpl⟩
  split at hreg
  · rename_i τ hτ
    rw [hτ, of_decide_eq_true hreg]
  · cases hreg

/-- Alice's handler, until it is at its loop. -/
def joined : List Link.Act :=
  [.serve 0 .run demoNonce, .serve 0 (.sent true) demoNonce, .serve 0 .run demoNonce,
    .serve 0 (.sent true) demoNonce, .serve 0 .run demoNonce]

/-- The condition, by computation. -/
def isCalm (c : Conn) (l : Link) : Link.Act → Bool
  | .call (.createGroup g ms) now _ => decide ((Json.dumps (.obj (ChatClient.groupPayload
      (str "alice") g ms now.isoformat))).length + 28 ≤ maxFrameSize)
  | .serve _ (.frame _ _) _ => false
  | .serve d _ _ =>
    (match l.server.thread c with
      | .act _ (.create g _) => (Dict.get l.server.memory.groups g).isNone
      | .act τ (.fanOut g _) => isMember τ.name (Dict.get l.server.memory.groups g)
      | .act _ .ignore => false
      | _ => true) &&
    match (l.server.thread d).pending d with
    | some (_, p) => (Json.dumps (.obj p)).all (·.val < 0x80) &&
      decide ((Json.dumps (.obj p)).length + 28 ≤ maxFrameSize)
    | none => true
  | .receive disk => disk.makedirs && disk.write
  | _ => true

theorem calm_of_isCalm (l : Link) (a : Link.Act) (h : isCalm c l a = true) :
    Calm demoAead demoInterpreter c ⟨demoKey, str "alice"⟩ l a ∧ a.isQuiet = true := by
  cases a with
  | call r now nonce =>
    refine ⟨?_, rfl⟩
    rintro g ms rfl
    exact of_decide_eq_true h
  | serve d i nonce =>
    have hquiet : (Link.Act.serve d i nonce).isQuiet = true := by
      cases i with
      | frame => cases h
      | _ => rfl
    refine ⟨?_, hquiet⟩
    obtain ⟨haccepts, hfits⟩ := Bool.and_eq_true_iff.mp (by
      cases i with
      | frame => cases h
      | _ => exact h)
    refine ⟨?_, ?_⟩
    · rintro τ a - hact hreply
      rw [hact] at haccepts
      cases a with
      | ignore => cases haccepts
      | reply q => exact absurd rfl (hreply q)
      | create g ms => exact Option.isNone_iff_eq_none.mp haccepts
      | fanOut g q => exact haccepts
      | forward u q => trivial
    · intro t p hpending _ key nonce body hbody
      rw [hpending] at hfits
      obtain ⟨hascii, hlen⟩ := Bool.and_eq_true_iff.mp hfits
      rw [length_encryptMessage demoAead nonce.2 (Json.ascii_of_all hascii) hbody]
      exact of_decide_eq_true hlen
  | receive disk =>
    obtain ⟨hmakedirs, hwrite⟩ := Bool.and_eq_true_iff.mp h
    refine ⟨fun _ _ _ _ _ => ?_, rfl⟩
    obtain ⟨makedirs, write⟩ := disk
    obtain rfl : makedirs = true := hmakedirs
    obtain rfl : write = true := hwrite
    rfl
  | read | hangUp | lost => exact ⟨trivial, rfl⟩

/-- Alice creates a group, and is told so. -/
theorem session_survives_team : ∃ (x : Config Conn Tables Phase Event) (l : Link),
    x.thread 0 = .firstList ⟨demoKey, str "alice"⟩ ∧
      l.Alive demoAead (fun _ => true) demoRoot 0 ⟨demoKey, str "alice"⟩ x ∧
      (l.effects.any fun
        | .received (.str chat) _ _ => decide (chat = str "#team")
        | _ => false) = true := by
  obtain ⟨x, l, hx, hreg, hrun, hp⟩ := Link.exists_run (calm_of_isCalm (c := 0))
    (joined ++ [.call (.createGroup (str "team") [str "bob"]) demoTime demoNonce, .read demoTime,
      .serve 0 .run demoNonce, .serve 0 .run demoNonce, .serve 0 .run demoNonce,
      .serve 0 .run demoNonce, .serve 0 (.sent true) demoNonce, .receive ⟨true, true⟩,
      .receive ⟨true, true⟩, .receive ⟨true, true⟩])
    (p := fun l => l.effects.any fun
      | .received (.str chat) _ _ => decide (chat = str "#team")
      | _ => false) (by decide +kernel)
  exact ⟨x, l, hreg, (session_survives demoAead demoInterpreter _ demoRoot hx hreg rfl hrun).1, hp⟩

/-- The only call is a message to a group that does not exist. -/
def OnlyNogroup (_ : Link) (a : Link.Act) : Prop :=
  ∀ r now nonce, a = .call r now nonce → r = .sendGroupMessage (str "nogroup") (str "hi")

/-- The same, by computation. -/
def isNogroup (_ : Link) : Link.Act → Bool
  | .call (.sendGroupMessage g m) _ _ => decide (g = str "nogroup" ∧ m = str "hi")
  | .call _ _ _ => false
  | .serve _ (.frame _ _) _ => false
  | _ => true

theorem onlyNogroup_of_isNogroup (l : Link) (a : Link.Act) (h : isNogroup l a = true) :
    OnlyNogroup l a ∧ a.isQuiet = true := by
  cases a with
  | call r now nonce =>
    cases r with
    | sendGroupMessage g m =>
      obtain ⟨rfl, rfl⟩ := of_decide_eq_true h
      refine ⟨?_, rfl⟩
      rintro r now nonce ⟨⟩
      rfl
    | _ => cases h
  | serve d i nonce =>
    refine ⟨nofun, ?_⟩
    cases i with
    | frame => cases h
    | _ => rfl
  | _ => exact ⟨nofun, rfl⟩

/-- Alice writes to a group that does not exist. The server refuses it and waits for her next
request; her client has closed the connection. -/
theorem alice_hung_up : ∃ (x : Config Conn Tables Phase Event) (l : Link),
    (server fun _ => true).Reach (FromWire demoAead demoInterpreter) x ∧
      x.thread 0 = .firstList ⟨demoKey, str "alice"⟩ ∧
      Link.Run demoAead demoInterpreter (fun _ => true) demoRoot 0 ⟨demoKey, str "alice"⟩
        OnlyNogroup (Link.start x) l ∧
      l.running = false ∧ l.closed = true ∧
      Dict.get l.server.memory.clients (str "alice") = some (0, demoKey) ∧
      ¬ l.Alive demoAead (fun _ => true) demoRoot 0 ⟨demoKey, str "alice"⟩ x := by
  obtain ⟨x, l, hx, hreg, hrun, hp⟩ := Link.exists_run onlyNogroup_of_isNogroup
    (joined ++ [.call (.sendGroupMessage (str "nogroup") (str "hi")) demoTime demoNonce,
      .read demoTime, .serve 0 .run demoNonce, .serve 0 (.sent true) demoNonce,
      .receive ⟨true, true⟩, .receive ⟨true, true⟩, .receive ⟨true, true⟩])
    (p := fun l => !l.running && l.closed &&
      decide (Dict.get l.server.memory.clients (str "alice") = some (0, demoKey)))
    (by decide +kernel)
  simp only [Bool.and_eq_true, Bool.not_eq_true', decide_eq_true_eq] at hp
  obtain ⟨⟨hrunning, hclosed⟩, hentry⟩ := hp
  refine ⟨x, l, hx, hreg, hrun, hrunning, hclosed, hentry, fun halive => ?_⟩
  rw [halive.running] at hrunning
  cases hrunning

end GuardedIM
