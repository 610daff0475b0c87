import GuardedIM.Registration

/-!
# Who receives what

A forwarded payload reaches a connection through three steps of one handler that other
handlers can get between: the request is read, a name is looked up under the lock, and
the payload is written after the lock is released. `Phase.Request` is the invariant that
carries the request through them: it says, for every position of a handler, which object
it is working on, that its checks passed (`Passes`), and what was looked up for it.

`forwarded_authorised` reads the result off the history: before every write of a
forwarded payload stand a request of the writing handler, a lookup made for it that found
a live session, and the address that justifies the lookup.
-/

namespace GuardedIM

open Interleave Interleave.Program

/-! ## Reading the history -/

/-- The object an event says the handler of `c` read. -/
def Event.request (c : Conn) : Event → Option Payload
  | .frame d o => if d = c then some o else none
  | _ => none

/-- The request the handler of `c` is working on: the last object it read. -/
def current (log : List Event) (c : Conn) : Option Payload := log.findSome? (Event.request c)

/-- The member list of a group, once stored. -/
def Stored (log : List Event) (g : Str) (ms : List Str) : Prop := ∃ c, .grouped c g ms ∈ log

/-- For the request `o`, the handler of `c` looked up `u` and found the session of `t`,
which was live under that name at that moment. -/
def LookedUp (log : List Event) (c : Conn) (o : Payload) (u : Str) (t : Target) : Prop :=
  ∃ later before, log = later ++ .looked c u (some t) :: before ∧
    current before c = some o ∧ Live before t.1 ⟨t.2, u⟩

theorem current_append {es log : List Event} {c : Conn} (hes : ∀ e ∈ es, e.request c = none) :
    current (es ++ log) c = current log c := by
  rw [current, List.findSome?_append, List.findSome?_eq_none_iff.mpr hes, Option.none_or, current]

theorem Stored.append {log : List Event} {g : Str} {ms : List Str} (h : Stored log g ms)
    (es : List Event) : Stored (es ++ log) g ms := by
  obtain ⟨c, hc⟩ := h
  exact ⟨c, List.mem_append_right _ hc⟩

theorem LookedUp.append {log : List Event} {c : Conn} {o : Payload} {u : Str} {t : Target}
    (h : LookedUp log c o u t) (es : List Event) : LookedUp (es ++ log) c o u t := by
  obtain ⟨later, before, rfl, hrest⟩ := h
  exact ⟨es ++ later, before, by rw [List.append_assoc], hrest⟩

/-- What a lookup finds has registered. -/
theorem LookedUp.registered {log : List Event} {c : Conn} {o : Payload} {u : Str} {t : Target}
    (h : LookedUp log c o u t) : .registered t.1 ⟨t.2, u⟩ ∈ log := by
  obtain ⟨later, before, rfl, -, hu⟩ := h
  exact List.mem_append_right _ (List.mem_cons_of_mem _ hu.1)

/-- The handler that reports an event. -/
def Event.conn : Event → Conn
  | .handshake c _ | .registered c _ | .cleaned c | .frame c _ | .looked c _ _ | .grouped c _ _
  | .snapshot c | .wrote c _ _ _ => c

variable {printable : CodePoint → Bool} {c : Conn} {tb tb' : Tables} {ph ph' : Phase}
  {es log : List Event}

theorem Moves.conn (h : Moves printable c tb ph tb' ph' es) : ∀ e ∈ es, e.conn = c := by
  intro e he
  cases h <;> simp only [List.not_mem_nil, List.mem_singleton] at he <;> subst he <;> rfl

/-- A step reports at most one event. -/
theorem Moves.events (h : Moves printable c tb ph tb' ph' es) : es = [] ∨ ∃ e, es = [e] := by
  cases h <;> first | exact .inl rfl | exact .inr ⟨_, rfl⟩

/-- Groups are stored once and never change. -/
theorem Moves.groups (h : Moves printable c tb ph tb' ph' es) :
    (tb'.groups = tb.groups ∧ ∀ e ∈ es, ∀ d g ms, e ≠ .grouped d g ms) ∨
      ∃ g ms, Dict.get tb.groups g = none ∧ tb'.groups = Dict.set tb.groups g ms ∧
        es = [.grouped c g ms] := by
  cases h with
  | create σ g ms hfree => exact .inr ⟨g, ms, hfree, rfl, rfl⟩
  | _ => exact .inl ⟨rfl, by simp [sendPayload]⟩

/-! ## What the server says in its own name -/

/-- The payloads that answer or announce a request. -/
inductive Answer : Payload → Prop where
  /-- `send_error` -/
  | error (msg : Str) : Answer (errorPayload msg)
  /-- `group_created` -/
  | created (g : Str) : Answer (groupCreated g)
  /-- `group_invite` -/
  | invite (g : Str) (ms : List Str) : Answer (groupInvite g ms)

theorem Answer.not_forwarded {p : Payload} (h : Answer p) : ¬ p.IsForwarded := by
  cases h with
  | error => exact not_forwarded_of_type (s := str "error") rfl (by decide)
  | created => exact not_forwarded_of_type (s := str "group_created") rfl (by decide)
  | invite => exact not_forwarded_of_type (s := str "group_invite") rfl (by decide)

theorem userList_not_forwarded (us : List Str) : ¬ (userList us).IsForwarded :=
  not_forwarded_of_type (s := str "user_list") rfl (by decide)

/-- What the server sends is an answer, a user list, or the payload it was about to send. -/
theorem Moves.sends (h : Moves printable c tb ph tb' ph' es) {d : Conn} {t : Target}
    {p : Payload} {ok : Bool} (he : .wrote d t p ok ∈ es) :
    d = c ∧ (Answer p ∨ (∃ us, p = userList us) ∨ (∃ σ, ph = .act σ (.reply p)) ∨
      (∃ σ, ph = .forwardTo σ t p) ∨ ∃ σ ms ack, ph = .castTo σ t ms p ack) := by
  refine ⟨h.conn _ he, ?_⟩
  cases h with
  | refuse | duplicate =>
    obtain ⟨⟩ := List.mem_singleton.mp he
    exact .inl (.error _)
  | sendFirst | list =>
    obtain ⟨⟩ := List.mem_singleton.mp he
    exact .inr (.inl ⟨_, rfl⟩)
  | reply σ =>
    obtain ⟨⟩ := List.mem_singleton.mp he
    exact .inr (.inr (.inl ⟨σ, rfl⟩))
  | forward σ =>
    obtain ⟨⟩ := List.mem_singleton.mp he
    exact .inr (.inr (.inr (.inl ⟨σ, rfl⟩)))
  | castSent σ _ ms _ ack | castFailed σ _ ms _ ack =>
    obtain ⟨⟩ := List.mem_singleton.mp he
    exact .inr (.inr (.inr (.inr ⟨σ, ms, ack, rfl⟩)))
  | _ => simp at he

/-! ## The request behind a payload -/

/-- Where the payload of a loop over `ms` comes from: it announces a new group, or it is
the payload of a group request and `ms` are members of the group, as is the sender. -/
def FannedOut (printable : CodePoint → Bool) (c : Conn) (log : List Event) (σ : Session)
    (p : Payload) (ms : List Str) : Prop :=
  Answer p ∨ ∃ o now g stored, current log c = some o ∧
    Passes printable σ.name now o (.fanOut g p) ∧ Stored log g stored ∧ σ.name ∈ stored ∧
    ∀ m ∈ ms, m ∈ stored

/-- What the position of the handler of `c` says about the request it is working on. -/
def Phase.Request (printable : CodePoint → Bool) (c : Conn) (log : List Event) : Phase → Prop
  | .act σ a => (∃ q, a = .reply q ∧ Answer q) ∨
      ∃ o now, current log c = some o ∧ Passes printable σ.name now o a
  | .forwardTo σ t p => ∃ o now u, current log c = some o ∧
      Passes printable σ.name now o (.forward u p) ∧ LookedUp log c o u t
  | .cast σ ms p ack => (∀ q, ack = some q → Answer q) ∧ FannedOut printable c log σ p ms
  | .castTo σ t ms p ack => (∀ q, ack = some q → Answer q) ∧ ∃ u, u ≠ σ.name ∧
      FannedOut printable c log σ p (u :: ms) ∧
      ∀ o, current log c = some o → LookedUp log c o u t
  | _ => True

theorem FannedOut.append {σ : Session} {p : Payload} {ms ms' : List Str}
    (h : FannedOut printable c log σ p ms) (hes : ∀ e ∈ es, e.request c = none)
    (hsub : ∀ m ∈ ms', m ∈ ms) : FannedOut printable c (es ++ log) σ p ms' := by
  rcases h with h | ⟨o, now, g, stored, ho, hp, hg, hσ, hms⟩
  · exact .inl h
  · refine .inr ⟨o, now, g, stored, ?_, hp, hg.append es, hσ, fun m hm => hms m (hsub m hm)⟩
    rw [current_append hes, ho]

/-- The other handlers' events change nothing. -/
theorem Phase.Request.append (h : ph.Request printable c log)
    (hes : ∀ e ∈ es, e.request c = none) : ph.Request printable c (es ++ log) := by
  cases ph with
  | act σ a =>
    rcases h with h | ⟨o, now, ho, hp⟩
    · exact .inl h
    · exact .inr ⟨o, now, by rw [current_append hes, ho], hp⟩
  | forwardTo σ t p =>
    obtain ⟨o, now, u, ho, hp, hl⟩ := h
    exact ⟨o, now, u, by rw [current_append hes, ho], hp, hl.append es⟩
  | cast σ ms p ack =>
    obtain ⟨hack, hp⟩ := h
    exact ⟨hack, hp.append hes fun m hm => hm⟩
  | castTo σ t ms p ack =>
    obtain ⟨hack, u, hu, hp, hl⟩ := h
    refine ⟨hack, u, hu, hp.append hes fun m hm => hm, fun o ho => ?_⟩
    rw [current_append hes] at ho
    exact (hl o ho).append es
  | _ => trivial

/-- A step of the handler itself carries the request on. -/
theorem Moves.carries (h : Moves printable c tb ph tb' ph' es) (hph : ph.Request printable c log)
    (hlive : ∀ u t, Dict.get tb.clients u = some t → Live log t.1 ⟨t.2, u⟩)
    (hstored : ∀ g ms, Dict.get tb.groups g = some ms → Stored log g ms) :
    ph'.Request printable c (es ++ log) := by
  cases h with
  | request σ o now a ha =>
    rcases a with _ | q | _ | _ | _
    case reply =>
      obtain ⟨msg, rfl⟩ := dispatch_reply ha
      exact .inl ⟨_, rfl, .error msg⟩
    all_goals
      refine .inr ⟨o, now, ?_, dispatch_passes ha nofun⟩
      simp [current, Event.request]
  | groupExists | notMember => exact .inl ⟨_, rfl, .error _⟩
  | create σ g ms _ =>
    refine ⟨fun q hq => ?_, .inl (.invite g ms)⟩
    obtain rfl := Option.some.inj hq
    exact .created g
  | fanOut σ g p ms hg hσ =>
    refine ⟨nofun, ?_⟩
    rcases hph with ⟨q, hq, -⟩ | ⟨o, now, ho, hp⟩
    · cases hq
    · exact .inr ⟨o, now, g, ms, ho, hp, hstored g ms hg, hσ, fun m hm => hm⟩
  | found σ u p t ht =>
    rcases hph with ⟨q, hq, -⟩ | ⟨o, now, ho, hp⟩
    · cases hq
    · exact ⟨o, now, u, ho, hp, [], log, rfl, ho, hlive u t ht⟩
  | member σ u ms p ack t ht hu =>
    obtain ⟨hack, hp⟩ := hph
    exact ⟨hack, u, hu, hp.append (by simp [Event.request]) fun m hm => hm,
      fun o ho => ⟨[], log, rfl, ho, hlive u t ht⟩⟩
  | skip σ u ms p ack _ =>
    obtain ⟨hack, hp⟩ := hph
    exact ⟨hack, hp.append (by simp [Event.request]) fun m hm => List.mem_cons_of_mem _ hm⟩
  | castSent σ t ms p ack _ =>
    obtain ⟨hack, u, -, hp, -⟩ := hph
    exact ⟨hack, hp.append (by simp [Event.request]) fun m hm => List.mem_cons_of_mem _ hm⟩
  | castAck σ p ack => exact .inl ⟨ack, rfl, hph.1 ack rfl⟩
  | _ => trivial

/-- **The table of groups is the history of the groups stored**; one list each. -/
theorem groups_reach {C : Config Conn Tables Phase Event → Conn × Input → Prop}
    {x : Config Conn Tables Phase Event} (h : (server printable).Reach C x) :
    ∀ g ms, Dict.get x.memory.groups g = some ms ↔ Stored x.log g ms := by
  refine h.invariant (I := fun x => ∀ g ms, Dict.get x.memory.groups g = some ms ↔
    Stored x.log g ms) ?_ ?_
  · intro g ms
    refine Iff.intro (fun h => nomatch h) fun h => ?_
    obtain ⟨c, hc⟩ := h
    exact absurd hc List.not_mem_nil
  · rintro z c i ⟨tb, ph, es⟩ - hz - hm g ms
    rw [after_memory, after_log]
    rcases (server_moves hm).groups with ⟨hsame, hes⟩ | ⟨g', ms', hfree, hset, rfl⟩
    · rw [hsame, hz]
      refine ⟨fun hg => hg.append es, ?_⟩
      rintro ⟨d, hd⟩
      exact ⟨d, (List.mem_append.mp hd).resolve_left fun hd => hes _ hd d g ms rfl⟩
    · rw [hset, Dict.get_set]
      have hiff : Stored ([.grouped c g' ms'] ++ z.log) g ms ↔
          (g = g' ∧ ms = ms') ∨ Stored z.log g ms := by
        refine ⟨?_, ?_⟩
        · rintro ⟨d, hd⟩
          rcases List.mem_cons.mp hd with hd | hd
          · obtain ⟨-, rfl, rfl⟩ := Event.grouped.inj hd
            exact .inl ⟨rfl, rfl⟩
          · exact .inr ⟨d, hd⟩
        · rintro (⟨rfl, rfl⟩ | hg)
          · exact ⟨c, List.mem_cons_self ..⟩
          · exact hg.append _
      rw [hiff, ← hz]
      split_ifs with hg
      · subst hg
        rw [hfree]
        simp [eq_comm]
      · simp [hg]

/-- **Every handler is working on a request that passed its checks.** -/
theorem request_reach {C : Config Conn Tables Phase Event → Conn × Input → Prop}
    {x : Config Conn Tables Phase Event} (h : (server printable).Reach C x) :
    ∀ c, (x.thread c).Request printable c x.log := by
  refine h.invariant (I := fun x => ∀ c, (x.thread c).Request printable c x.log)
    (fun c => trivial) ?_
  rintro z c i ⟨tb, ph, es⟩ hreach hz - hm d
  have hmoves := server_moves hm
  by_cases hd : d = c
  · subst hd
    rw [after_thread_self]
    exact hmoves.carries (hz d) (fun u t ht => ((sessions_reach hreach).table u t.1 t.2).mp ht)
      fun g ms hg => (groups_reach hreach g ms).mp hg
  · rw [after_thread_ne _ _ hd]
    refine (hz d).append fun e he => ?_
    have hc := hmoves.conn e he
    cases e with
    | frame d' o => exact if_neg fun hd' => hd (hd'.symm.trans hc)
    | _ => rfl

/-! ## The address -/

/-- The object `o` is a text or a file for the user `u`. -/
def ToUser (printable : CodePoint → Bool) (o : Payload) (u : Str) : Prop :=
  (o.find (str "type") = .str (str "message") ∧ o.find (str "to") = .str u) ∨
    ((∃ t, o.find (str "type") = .str t ∧ (t = str "message_file" ∨ t = str "group_file")) ∧
      ¬ (o.find (str "to_type")).isStr (str "group") = true ∧ u = fileTo printable o)

/-- The object `o` is a text or a file for the group `g`. -/
def ToGroup (printable : CodePoint → Bool) (o : Payload) (g : Str) : Prop :=
  (o.find (str "type") = .str (str "group_message") ∧ o.find (str "to") = .str g) ∨
    ((∃ t, o.find (str "type") = .str t ∧ (t = str "message_file" ∨ t = str "group_file")) ∧
      (o.find (str "to_type")).isStr (str "group") = true ∧ g = fileTo printable o)

theorem Passes.toUser {now : Str} {username u : Str} {o p : Payload}
    (h : Passes printable username now o (.forward u p)) : ToUser printable o u := by
  cases h with
  | message ht hu _ => exact .inl ⟨ht, hu⟩
  | userFile ht htype _ hg _ => exact .inr ⟨⟨_, ht, htype⟩, hg, rfl⟩

theorem Passes.toGroup {now : Str} {username g : Str} {o p : Payload}
    (h : Passes printable username now o (.fanOut g p)) : ToGroup printable o g := by
  cases h with
  | groupMessage ht hg _ => exact .inl ⟨ht, hg⟩
  | groupFile ht htype _ hg _ => exact .inr ⟨⟨_, ht, htype⟩, hg, rfl⟩

/-- What has to be true when the handler of `c` writes the payload `p` to `t`: `σ` is its
session, `o` the request it is working on, and `u` the name it looked up. -/
structure Authorised (printable : CodePoint → Bool) (past : List Event) (c : Conn) (t : Target)
    (p : Payload) (σ : Session) (o : Payload) (u : Str) : Prop where
  /-- the handler registered as `σ` -/
  session : .registered c σ ∈ past
  /-- and as nothing else -/
  oneSession : ∀ σ', .registered c σ' ∈ past → σ' = σ
  /-- `from` names it -/
  sender : p.find (str "from") = .str σ.name
  /-- the payload is encrypted under a key the recipient's handler obtained -/
  key : .handshake t.1 t.2 ∈ past
  /-- which is its only one -/
  oneKey : ∀ k, .handshake t.1 k ∈ past → k = t.2
  /-- the request it belongs to -/
  request : current past c = some o
  /-- which passed its checks and asked for this payload to be passed on -/
  passed : ∃ now a, Passes printable σ.name now o a ∧ ((∃ g, a = .fanOut g p) ∨
    ∃ v, a = .forward v p)
  /-- the recipient was registered as `u` when looked up for it -/
  looked : LookedUp past c o u t
  /-- and the request names `u`, or a group that has both `u` and the sender -/
  addressed : ToUser printable o u ∨ ∃ g ms, ToGroup printable o g ∧ Stored past g ms ∧
    (∀ ms', Stored past g ms' → ms' = ms) ∧ σ.name ∈ ms ∧ u ∈ ms ∧ t.1 ≠ c

/-- What one step writes is authorised by the history before it. -/
theorem authorised_step {x : Config Conn Tables Phase Event}
    (hx : (server printable).Reach Any x) (h : Moves printable c x.memory (x.thread c) tb' ph' es)
    {d : Conn} {t : Target} {p : Payload} {ok : Bool} (he : .wrote d t p ok ∈ es)
    (hp : p.IsForwarded) : d = c ∧ ∃ σ o u, Authorised printable x.log c t p σ o u := by
  obtain ⟨hd, hsends⟩ := h.sends he
  refine ⟨hd, ?_⟩
  have hs := sessions_reach hx
  have hreq := request_reach hx c
  have hpast := hs.history c
  -- what a lookup and a session give, whichever loop they come from
  have hall : ∀ {σ o u}, Live x.log c σ → current x.log c = some o → LookedUp x.log c o u t →
      (∃ now a, Passes printable σ.name now o a ∧ ((∃ g, a = .fanOut g p) ∨
        ∃ v, a = .forward v p)) → (ToUser printable o u ∨ u ≠ σ.name ∧ ∃ g ms,
        ToGroup printable o g ∧ Stored x.log g ms ∧ σ.name ∈ ms ∧ u ∈ ms) →
      Authorised printable x.log c t p σ o u := by
    intro σ o u hlive ho hl hpassed haddr
    obtain ⟨now, a, hpass, ha⟩ := id hpassed
    have hreg := hl.registered
    have hkey := hs.keyed _ _ hreg
    refine ⟨hlive.1, fun σ' hσ' => hs.once c σ' σ hσ' hlive.1, hpass.sender_bound ha, hkey,
      fun k hk => hs.oneKey _ _ _ hk hkey, ho, hpassed, hl, ?_⟩
    rcases haddr with haddr | ⟨hne, g, ms, hg, hstored, hσ, hu⟩
    · exact .inl haddr
    · refine .inr ⟨g, ms, hg, hstored, fun ms' hms' => ?_, hσ, hu, ?_⟩
      · have h₁ := (groups_reach hx g ms).mpr hstored
        rw [(groups_reach hx g ms').mpr hms'] at h₁
        exact Option.some.inj h₁
      · rintro rfl
        exact hne (congrArg Session.name (hs.once _ _ _ hreg hlive.1))
  rcases hsends with ha | ⟨us, rfl⟩ | ⟨σ, hph⟩ | ⟨σ, hph⟩ | ⟨σ, ms, ack, hph⟩
  · exact absurd hp ha.not_forwarded
  · exact absurd hp (userList_not_forwarded us)
  · rw [hph] at hreq
    rcases hreq with ⟨q, hq, ha⟩ | ⟨o, now, -, hpass⟩
    · obtain rfl := Action.reply.inj hq
      exact absurd hp ha.not_forwarded
    · cases hpass
  · -- `forward_payload`
    rw [hph] at hreq
    rw [stages, hph] at hpast
    obtain ⟨o, now, u, ho, hpass, hl⟩ := hreq
    exact ⟨σ, o, u, hall hpast ho hl ⟨now, _, hpass, .inr ⟨u, rfl⟩⟩ (.inl hpass.toUser)⟩
  · -- a loop over the members of a group
    rw [hph] at hreq
    rw [stages, hph] at hpast
    obtain ⟨-, u, hu, hfan, hl⟩ := hreq
    rcases hfan with ha | ⟨o, now, g, stored, ho, hpass, hg, hσ, hms⟩
    · exact absurd hp ha.not_forwarded
    · exact ⟨σ, o, u, hall hpast ho (hl o ho) ⟨now, _, hpass, .inl ⟨g, rfl⟩⟩
        (.inr ⟨hu, g, stored, hpass.toGroup, hg, hσ, hms u (List.mem_cons_self ..)⟩)⟩

/-- The form of the result that runs keep. -/
theorem authorised_log {x : Config Conn Tables Phase Event} (h : (server printable).Reach Any x) :
    Justified (fun e past => ∀ c t p ok, e = .wrote c t p ok → p.IsForwarded →
      ∃ σ o u, Authorised printable past c t p σ o u) x.log := by
  refine h.invariant (I := fun x => Justified _ x.log) trivial ?_
  rintro z c i ⟨tb, ph, es⟩ hreach hz - hm
  have hmoves := server_moves hm
  have hstep : ∀ e ∈ es, ∀ d t p ok, e = .wrote d t p ok → p.IsForwarded →
      ∃ σ o u, Authorised printable z.log d t p σ o u := by
    rintro _ he d t p ok rfl hp
    obtain ⟨rfl, hauth⟩ := authorised_step hreach hmoves he hp
    exact hauth
  rw [after_log]
  rcases hmoves.events with rfl | ⟨e, rfl⟩
  · exact hz
  · exact ⟨hstep e (List.mem_singleton_self e), hz⟩

/-- **Routing is authorised**: in every history, before every write of a text or a file
stand the request it comes from, the lookup that found the recipient, and the address that
justifies it, whether the write succeeded or not. -/
theorem forwarded_authorised {x : Config Conn Tables Phase Event}
    (h : (server printable).Reach Any x) {later past : List Event} {c : Conn} {t : Target}
    {p : Payload} {ok : Bool} (hlog : x.log = later ++ .wrote c t p ok :: past)
    (hp : p.IsForwarded) : ∃ σ o u, Authorised printable past c t p σ o u := by
  have hj := authorised_log h
  rw [hlog] at hj
  exact hj.at c t p ok rfl hp

/-- A text to one user. -/
def textTo (u : Str) : Payload :=
  [(str "type", .str (str "message")), (str "to", .str u), (str "payload", .str (str "hi"))]

/-- The history right after Alice's connection sent an object to Bob's: the write of a text
from her session. -/
def sentByAlice (x : Config Conn Tables Phase Event) : Bool :=
  match x.log with
  | .wrote c t p ok :: _ =>
    c = 0 && t = (1, demoKey) && ok && (p.find (str "type")).isStr (str "message") &&
      (p.find (str "from")).isStr (str "alice")
  | _ => false

theorem sentByAlice_log {x : Config Conn Tables Phase Event} (h : sentByAlice x = true) :
    ∃ past p, x.log = .wrote 0 (1, demoKey) p true :: past ∧
      p.find (str "type") = .str (str "message") ∧ p.find (str "from") = .str (str "alice") := by
  rw [sentByAlice] at h
  split at h
  · rename_i c t p ok past hlog
    simp only [Bool.and_eq_true, decide_eq_true_eq] at h
    obtain ⟨⟨⟨⟨rfl, rfl⟩, rfl⟩, htype⟩, hfrom⟩ := h
    exact ⟨past, p, hlog, Json.isStr_iff.mp htype, Json.isStr_iff.mp hfrom⟩
  · cases h

/-- Alice writes to Bob, whose connection accepts it. -/
theorem forwarded_authorised_alice : ∃ x : Config Conn Tables Phase Event,
    (server fun _ => true).Reach Any x ∧ ∃ past p, x.log = .wrote 0 (1, demoKey) p true :: past ∧
      ∃ σ o u, Authorised (fun _ => true) past 0 (1, demoKey) p σ o u := by
  obtain ⟨x, hx, hp⟩ := exists_reach_of_exec (P := server fun _ => true)
    (join 0 (str "alice") 0 ++ join 1 (str "bob") 1 ++
      [(0, .frame (textTo (str "bob")) []), (0, .run), (0, .sent true)])
    (p := sentByAlice) (by decide +kernel)
  obtain ⟨past, p, hlog, htype, -⟩ := sentByAlice_log hp
  have hsplit : x.log = [] ++ .wrote 0 (1, demoKey) p true :: past := hlog
  exact ⟨x, hx, past, p, hlog, forwarded_authorised hx hsplit ⟨_, htype, .message⟩⟩

end GuardedIM
