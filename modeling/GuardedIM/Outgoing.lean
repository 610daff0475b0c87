import GuardedIM.Codec
import GuardedIM.Routing

/-!
# What the server has in hand to send

Between a request and the last write it leads to, a handler keeps a payload in its locals, and
`Moves` can put it down and take it up again in several places. `Back` and `Out` are what one wants
to know of the payloads: `Back` of those that only go back to the requester, `Out` of those that
anybody may be sent.

* `meets_reach`: if the requests lead to such payloads only, all that is ever written is of the
  kind it should be. The errors, and the lists of users, are to be of that kind once and for all.
* `known_reach`: the targets in hand are sessions.
* `Passes.canonical`: what a request leads to is a value that `json.dumps` and `json.loads`
  preserve, since it came out of a frame itself (`FromWire`).
-/

namespace Dict

variable {α β : Type*} [DecidableEq α]

/-- A key has a value. -/
theorem exists_get_of_mem_keys {d : Dict α β} {k : α} (h : k ∈ d.keys) : ∃ v, d.get k = some v := by
  induction d with
  | nil => cases h
  | cons e d ih =>
    rw [get_cons]
    split_ifs with hk
    · exact ⟨e.2, rfl⟩
    · exact ih ((List.mem_cons.mp h).resolve_left hk)

end Dict

namespace GuardedIM

open Interleave Interleave.Program

/-- The texts the handler gives to `send_error` on its own account. -/
def handlerErrors : List Str :=
  [str "Invalid username.", str "Username already connected.", str "Group already exists.",
    str "Not a member of that group."]

section Meets

variable (Back Out : Payload → Prop)

/-- What an action leads to. -/
def Action.Meets : Action → Prop
  | .ignore => True
  | .reply p => Back p
  | .create g ms => Out (groupInvite g ms) ∧ Back (groupCreated g)
  | .fanOut _ p => Out p
  | .forward _ p => Out p

/-- What a handler has in hand. -/
def Phase.Meets : Phase → Prop
  | .act _ a => a.Meets Back Out
  | .forwardTo _ _ p => Out p
  | .cast _ _ p ack => Out p ∧ ∀ q, ack = some q → Back q
  | .castTo _ _ _ p ack => Out p ∧ ∀ q, ack = some q → Back q
  | .sendFirst _ us => Out (userList us)
  | .listing _ us _ => Out (userList us)
  | _ => True

/-- What was written. -/
def Event.Meets : Event → Prop
  | .wrote c t p _ => (t.1 = c ∧ Back p) ∨ Out p
  | _ => True

end Meets

variable {printable : CodePoint → Bool} {C : Config Conn Tables Phase Event → Conn × Input → Prop}
  {x : Config Conn Tables Phase Event} {c : Conn} {tb tb' : Tables} {ph ph' : Phase}
  {es : List Event} {Back Out : Payload → Prop}

/-- **What a step hands on**: a request aside, what the handler had in hand. -/
theorem Moves.meets (h : Moves printable c tb ph tb' ph' es)
    (herror : ∀ msg ∈ handlerErrors, Back (errorPayload msg))
    (hlist : Out (userList (Dict.keys tb.clients)))
    (hrequest : ∀ σ a, ph = .loop σ → ph' = .act σ a → a.Meets Back Out)
    (hph : ph.Meets Back Out) : ph'.Meets Back Out ∧ ∀ e ∈ es, e.Meets Back Out := by
  simp only [handlerErrors, List.forall_mem_cons, List.not_mem_nil, false_implies,
    implies_true, and_true] at herror
  obtain ⟨hname, htaken, hexists, hmember⟩ := herror
  have hwrote : ∀ {t p ok}, (t.1 = c ∧ Back p) ∨ Out p →
      ∀ e ∈ [Event.wrote c t p ok], e.Meets Back Out := by
    intro t p ok hp e he
    obtain rfl := List.mem_singleton.mp he
    exact hp
  have hquiet : ∀ {e : Event}, e.Meets Back Out → ∀ e' ∈ [e], e'.Meets Back Out := by
    intro e hp e' he
    obtain rfl := List.mem_singleton.mp he
    exact hp
  cases h with
  | refuse => exact ⟨trivial, hwrote (.inl ⟨rfl, hname⟩)⟩
  | duplicate => exact ⟨trivial, hwrote (.inl ⟨rfl, htaken⟩)⟩
  | firstList | snapshot => exact ⟨hlist, hquiet trivial⟩
  | sendFirst => exact ⟨trivial, hwrote (.inr hph)⟩
  | list => exact ⟨hph, hwrote (.inr hph)⟩
  | request σ o now a => exact ⟨hrequest σ a rfl rfl, hquiet trivial⟩
  | reply => exact ⟨trivial, hwrote (.inl ⟨rfl, hph⟩)⟩
  | groupExists => exact ⟨hexists, by simp⟩
  | notMember => exact ⟨hmember, by simp⟩
  | create σ g ms =>
    -- the invitation goes out first, the acknowledgement is kept for the end
    refine ⟨⟨hph.1, fun q hq => ?_⟩, hquiet trivial⟩
    obtain rfl := Option.some.inj hq
    exact hph.2
  | fanOut => exact ⟨⟨hph, nofun⟩, by simp⟩
  | found => exact ⟨hph, hquiet trivial⟩
  | forward => exact ⟨trivial, hwrote (.inr hph)⟩
  | member | skip => exact ⟨hph, hquiet trivial⟩
  | castAck σ p ack => exact ⟨hph.2 ack rfl, by simp⟩
  | castSent => exact ⟨hph, hwrote (.inr hph.1)⟩
  | castFailed => exact ⟨trivial, hwrote (.inr hph.1)⟩
  | key | register | raises | missing | cleanup => exact ⟨trivial, hquiet trivial⟩
  | _ => exact ⟨trivial, by simp⟩

theorem Action.Meets.mono {Back' : Payload → Prop} {a : Action} (h : a.Meets Back Out)
    (hback : ∀ p, Back p → Back' p) : a.Meets Back' Out := by
  cases a with
  | reply p => exact hback p h
  | create => exact ⟨h.1, hback _ h.2⟩
  | ignore | fanOut | forward => exact h

/-- A request is read from a frame. -/
theorem request_step {σ : Session} {i : Input} {a : Action}
    (h : handleClient printable c tb (.loop σ) i = some (tb', .act σ a, es)) :
    ∃ o now, i = .frame o now ∧ dispatch printable σ.name now o = .ok a := by
  cases i with
  | frame o now =>
    rw [handleClient] at h
    split at h
    · rename_i b hb
      obtain ⟨-, hact, -⟩ := Prod.mk.inj (Option.some.inj h) |>.imp_right Prod.mk.inj
      obtain ⟨-, rfl⟩ := Phase.act.inj hact
      exact ⟨o, now, rfl, hb⟩
    · cases h
  | _ => cases h

/-- The name of a session. -/
theorem session_name (h : (server printable).Reach C x) {σ : Session}
    (hloop : x.thread c = .loop σ) : SafeName 32 σ.name := by
  have hpast := (sessions_reach h).history c
  rw [stages, hloop] at hpast
  exact (names_reach h).1 c σ hpast.1

/-- The names in the table. -/
theorem clients_names (h : (server printable).Reach C x) :
    ∀ u ∈ Dict.keys x.memory.clients, SafeName 32 u := by
  intro u hu
  obtain ⟨t, ht⟩ := Dict.exists_get_of_mem_keys hu
  exact (names_reach h).1 t.1 ⟨t.2, u⟩ (((sessions_reach h).table u t.1 t.2).mp ht).1

/-- **Whatever the server writes, in any run.** -/
theorem meets_reach (h : (server printable).Reach C x)
    (herror : ∀ msg ∈ requestErrors ++ handlerErrors, Back (errorPayload msg))
    (hlist : ∀ us, (∀ u ∈ us, SafeName 32 u) → Out (userList us))
    (hrequest : ∀ z c o now σ a, C z (c, .frame o now) → z.thread c = .loop σ →
      SafeName 32 σ.name → dispatch printable σ.name now o = .ok a → (∀ q, a ≠ .reply q) →
      a.Meets Back Out) :
    (∀ c, (x.thread c).Meets Back Out) ∧ ∀ e ∈ x.log, e.Meets Back Out := by
  refine h.invariant (I := fun x => (∀ c, (x.thread c).Meets Back Out) ∧
    ∀ e ∈ x.log, e.Meets Back Out) ⟨fun _ => trivial, nofun⟩ ?_
  rintro z c i ⟨tb, ph, es⟩ hreach ⟨hphases, hlog⟩ hC hm
  obtain ⟨hph, hes⟩ := (server_moves hm).meets
    (fun msg hmsg => herror msg (List.mem_append_right _ hmsg)) (hlist _ (clients_names hreach))
    (fun σ a hloop hact => by
      -- the only step that takes up a payload that was not in hand before
      have hstep : handleClient printable c z.memory (.loop σ) i = some (tb, .act σ a, es) := by
        rw [← hloop, ← hact]
        exact hm
      obtain ⟨o, now, rfl, ha⟩ := request_step hstep
      by_cases hreply : ∃ q, a = .reply q
      · obtain ⟨q, rfl⟩ := hreply
        exact dispatch_replies (fun msg hmsg => herror msg (List.mem_append_left _ hmsg)) q ha
      · exact hrequest z c o now σ a hC hloop (session_name hreach hloop) ha
          fun q hq => hreply ⟨q, hq⟩) (hphases c)
  refine ⟨fun d => ?_, fun e he => ?_⟩
  · by_cases hd : d = c
    · subst hd
      rw [after_thread_self]
      exact hph
    · rw [after_thread_ne _ _ hd]
      exact hphases d
  · exact (List.mem_append.mp he).elim (hes e) (hlog e)

/-! ## Whom the next send is for -/

section Pending

variable {d : Conn} {t : Target} {p : Payload} {ok : Bool} {log : List Event}

/-- What the next send of a handler is. -/
def Phase.pending (c : Conn) : Phase → Option (Target × Payload)
  | .refuse k _ => some ((c, k), errorPayload (str "Invalid username."))
  | .register σ => some (σ.target c, errorPayload (str "Username already connected."))
  | .sendFirst σ us => some (σ.target c, userList us)
  | .listing _ us (t :: _) => some (t, userList us)
  | .act σ (.reply p) => some (σ.target c, p)
  | .forwardTo _ t p => some (t, p)
  | .castTo _ t _ p _ => some (t, p)
  | _ => none

/-- What a handler writes is what it was about to send. -/
theorem Moves.pending (h : Moves printable c tb ph tb' ph' es) (he : .wrote d t p ok ∈ es) :
    d = c ∧ ph.pending c = some (t, p) := by
  have hsent : ∀ {t' p' ok'}, Event.wrote d t p ok ∈ [Event.wrote c t' p' ok'] →
      d = c ∧ some (t', p') = some (t, p) := by
    intro t' p' ok' he
    obtain ⟨rfl, rfl, rfl, -⟩ := Event.wrote.inj (List.mem_singleton.mp he)
    exact ⟨rfl, rfl⟩
  cases h with
  | refuse | duplicate | sendFirst | list | reply | forward | castSent | castFailed =>
    exact hsent he
  | _ => simp at he

/-- The targets a handler has in hand are sessions. -/
def Phase.Known (log : List Event) : Phase → Prop
  | .listing _ _ ts => ∀ t ∈ ts, ∃ u, .registered t.1 ⟨t.2, u⟩ ∈ log
  | .forwardTo _ t _ => ∃ u, .registered t.1 ⟨t.2, u⟩ ∈ log
  | .castTo _ t _ _ _ => ∃ u, .registered t.1 ⟨t.2, u⟩ ∈ log
  | _ => True

theorem Phase.Known.append (h : ph.Known log) (es : List Event) : ph.Known (es ++ log) := by
  have hkeep : ∀ {t : Target}, (∃ u, .registered t.1 ⟨t.2, u⟩ ∈ log) →
      ∃ u, .registered t.1 ⟨t.2, u⟩ ∈ es ++ log :=
    fun ⟨u, hu⟩ => ⟨u, List.mem_append_right _ hu⟩
  cases ph with
  | listing so us ts => exact fun t ht => hkeep (h t ht)
  | forwardTo | castTo => exact hkeep h
  | _ => trivial

/-- A step of the handler: its targets are entries of the table. -/
theorem Moves.known (h : Moves printable c tb ph tb' ph' es) (hph : ph.Known log)
    (htable : ∀ e ∈ tb.clients, .registered e.2.1 ⟨e.2.2, e.1⟩ ∈ log) : ph'.Known log := by
  cases h with
  | snapshot =>
    intro t ht
    obtain ⟨e, he, rfl⟩ := List.mem_map.mp ht
    exact ⟨e.1, htable e he⟩
  | list => exact fun t ht => hph t (List.mem_cons_of_mem _ ht)
  | found _ u _ t hu | member _ u _ _ _ t hu => exact ⟨u, htable _ (Dict.mem_of_get hu)⟩
  | _ => trivial

/-- An entry is new, or was there before. -/
theorem Moves.entries (h : Moves printable c tb ph tb' ph' es) {e : Str × Target}
    (he : e ∈ tb'.clients) : e ∈ tb.clients ∨ .registered e.2.1 ⟨e.2.2, e.1⟩ ∈ es := by
  cases h with
  | register σ =>
    obtain ⟨u, t⟩ := e
    rcases Dict.mem_set he with heq | he
    · obtain ⟨rfl, rfl⟩ := Prod.mk.inj heq
      exact .inr (List.mem_singleton_self _)
    · exact .inl he
  | cleanup uo =>
    refine .inl ?_
    simp only [removeOwn] at he
    split at he
    · exact he
    · split at he
      · split_ifs at he
        · exact (List.mem_filter.mp he).1
        · exact he
      · exact he
  | _ => exact .inl he

theorem known_reach (h : (server printable).Reach C x) :
    (∀ e ∈ x.memory.clients, .registered e.2.1 ⟨e.2.2, e.1⟩ ∈ x.log) ∧
      ∀ d, (x.thread d).Known x.log := by
  refine h.invariant (I := fun x => (∀ e ∈ x.memory.clients,
    .registered e.2.1 ⟨e.2.2, e.1⟩ ∈ x.log) ∧ ∀ d, (x.thread d).Known x.log)
    ⟨nofun, fun _ => trivial⟩ ?_
  rintro z c i ⟨tb, ph, es⟩ - ⟨htable, hknown⟩ - hm
  have hmoves : Moves printable c z.memory (z.thread c) tb ph es := server_moves hm
  refine ⟨fun e he => ?_, fun d => ?_⟩
  · rw [after_log]
    rcases hmoves.entries he with he | he
    · exact List.mem_append_right _ (htable e he)
    · exact List.mem_append_left _ he
  · rw [after_log]
    by_cases hd : d = c
    · subst hd
      rw [after_thread_self]
      exact (hmoves.known (hknown d) htable).append es
    · rw [after_thread_ne _ _ hd]
      exact (hknown d).append es

/-- Whoever the next send is for. -/
theorem Phase.pending_target (h : ph.pending c = some (t, p)) (hknown : ph.Known log) :
    (∃ k, t = (c, k) ∧ ∀ τ, ph.stage = .session τ → k = τ.key) ∨
      ∃ u, .registered t.1 ⟨t.2, u⟩ ∈ log := by
  have hself : ∀ {τ : Session}, (∃ k, τ.target c = (c, k) ∧
      ∀ τ', Stage.session τ = .session τ' → k = τ'.key) :=
    fun {τ} => ⟨τ.key, rfl, fun _ heq => congrArg Session.key (Stage.session.inj heq)⟩
  cases ph with
  | refuse k u =>
    obtain ⟨rfl, -⟩ := Prod.mk.inj (Option.some.inj h)
    exact .inl ⟨k, rfl, nofun⟩
  | register τ =>
    obtain ⟨rfl, -⟩ := Prod.mk.inj (Option.some.inj h)
    exact .inl ⟨τ.key, rfl, nofun⟩
  | sendFirst τ us =>
    obtain ⟨rfl, -⟩ := Prod.mk.inj (Option.some.inj h)
    exact .inl hself
  | listing so us ts =>
    cases ts with
    | nil => cases h
    | cons t' ts =>
      obtain ⟨rfl, -⟩ := Prod.mk.inj (Option.some.inj h)
      exact .inr (hknown _ (List.mem_cons_self ..))
  | act τ a =>
    cases a with
    | reply q =>
      obtain ⟨rfl, -⟩ := Prod.mk.inj (Option.some.inj h)
      exact .inl hself
    | _ => cases h
  | forwardTo τ t' q | castTo τ t' ms q ack =>
    obtain ⟨rfl, -⟩ := Prod.mk.inj (Option.some.inj h)
    exact .inr hknown
  | _ => cases h

end Pending

/-! ## Passing something on -/

/-- A request to a user who is there is written to them three steps later. -/
theorem exists_forward (h : (server printable).Reach C x) {σ : Session} {o p : Payload}
    {now u : Str} {t : Target} (hloop : x.thread c = .loop σ)
    (hd : dispatch printable σ.name now o = .ok (.forward u p))
    (ht : Dict.get x.memory.clients u = some t) (hkey : usable t.2 = true)
    (hC : C x (c, .frame o now)) (hrest : ∀ y a, (∀ o now, a.2 ≠ Input.frame o now) → C y a) :
    ∃ z, (server printable).Reach C z ∧ z.log =
      .wrote c t p true :: .looked c u (some t) :: .frame c o :: x.log := by
  -- the request is read, its recipient is looked up, and it is written
  let y₁ := after x c (x.memory, .act σ (.forward u p), [.frame c o])
  let y₂ := after y₁ c (x.memory, .forwardTo σ t p, [.looked c u (some t)])
  let y₃ := after y₂ c (x.memory, .loop σ, [sendPayload c t p true])
  have h₁ : (server printable).next x (c, .frame o now) = some y₁ := by
    simp only [Program.next, server, hloop, handleClient, hd, Option.map_some, y₁]
  have h₂ : (server printable).next y₁ (c, .run) = some y₂ := by
    have hthread : y₁.thread c = .act σ (.forward u p) := after_thread_self ..
    have hmemory : y₁.memory = x.memory := rfl
    simp only [Program.next, server, hthread, hmemory, handleClient, ht, Option.map_some, y₂]
  have h₃ : (server printable).next y₂ (c, .sent true) = some y₃ := by
    have hthread : y₂.thread c = .forwardTo σ t p := after_thread_self ..
    have hmemory : y₂.memory = x.memory := rfl
    simp only [Program.next, server, hthread, hmemory, handleClient, Option.map_some, y₃]
  have hrun := hrest y₁ (c, .run) (by rintro _ _ ⟨⟩)
  have hsent := hrest y₂ (c, .sent true) (by rintro _ _ ⟨⟩)
  refine ⟨y₃, ((h.step hC h₁).step hrun h₂).step hsent h₃, ?_⟩
  show sendPayload c t p true :: .looked c u (some t) :: .frame c o :: x.log = _
  rw [sendPayload, hkey, Bool.true_and]

/-- Alice at her frame loop, and Bob. -/
theorem exists_joined (hC : ∀ y a, (∀ o now, a.2 ≠ Input.frame o now) → C y a) :
    ∃ x : Config Conn Tables Phase Event, (server fun _ => true).Reach C x ∧
      x.thread 0 = .loop ⟨demoKey, str "alice"⟩ ∧
      Dict.get x.memory.clients (str "bob") = some (1, demoKey) := by
  obtain ⟨x, hx, hp⟩ := exists_run_of_execIf (P := server fun _ => true)
    (fun y a ha => hC y a (Input.not_frame_of_isQuiet ha))
    (join 0 (str "alice") 0 ++ join 1 (str "bob") 1)
    (p := fun x => (x.thread 0).isAliceLoop &&
      decide (Dict.get x.memory.clients (str "bob") = some (1, demoKey)))
    (by decide +kernel)
  obtain ⟨hloop, hbob⟩ := Bool.and_eq_true_iff.mp hp
  exact ⟨x, ⟨_, hx⟩, Phase.eq_loop_of_isAliceLoop hloop, of_decide_eq_true hbob⟩

/-! ## What came from a frame -/

/-- A handler at its frame loop is given objects that are read from a frame, and the clock's
ASCII. -/
def FromWire (A : Aead) (F : Json.Interpreter) (x : Config Conn Tables Phase Event)
    (a : Conn × Input) : Prop :=
  ∀ σ o now, x.thread a.1 = .loop σ → a.2 = .frame o now →
    (∃ data : Bytes, data.length ≤ maxFrameSize ∧ opened A F σ.key data = some (.obj o)) ∧
      ∀ d ∈ now, d.val < 0x80

variable {A : Aead} {F : Json.Interpreter} {username now : Str} {o p : Payload}

theorem fromWire_quiet (x : Config Conn Tables Phase Event) (a : Conn × Input)
    (h : ∀ o now, a.2 ≠ .frame o now) : FromWire A F x a :=
  fun _ o now _ heq => absurd heq (h o now)

/-- What another program sealed with the key, if the numbers and texts in it are JSON's. -/
theorem fromWire_sealed {σ : Session} (hloop : x.thread c = .loop σ) (nonce : Nonce) {data : Bytes}
    (hdata : sealPayload A σ.key o nonce.1 = some data) (hlen : data.length ≤ maxFrameSize)
    (ho : Json.Canonical F (.obj o)) (hnow : ∀ d ∈ now, d.val < 0x80) :
    FromWire A F x (c, .frame o now) := by
  intro σ' o' now' hloop' heq
  obtain rfl := Phase.loop.inj (hloop.symm.trans hloop')
  obtain ⟨rfl, rfl⟩ := Input.frame.inj heq
  exact ⟨⟨data, hlen, opened_sent (x := .payload o nonce) hdata ho⟩, hnow⟩

theorem opened_canonical {key : Key} {data : Bytes} {v : Json}
    (h : opened A F key data = some v) : Json.Canonical F v := by
  rw [opened] at h
  split at h
  · rename_i text htext
    refine Json.loads_canonical (s := text) ?_ h
    rw [decryptMessage] at htext
    split_ifs at htext
    split at htext
    · rename_i raw _
      rcases hraw : decode raw with _ | s
      · rw [hraw] at htext
        cases htext
      · rw [hraw] at htext
        obtain rfl := Except.ok.inj htext
        exact decode_scalar hraw
    · cases htext
  · cases h

theorem canonical_userList {us : List Str} (h : ∀ u ∈ us, SafeName 32 u) :
    Json.Canonical F (.obj (userList us)) :=
  (Json.canonical_empty.field "type" (Json.canonical_literal "user_list")).field "users"
    (Json.canonical_names F.inside_pos fun u hu => (h u hu).ascii)

theorem canonical_groupInvite {g : Str} {ms : List Str} (hg : SafeName 48 g)
    (h : ∀ m ∈ ms, SafeName 32 m) : Json.Canonical F (.obj (groupInvite g ms)) := by
  have htype := Json.canonical_empty.field "type" (Json.canonical_literal (F := F) "group_invite")
  exact (htype.field "group_name" (Json.canonical_str hg.ascii)).field "members"
    (Json.canonical_names F.inside_pos fun m hm => (h m hm).ascii)

theorem canonical_groupCreated {g : Str} (hg : SafeName 48 g) :
    Json.Canonical F (.obj (groupCreated g)) :=
  (Json.canonical_empty.field "type" (Json.canonical_literal "group_created")).field "group_name"
    (Json.canonical_str hg.ascii)

theorem canonical_timestamp (h : Json.Canonical F (.obj p)) (hnow : ∀ c ∈ now, c.val < 0x80) :
    Json.Canonical F (.obj (timestamp now p)) := by
  refine h.field "timestamp" (Json.canonical_str fun c hc => ?_)
  rcases List.mem_append.mp hc with hc | hc
  · exact hnow c hc
  · obtain rfl := List.mem_singleton.mp hc
    decide

/-- The names in an invitation. -/
theorem Passes.names {g : Str} {ms : List Str} (h : Passes printable username now o (.create g ms))
    (hname : SafeName 32 username) : SafeName 48 g ∧ ∀ m ∈ ms, SafeName 32 m := by
  cases h with
  | create _ _ hg hms => exact ⟨hg, safe_sortedSet hms hname⟩

/-- **A payload that is passed on survives `json.dumps` and `json.loads`.** -/
theorem Passes.canonical {a : Action} (h : Passes printable username now o a)
    (ho : Json.Canonical F (.obj o)) (hname : SafeName 32 username)
    (hnow : ∀ c ∈ now, c.val < 0x80) (ha : (∃ g, a = .fanOut g p) ∨ ∃ u, a = .forward u p) :
    Json.Canonical F (.obj p) := by
  have hbound : Json.Canonical F (.obj (bindSender username o)) :=
    ho.field "from" (Json.canonical_str hname.ascii)
  cases h with
  | groupMessage _ _ hg =>
    obtain ⟨_, ⟨⟩⟩ | ⟨_, ⟨⟩⟩ := ha
    refine canonical_timestamp ?_ hnow
    have hpayload := (hbound.field "to" (Json.canonical_str hg.ascii)).field "payload"
      (ho.find (str "payload"))
    exact (hpayload.field "payload_type" (Json.canonical_literal "text")).field "to_type"
      (Json.canonical_literal "group")
  | message =>
    obtain ⟨_, ⟨⟩⟩ | ⟨_, ⟨⟩⟩ := ha
    refine canonical_timestamp ?_ hnow
    exact (hbound.field "payload_type" (Json.canonical_literal "text")).field "to_type"
      (Json.canonical_literal "user")
  | groupFile | userFile =>
    obtain ⟨_, ⟨⟩⟩ | ⟨_, ⟨⟩⟩ := ha
    refine canonical_timestamp ?_ hnow
    exact hbound.field "payload_type" (Json.canonical_literal "file")
  | ignore | create => obtain ⟨_, ⟨⟩⟩ | ⟨_, ⟨⟩⟩ := ha

end GuardedIM
