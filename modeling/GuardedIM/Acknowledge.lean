import GuardedIM.Handling
import GuardedIM.Outgoing

/-!
# The answers to `create_group`

A request for a group is refused, or it stores the group, invites the members one after the other,
and is acknowledged when all of them had their turn. Between the first and the last of these an
exception ends the request, and between any two of them the other handlers run.

* `Creating`: how far a handler has come with a request for a group, and what it has reported.
* `Acked`: who was told that a group was created, against the history.
* `replies_truthful`: what the requesters are told, and when.
-/

namespace GuardedIM

open Interleave Interleave.Program

/-- The request is one for a group. -/
def Payload.IsCreate (o : Payload) : Prop := o.find (str "type") = .str (str "create_group")

/-- The payload says that `g` was created. -/
def Payload.acknowledges (p : Payload) (g : Str) : Bool :=
  (p.find (str "type")).isStr (str "group_created") && (p.find (str "group_name")).isStr g

/-- What the handler of `c` has sent to its own client. -/
def replies (c : Conn) (σ : Session) : List Event → List Payload :=
  List.filterMap fun
    | .wrote _ t q true => if t = σ.target c then some q else none
    | _ => none

/-- The handlers that have told their clients that `g` was created. -/
def succeeded (g : Str) : List Event → List Conn :=
  List.filterMap fun
    | .wrote c _ p true => if p.acknowledges g then some c else none
    | _ => none

/-- The target of the send that comes next. -/
def Phase.writesTo (c : Conn) : Phase → Option Target
  | .act σ (.reply _) => some (σ.target c)
  | .forwardTo _ t _ | .castTo _ t _ _ _ => some t
  | _ => none

/-- The handler is still to say that `g` was created. -/
def Phase.Owes (g : Str) : Phase → Prop
  | .act _ (.reply q) | .cast _ _ _ (some q) | .castTo _ _ _ _ (some q) => q.acknowledges g = true
  | _ => False

/-- The handler has not come to its frame loop yet. -/
def Phase.joining : Phase → Bool
  | .idle | .readKey | .readName _ | .refuse _ _ | .register _ | .firstList _ | .sendFirst _ _
  | .broadcast (some _) | .listing (some _) _ _ => true
  | _ => false

/-- The checks on a request for a group raise nothing, and what is sent for it arrives. -/
structure Phase.Prompt (c : Conn) (log : List Event) (ph : Phase) (i : Input) : Prop where
  /-- the names in it are texts -/
  checks : ∀ σ o now e, ph = .loop σ → i = .frame o now → o.IsCreate →
    createGroup (bindSender σ.name o) σ.name ≠ .error e
  /-- no member, and not the requester, breaks off -/
  sends : ∀ o t, current log c = some o → o.IsCreate → ph.writesTo c = some t →
    i = .sent true ∧ usable t.2 = true

/-- The condition on the steps of all handlers. -/
def Prompt (x : Config Conn Tables Phase Event) (a : Conn × Input) : Prop :=
  (x.thread a.1).Prompt a.1 x.log a.2

/-- How far the handler of `c` has come with the request `o` for a group. -/
inductive Creating (c : Conn) (σ : Session) (o : Payload) : Phase → List Event → Prop where
  /-- a check raised -/
  | raised (e : Exc) : createGroup (bindSender σ.name o) σ.name = .error e →
      Creating c σ o (.loop σ) []
  /-- it is to be refused -/
  | refusing (a : Action) (msg : Str) : createGroup (bindSender σ.name o) σ.name = .ok a →
      Creating c σ o (.act σ (.reply (errorPayload msg))) []
  /-- it was refused -/
  | refused (a : Action) (msg : Str) (ok : Bool) :
      createGroup (bindSender σ.name o) σ.name = .ok a →
      Creating c σ o (.loop σ) [sendPayload c (σ.target c) (errorPayload msg) ok]
  /-- it passed its own checks -/
  | asks (g : Str) (ms : List Str) :
      createGroup (bindSender σ.name o) σ.name = .ok (.create g ms) →
      Creating c σ o (.act σ (.create g ms)) []
  /-- the group was stored -/
  | stored (g : Str) (ms : List Str) {ph : Phase} {past : List Event} :
      createGroup (bindSender σ.name o) σ.name = .ok (.create g ms) →
      Casting c σ (groupInvite g ms) ms [.grouped c g ms] (some (groupCreated g)) ph past →
      Creating c σ o ph past

/-- The client of `c` has been told the truth about its last request: it has one answer; the answer
is that a group was created if and only if the request has stored the entry that is there now, and
an error if and only if the request has stored nothing. -/
def ToldTruth (x : Config Conn Tables Phase Event) (c : Conn) (σ : Session) : Prop :=
  ∃ q, replies c σ (recent c x.log) = [q] ∧
    (∀ g, q = groupCreated g ↔ ∃ ms, .grouped c g ms ∈ recent c x.log ∧
      Dict.get x.memory.groups g = some ms) ∧
    ((∃ msg, q = errorPayload msg) ↔ ∀ g ms, .grouped c g ms ∉ recent c x.log)

/-- What is known of the handler of `c` from where it is; with `lossless`, what it takes that its
client has an answer. -/
structure Phase.Creates (lossless : Prop) (c : Conn) (log : List Event) (ph : Phase) : Prop where
  /-- before its frame loop it has read nothing -/
  unread : ph.joining = true → current log c = none
  /-- a request for a group is as far as that -/
  creating : ∀ σ o, ph = .loop σ ∨ ph.busy = some σ → current log c = some o → o.IsCreate →
    Creating c σ o ph (recent c log)
  /-- with no exception on the way -/
  quiet : lossless → ∀ σ o, ph = .loop σ ∨ ph.busy = some σ → current log c = some o →
    o.IsCreate → (∀ e, createGroup (bindSender σ.name o) σ.name ≠ .error e) ∧
      ∀ t q, .wrote c t q false ∉ recent c log
  /-- an answer that is due belongs to such a request -/
  owed : ∀ g, ph.Owes g → ∃ o, current log c = some o ∧ o.IsCreate

variable {printable : CodePoint → Bool} {C : Config Conn Tables Phase Event → Conn × Input → Prop}
  {x : Config Conn Tables Phase Event} {c : Conn} {σ : Session} {o : Payload} {tb tb' : Tables}
  {ph ph' : Phase} {es log past : List Event} {i : Input} {g : Str} {now : Str}

/-! ## One request -/

theorem dispatch_createGroup (ho : o.IsCreate) : dispatch printable σ.name now o =
    createGroup (bindSender σ.name o) σ.name := by
  have htype : (bindSender σ.name o).find (str "type") = .str (str "create_group") :=
    (find_bindSender σ.name o (by decide)).trans ho
  simp only [dispatch, htype]
  rfl

/-- The branch replies or creates. -/
theorem createGroup_ok {p : Payload} {username : Str} {a : Action}
    (h : createGroup p username = .ok a) :
    (∃ msg, a = .reply (errorPayload msg)) ∨ ∃ g ms, a = .create g ms := by
  rcases require_eq_ok h with ⟨-, h⟩ | rfl
  · rcases require_eq_ok h with ⟨-, h⟩ | rfl
    · exact .inr ⟨_, _, (Except.ok.inj h).symm⟩
    · exact .inl ⟨_, rfl⟩
  · exact .inl ⟨_, rfl⟩

/-- A step of the handler, while it works on the request. -/
theorem Creating.step (h : Creating c σ o ph past) (hm : Moves printable c tb ph tb' ph' es)
    (hbusy : ph.busy ≠ none) : Creating c σ o ph' (es ++ past) := by
  cases h with
  | raised | refused => exact absurd rfl hbusy
  | refusing a msg ha =>
    cases hm with
    | reply _ _ ok => exact .refused a msg ok ha
  | asks g ms ha =>
    cases hm with
    | groupExists => exact .refusing _ _ ha
    | create => exact .stored g ms ha (.looks [] ms rfl)
  | stored g ms ha hcast => exact .stored g ms ha (hcast.step hm hbusy)

/-- Only a handler at its loop reads a frame. -/
theorem Moves.unread (h : Moves printable c tb ph tb' ph' es) (log : List Event)
    (hloop : ∀ σ, ph ≠ .loop σ) :
    current (es ++ log) c = current log c ∧
      GuardedIM.recent c (es ++ log) = es ++ GuardedIM.recent c log := by
  have hno : ∀ e ∈ es, e.isFrame = false := by
    intro e he
    cases h with
    | request | raises | eof | junk => exact absurd rfl (hloop _)
    | _ =>
      simp only [List.mem_singleton, List.not_mem_nil] at he
      try
        subst he
        rfl
  refine ⟨current_append fun e he => ?_, recent_append fun e he => ⟨h.conn e he, hno e he⟩⟩
  cases e with
  | frame => cases hno _ he
  | _ => rfl

/-- Where an answer that is due comes from. -/
theorem Moves.owed (h : Moves printable c tb ph tb' ph' es) (howes : ph'.Owes g) :
    ph.Owes g ∨ ∃ σ g' ms, ph = .act σ (.create g' ms) := by
  cases h with
  | request σ o now a ha =>
    cases a with
    | reply q =>
      obtain ⟨msg, rfl⟩ := dispatch_reply ha
      cases howes
    | _ => exact absurd howes id
  | create => exact .inr ⟨_, _, _, rfl⟩
  | groupExists | notMember => cases howes
  | member _ _ _ _ ack | skip _ _ _ _ ack | castSent _ _ _ _ ack =>
    cases ack with
    | none => exact absurd howes id
    | some q => exact .inl howes
  | castAck => exact .inl howes
  | _ => exact absurd howes id

/-- What a working handler writes is what it was about to send. -/
theorem wrote_step {t : Target} {q : Payload} {b : Bool}
    (hm : handleClient printable c tb ph i = some (tb', ph', es)) (hbusy : ph.busy ≠ none)
    (he : .wrote c t q b ∈ es) :
    ∃ ok, i = .sent ok ∧ ph.writesTo c = some t ∧ b = (usable t.2 && ok) := by
  have hmoves : Moves printable c tb ph tb' ph' es := handleClient_moves hm
  have hsent : ∀ {t' p ok}, Event.wrote c t q b ∈ [sendPayload c t' p ok] →
      t = t' ∧ b = (usable t.2 && ok) := by
    intro t' p ok he
    obtain ⟨-, rfl, -, rfl⟩ := Event.wrote.inj (List.mem_singleton.mp he)
    exact ⟨rfl, rfl⟩
  cases ph with
  | act σ a =>
    cases a with
    | reply p =>
      cases i with
      | sent ok =>
        obtain ⟨⟩ := Option.some.inj hm
        obtain ⟨rfl, hb⟩ := hsent he
        exact ⟨ok, rfl, rfl, hb⟩
      | _ => cases hm
    | _ => cases hmoves <;> simp at he
  | forwardTo σ t' p =>
    cases i with
    | sent ok =>
      obtain ⟨⟩ := Option.some.inj hm
      obtain ⟨rfl, hb⟩ := hsent he
      exact ⟨ok, rfl, rfl, hb⟩
    | _ => cases hm
  | castTo σ t' ms p ack =>
    cases i with
    | sent ok =>
      have hes : es = [sendPayload c t' p ok] := by
        simp only [handleClient] at hm
        split_ifs at hm
        · obtain ⟨⟩ := Option.some.inj hm
          rfl
        · obtain ⟨⟩ := Option.some.inj hm
          rfl
      obtain ⟨rfl, hb⟩ := hsent (hes ▸ he)
      exact ⟨ok, rfl, rfl, hb⟩
    | _ => cases hm
  | cast => cases hmoves <;> simp at he
  | _ => exact absurd rfl hbusy

theorem Phase.Owes.busy (h : ph.Owes g) : ph.busy ≠ none := by
  unfold Phase.Owes at h
  split at h
  · exact nofun
  · exact nofun
  · exact nofun
  · exact absurd h id

theorem Phase.busy_of_joining (h : ph.joining = true) : ph.busy = none := by
  cases ph with
  | act | forwardTo | cast | castTo => cases h
  | _ => rfl

/-- Behind its loop, a handler only leaves. -/
theorem Moves.leaving (h : Moves printable c tb ph tb' ph' es) (hjoining : ph.joining = false)
    (hbusy : ph.busy = none) (hloop : ∀ σ, ph ≠ .loop σ) :
    ph'.joining = false ∧ ph'.busy = none ∧ ∀ σ, ph' ≠ .loop σ := by
  cases h with
  | cleanup | unlisted | close => exact ⟨rfl, rfl, nofun⟩
  | snapshot so | list so =>
    cases so with
    | none => exact ⟨rfl, rfl, nofun⟩
    | some σ => cases hjoining
  | eof σ | junk σ | request σ | raises σ => exact absurd rfl (hloop σ)
  | accept | noKey | key | noName | emptyName | goodName | badName | refuse | duplicate | register
  | firstList | sendFirst | listed => cases hjoining
  | _ => cases hbusy

/-- A handler at its loop takes a request on. -/
theorem Phase.Creates.reads {lossless : Prop} (h : (Phase.loop σ).Creates lossless c log)
    (hm : handleClient printable c tb (.loop σ) i = some (tb', ph', es))
    (hprompt : lossless → (Phase.loop σ).Prompt c log i) :
    ph'.Creates lossless c (es ++ log) := by
  have hmoves : Moves printable c tb (.loop σ) tb' ph' es := handleClient_moves hm
  cases i with
  | frame o now =>
    -- a new request
    have hread : current (.frame c o :: log) c = some o := by simp [current, Event.request]
    have hnew : recent c (.frame c o :: log) = [] := recent_frame o
    rw [handleClient] at hm
    split at hm
    · rename_i a ha
      obtain ⟨⟩ := Option.some.inj hm
      have hcreate : ∀ {o'}, some o = some o' → o'.IsCreate →
          createGroup (bindSender σ.name o') σ.name = .ok a := by
        rintro o' ⟨⟩ ho
        rw [← dispatch_createGroup ho, ha]
      refine ⟨fun hj => absurd hj Bool.false_ne_true, fun σ' o' hσ' ho' hcreate' => ?_,
        fun hl σ' o' hσ' ho' hcreate' => ?_, fun g howes => ?_⟩
      · obtain rfl := Option.some.inj (hσ'.resolve_left (by rintro ⟨⟩))
        rw [List.singleton_append, hread] at ho'
        have hok := hcreate ho' hcreate'
        rw [List.singleton_append, hnew]
        rcases createGroup_ok hok with ⟨msg, rfl⟩ | ⟨g, ms, rfl⟩
        · exact .refusing _ msg hok
        · exact .asks g ms hok
      · obtain rfl := Option.some.inj (hσ'.resolve_left (by rintro ⟨⟩))
        rw [List.singleton_append, hread] at ho'
        rw [List.singleton_append, hnew]
        refine ⟨fun e he => ?_, fun _ _ => List.not_mem_nil⟩
        rw [hcreate ho' hcreate'] at he
        cases he
      · rcases hmoves.owed howes with howes | ⟨_, _, _, hact⟩
        · exact absurd howes id
        · cases hact
    · rename_i e he
      obtain ⟨⟩ := Option.some.inj hm
      refine ⟨fun hj => absurd hj Bool.false_ne_true, fun σ' o' hσ' ho' hcreate => ?_,
        fun hl σ' o' hσ' ho' hcreate => ?_, fun g howes => absurd howes id⟩
      · obtain rfl := Phase.loop.inj (hσ'.resolve_right (by rintro ⟨⟩))
        rw [List.singleton_append, hread] at ho'
        obtain rfl := Option.some.inj ho'
        rw [List.singleton_append, hnew]
        exact .raised e ((dispatch_createGroup hcreate).symm.trans he)
      · rw [List.singleton_append, hread] at ho'
        obtain rfl := Option.some.inj ho'
        rw [dispatch_createGroup hcreate] at he
        exact absurd he ((hprompt hl).checks σ o now e rfl rfl hcreate)
  | junk =>
    obtain ⟨⟩ := Option.some.inj hm
    exact h
  | eof =>
    obtain ⟨⟩ := Option.some.inj hm
    exact ⟨fun hj => absurd hj Bool.false_ne_true, fun σ' o' hσ' => by simp [Phase.busy] at hσ',
      fun _ σ' o' hσ' => by simp [Phase.busy] at hσ', fun g howes => absurd howes id⟩
  | _ => cases hm

/-- Before its loop a handler has no request, and behind it there will be none. -/
theorem Phase.Creates.rests {lossless : Prop} (h : ph.Creates lossless c log)
    (hmoves : Moves printable c tb ph tb' ph' es) (hloop : ∀ σ, ph ≠ .loop σ)
    (hbusy : ph.busy = none) : ph'.Creates lossless c (es ++ log) := by
  obtain ⟨hcurrent, -⟩ := hmoves.unread log hloop
  rcases hjoining : ph.joining with _ | _
  · -- there will be no request any more
    obtain ⟨hj, hb, hl⟩ := hmoves.leaving hjoining hbusy hloop
    have hno : ∀ σ, ¬ (ph' = .loop σ ∨ ph'.busy = some σ) := by
      rintro σ (hσ | hσ)
      · exact hl σ hσ
      · rw [hb] at hσ
        cases hσ
    refine ⟨fun hj' => ?_, fun σ _ hσ => absurd hσ (hno σ), fun _ σ _ hσ => absurd hσ (hno σ),
      fun g howes => ?_⟩
    · rw [hj] at hj'
      cases hj'
    · exact absurd hb howes.busy
  · -- there has been none
    have hnone := h.unread hjoining
    rw [← hcurrent] at hnone
    refine ⟨fun _ => hnone, fun σ o _ ho => ?_, fun _ σ o _ ho => ?_, fun g howes => ?_⟩
    · rw [hnone] at ho
      cases ho
    · rw [hnone] at ho
      cases ho
    · rcases hmoves.owed howes with howes | ⟨_, _, _, rfl⟩
      · exact absurd hbusy howes.busy
      · cases hbusy

/-- A handler at work goes on with the current request. -/
theorem Phase.Creates.works {lossless : Prop} (h : ph.Creates lossless c log)
    (hm : handleClient printable c tb ph i = some (tb', ph', es)) (hbusy : ph.busy = some σ)
    (hrequest : ph.Request printable c log) (hprompt : lossless → ph.Prompt c log i) :
    ph'.Creates lossless c (es ++ log) := by
  have hmoves : Moves printable c tb ph tb' ph' es := handleClient_moves hm
  have hloop : ∀ σ, ph ≠ .loop σ := by
    rintro σ rfl
    cases hbusy
  obtain ⟨hcurrent, hrecent⟩ := hmoves.unread log hloop
  have hne : ph.busy ≠ none := by
    rw [hbusy]
    exact Option.some_ne_none σ
  have hnear := (hmoves.nearer hbusy).2
  have hsame : ∀ σ', ph' = .loop σ' ∨ ph'.busy = some σ' → σ' = σ := by
    rcases hnear with rfl | ⟨hnext, -⟩
    · intro σ' hσ'
      exact (Phase.loop.inj (hσ'.resolve_right (by rintro ⟨⟩))).symm
    · rintro σ' (rfl | hσ')
      · cases hnext
      · exact Option.some.inj (hσ'.symm.trans hnext)
  refine ⟨fun hj => ?_, fun σ' o hσ' ho hcreate => ?_, fun hl σ' o hσ' ho hcreate => ?_,
    fun g howes => ?_⟩
  · rcases hnear with rfl | ⟨hnext, -⟩
    · cases hj
    · exact absurd (Phase.busy_of_joining hj) (by rw [hnext]; exact Option.some_ne_none σ)
  · obtain rfl := hsame σ' hσ'
    rw [hcurrent] at ho
    rw [hrecent]
    exact (h.creating σ' o (.inr hbusy) ho hcreate).step hmoves hne
  · obtain rfl := hsame σ' hσ'
    rw [hcurrent] at ho
    obtain ⟨hchecks, hsends⟩ := h.quiet hl σ' o (.inr hbusy) ho hcreate
    refine ⟨hchecks, fun t q hw => ?_⟩
    rw [hrecent] at hw
    rcases List.mem_append.mp hw with hw | hw
    · obtain ⟨ok, rfl, ht, hfalse⟩ := wrote_step hm hne hw
      obtain ⟨hok, hkey⟩ := (hprompt hl).sends o t ho hcreate ht
      obtain rfl := Input.sent.inj hok
      rw [hkey] at hfalse
      cases hfalse
    · exact hsends t q hw
  · rw [hcurrent]
    rcases hmoves.owed howes with howes | ⟨_, _, _, rfl⟩
    · exact h.owed g howes
    · rcases hrequest with ⟨q, hq, -⟩ | ⟨o, now, ho, hp⟩
      · cases hq
      · cases hp with
        | create ht => exact ⟨o, ho, ht⟩

/-- **A step of the handler itself.** -/
theorem Phase.Creates.step {lossless : Prop} (h : ph.Creates lossless c log)
    (hm : handleClient printable c tb ph i = some (tb', ph', es))
    (hrequest : ph.Request printable c log) (hprompt : lossless → ph.Prompt c log i) :
    ph'.Creates lossless c (es ++ log) := by
  by_cases hloop : ∃ σ, ph = .loop σ
  · obtain ⟨σ, rfl⟩ := hloop
    exact h.reads hm hprompt
  · rcases hbusy : ph.busy with _ | σ
    · exact h.rests (handleClient_moves hm) (not_exists.mp hloop) hbusy
    · exact h.works hm hbusy hrequest hprompt

/-- **Every handler, in every run.** -/
theorem creates_reach (lossless : Prop) (h : (server printable).Reach C x)
    (hprompt : lossless → ∀ z a, C z a → Prompt z a) :
    ∀ c, (x.thread c).Creates lossless c x.log := by
  refine h.invariant (I := fun x => ∀ c, (x.thread c).Creates lossless c x.log) (fun c => ?_) ?_
  · exact ⟨fun _ => rfl, fun _ _ _ ho => (nomatch ho), fun _ _ _ _ ho => (nomatch ho),
      fun _ howes => absurd howes id⟩
  · rintro z c i ⟨tb, ph, es⟩ hreach hz hC hm d
    have hmoves := server_moves hm
    by_cases hd : d = c
    · subst hd
      rw [after_thread_self]
      exact (hz d).step hm (request_reach hreach d) fun hl => hprompt hl z _ hC
    · rw [after_thread_ne _ _ hd]
      have hother : ∀ e ∈ es, e.conn ≠ d := fun e he hed => hd (hed.symm.trans (hmoves.conn e he))
      have hcurrent : current (es ++ z.log) d = current z.log d := by
        refine current_append fun e he => ?_
        cases e with
        | frame d' o => exact if_neg (hother _ he)
        | _ => rfl
      have hrecent : recent d (es ++ z.log) = recent d z.log := recent_other hother
      obtain ⟨hunread, hcreating, hquiet, howed⟩ := hz d
      rw [← hcurrent] at hunread
      simp only [← hcurrent, ← hrecent] at hcreating hquiet howed
      exact ⟨hunread, hcreating, hquiet, howed⟩

/-! ## What the requester is told -/

theorem mem_recent {e : Event} (h : e ∈ recent c log) : e ∈ log :=
  (List.mem_filter.mp ((List.takeWhile_sublist _).subset h)).1

theorem replies_own (q : Payload) (events : List Event) :
    replies c σ (.wrote c (σ.target c) q true :: events) = q :: replies c σ events := by
  simp [replies]

/-- The invitations go to others. -/
theorem replies_visits (h : (server printable).Reach C x) (hσ : .registered c σ ∈ x.log)
    {p : Payload} {turns : List (Str × Option Target)}
    (hlog : ∀ e ∈ visits c σ p turns, e ∈ x.log) :
    replies c σ (visits c σ p turns) = [] := by
  refine List.filterMap_eq_nil_iff.mpr fun e he => ?_
  cases e with
  | wrote d t q ok =>
    obtain ⟨rfl, rfl, rfl, m, hm, hturn⟩ := wrote_mem_visits.mp he
    refine if_neg ?_
    rintro rfl
    -- its own connection is registered under its own name only
    have hreg := looked_reach h _ _ _ (hlog _ (looked_mem_visits.mpr hturn))
    exact hm (congrArg Session.name ((sessions_reach h).once _ _ _ hreg hσ))
  | _ => rfl

theorem grouped_visits {p : Payload} {turns : List (Str × Option Target)} {d : Conn}
    {ms : List Str} : .grouped d g ms ∉ visits c σ p turns := by
  intro hmem
  obtain ⟨⟨m, r⟩, -, hvisit⟩ := List.mem_flatMap.mp hmem
  rcases r with _ | t
  · simp [visit] at hvisit
  · rw [visit] at hvisit
    split_ifs at hvisit <;> simp at hvisit

theorem error_ne_created (msg g : Str) : errorPayload msg ≠ groupCreated g := by
  intro heq
  have htype := congrArg (fun p : Payload => (p.find (str "type")).isStr (str "error")) heq
  exact absurd htype (by decide : ¬ true = false)

theorem groupCreated_inj {g' : Str} (h : groupCreated g = groupCreated g') : g = g' := by
  have hname := congrArg (fun p : Payload => p.find (str "group_name")) h
  exact Json.str.inj hname

/-- An answer that has not failed has arrived. -/
theorem usable_of_sent {events : List Event} {q : Payload} {ok : Bool}
    (hown : ∀ q, .wrote c (σ.target c) q false ∉ events)
    (hmem : sendPayload c (σ.target c) q ok ∈ events) : (usable (σ.target c).2 && ok) = true := by
  rw [← Bool.not_eq_false]
  intro hfailed
  rw [sendPayload, hfailed] at hmem
  exact hown q hmem

/-- **When the requester is told the truth**: if and only if no check has raised, and no send has
failed. -/
theorem told_iff (h : (server printable).Reach C x) (hloop : x.thread c = .loop σ)
    (ho : current x.log c = some o) (hcreate : o.IsCreate)
    (hown : ∀ q, .wrote c (σ.target c) q false ∉ recent c x.log) :
    ToldTruth x c σ ↔ (∀ e, createGroup (bindSender σ.name o) σ.name ≠ .error e) ∧
      ∀ t q, .wrote c t q false ∉ recent c x.log := by
  have hcreating := (creates_reach False h False.elim c).creating σ o (.inl hloop) ho
    hcreate
  have hσ : .registered c σ ∈ x.log := by
    have hpast := (sessions_reach h).history c
    rw [stages, hloop] at hpast
    exact hpast.1
  have hrecent : ∀ e ∈ recent c x.log, e ∈ x.log := fun e he => mem_recent he
  rw [ToldTruth]
  rw [hloop] at hcreating
  generalize recent c x.log = events at hcreating hown hrecent
  cases hcreating with
  | raised e he =>
    refine ⟨?_, fun hquiet => absurd he (hquiet.1 e)⟩
    rintro ⟨q, hq, -⟩
    cases hq
  | refused a msg ok ha =>
    rw [sendPayload, usable_of_sent hown (List.mem_singleton_self _)]
    refine ⟨fun _ => ⟨fun e he => ?_, fun t q hw => ?_⟩, fun _ =>
      ⟨_, replies_own (errorPayload msg) [], fun g => ⟨fun heq => ?_, ?_⟩, ?_⟩⟩
    · rw [ha] at he
      cases he
    · cases List.mem_singleton.mp hw
    · exact absurd heq (error_ne_created msg g)
    · rintro ⟨_, hmem, -⟩
      cases List.mem_singleton.mp hmem
    · refine ⟨fun _ g ms hmem => ?_, fun _ => ⟨msg, rfl⟩⟩
      cases List.mem_singleton.mp hmem
  | stored g ms ha hcast =>
    have hok : ∀ e, createGroup (bindSender σ.name o) σ.name ≠ .error e := by
      intro e he
      rw [ha] at he
      cases he
    -- the turns before are no answers
    have hbefore : ∀ {turns} {ms' : List Str},
        (∀ e ∈ visits c σ (groupInvite g ms') turns, e ∈ x.log) →
        replies c σ (visits c σ (groupInvite g ms') turns ++ [.grouped c g ms']) = [] := by
      intro turns ms' hlog
      have hnil := replies_visits h hσ hlog
      rw [replies] at hnil ⊢
      rw [List.filterMap_append, hnil]
      rfl
    cases hcast with
    | acked turns q ok hq hms =>
      obtain rfl := Option.some.inj hq
      rw [sendPayload, usable_of_sent hown (List.mem_cons_self ..)] at hrecent ⊢
      have hlog : ∀ e ∈ visits c σ (groupInvite g ms) turns, e ∈ x.log := fun e he =>
        hrecent e (List.mem_cons_of_mem _ (List.mem_append_left _ he))
      have hgrouped : ∀ {g' ms'}, .grouped c g' ms' ∈ .wrote c (σ.target c) (groupCreated g) true ::
          (visits c σ (groupInvite g ms) turns ++ [.grouped c g ms]) ↔ g' = g ∧ ms' = ms := by
        intro g' ms'
        simp [grouped_visits]
      have hstored : Dict.get x.memory.groups g = some ms := by
        refine (groups_reach h g ms).mpr ⟨c, hrecent _ (hgrouped.mpr ⟨rfl, rfl⟩)⟩
      refine ⟨fun _ => ⟨hok, fun t q hw => ?_⟩, fun _ => ⟨groupCreated g, ?_, fun g' => ?_, ?_⟩⟩
      · rcases List.mem_cons.mp hw with hw | hw
        · cases hw
        · rcases List.mem_append.mp hw with hw | hw
          · obtain ⟨-, -, hfalse, -⟩ := wrote_mem_visits.mp hw
            cases hfalse
          · cases List.mem_singleton.mp hw
      · rw [replies_own, hbefore hlog]
      · constructor
        · intro heq
          obtain rfl := groupCreated_inj heq
          exact ⟨ms, hgrouped.mpr ⟨rfl, rfl⟩, hstored⟩
        · rintro ⟨ms', hmem, -⟩
          rw [(hgrouped.mp hmem).1]
      · constructor
        · rintro ⟨msg, heq⟩
          exact absurd heq.symm (error_ne_created msg g)
        · exact fun hno => absurd (hgrouped.mpr ⟨rfl, rfl⟩) (hno g ms)
    | done turns hack => cases hack
    | failed turns m t todo hm hms =>
      have hlog : ∀ e ∈ visits c σ (groupInvite g ms) turns, e ∈ x.log := fun e he =>
        hrecent e (List.mem_cons_of_mem _ (List.mem_cons_of_mem _ (List.mem_append_left _ he)))
      constructor
      · rintro ⟨q, hq, -⟩
        have hnil := hbefore hlog
        rw [replies] at hq hnil
        simp only [List.filterMap_cons, hnil] at hq
        cases hq
      · rintro ⟨-, hno⟩
        exact absurd (List.mem_cons_self ..) (hno t (groupInvite g ms))

/-! ## Who is told of a group -/

/-- The group `g`, against the history. With `lossless`, no answer gets lost. -/
inductive Acked (lossless : Prop) (g : Str) (x : Config Conn Tables Phase Event) : Prop where
  /-- nobody has created it -/
  | absent : creations g x.log = [] → succeeded g x.log = [] → (∀ d, ¬ (x.thread d).Owes g) →
      Acked lossless g x
  /-- the answer is due, or lost -/
  | due (c : Conn) (ms : List Str) : creations g x.log = [(c, ms)] → succeeded g x.log = [] →
      (∀ d, (x.thread d).Owes g → d = c) → (lossless → (x.thread c).Owes g) → Acked lossless g x
  /-- the one who created it was told -/
  | told (c : Conn) (ms : List Str) : creations g x.log = [(c, ms)] → succeeded g x.log = [c] →
      (∀ d, ¬ (x.thread d).Owes g) → Acked lossless g x

/-- Nothing else that a handler has in hand to send says so. -/
theorem unacknowledged_reach (h : (server printable).Reach C x) :
    ∀ c, (x.thread c).Meets (fun _ => True) fun p => ∀ g, p.acknowledges g = false := by
  refine (meets_reach h (fun _ _ => trivial) (fun _ _ _ => rfl) ?_).1
  intro z c o now σ a _ _ _ hd hreply
  have hpass := dispatch_passes hd hreply
  have hout : ∀ {p}, ((∃ g, a = .fanOut g p) ∨ ∃ u, a = .forward u p) →
      ∀ g, p.acknowledges g = false := by
    intro p ha g
    obtain ⟨-, t, ht, hforwarded⟩ := hpass.type_kept ha
    have hne : t ≠ str "group_created" := by
      rintro rfl
      exact absurd hforwarded.mem (by decide)
    rw [Payload.acknowledges, ht, Json.isStr_str, decide_eq_false hne, Bool.false_and]
  cases a with
  | ignore | reply => trivial
  | create g ms => exact ⟨fun _ => rfl, trivial⟩
  | fanOut g p => exact hout (.inl ⟨g, rfl⟩)
  | forward u p => exact hout (.inr ⟨u, rfl⟩)

theorem acknowledges_created {g' : Str} : (groupCreated g').acknowledges g = true ↔ g' = g := by
  have hname : (groupCreated g').find (str "group_name") = .str g' := rfl
  have htype : (groupCreated g').find (str "type") = .str (str "group_created") := rfl
  simp [Payload.acknowledges, hname, htype]

/-- **What a step does to the answers**: nothing new, a new group, or an answer that was due. -/
theorem Moves.acks (h : Moves printable c tb ph tb' ph' es)
    (hmeets : ph.Meets (fun _ => True) fun p => ∀ g, p.acknowledges g = false) (g : Str) :
    (succeeded g es = [] ∧ creations g es = [] ∧ (ph'.Owes g → ph.Owes g) ∧
      (ph.Owes g → ph'.Owes g ∨ ∃ t q, .wrote c t q false ∈ es)) ∨
    (∃ ms, Dict.get tb.groups g = none ∧ es = [.grouped c g ms] ∧ ph'.Owes g) ∨
    (succeeded g es = [c] ∧ creations g es = [] ∧ ph.Owes g ∧ ¬ ph'.Owes g) := by
  have hwrote : ∀ {t p ok}, p.acknowledges g = false →
      succeeded g [Event.wrote c t p ok] = [] := by
    intro t p ok hp
    cases ok with
    | false => rfl
    | true => simp [succeeded, hp]
  cases h with
  | reply σ p ok =>
    rw [sendPayload]
    rcases hsent : (usable (σ.target c).2 && ok) with _ | _
    · -- it fails
      exact .inl ⟨rfl, rfl, fun h => absurd h id, fun _ => .inr ⟨_, _, List.mem_singleton_self _⟩⟩
    · rcases hp : p.acknowledges g with _ | _
      · refine .inl ⟨hwrote hp, rfl, fun h => absurd h id, fun howes => ?_⟩
        exact absurd (hp.symm.trans howes) Bool.false_ne_true
      · refine .inr (.inr ⟨?_, rfl, hp, id⟩)
        simp [succeeded, hp]
  | create σ g' ms hfree =>
    by_cases hg : g' = g
    · subst hg
      exact .inr (.inl ⟨ms, hfree, rfl, acknowledges_created.mpr rfl⟩)
    · refine .inl ⟨rfl, ?_, fun howes => absurd (acknowledges_created.mp howes) hg,
        fun howes => absurd howes id⟩
      simp [creations, hg]
  | request σ o now a ha =>
    refine .inl ⟨rfl, rfl, fun howes => ?_, fun howes => absurd howes id⟩
    cases a with
    | reply q =>
      obtain ⟨msg, rfl⟩ := dispatch_reply ha
      cases howes
    | _ => exact absurd howes id
  | groupExists | notMember =>
    exact .inl ⟨rfl, rfl, fun howes => absurd howes Bool.false_ne_true,
      fun howes => absurd howes id⟩
  | refuse | duplicate =>
    exact .inl ⟨hwrote rfl, rfl, fun howes => absurd howes id, fun howes => absurd howes id⟩
  | sendFirst | list | forward =>
    exact .inl ⟨hwrote (hmeets g), rfl, fun howes => absurd howes id,
      fun howes => absurd howes id⟩
  | member σ m ms p ack | skip σ m ms p ack =>
    cases ack with
    | none => exact .inl ⟨rfl, rfl, fun howes => absurd howes id, fun howes => absurd howes id⟩
    | some q => exact .inl ⟨rfl, rfl, id, .inl⟩
  | castAck => exact .inl ⟨rfl, rfl, id, .inl⟩
  | castSent σ t ms p ack =>
    cases ack with
    | none =>
      exact .inl ⟨hwrote (hmeets.1 g), rfl, fun howes => absurd howes id,
        fun howes => absurd howes id⟩
    | some q => exact .inl ⟨hwrote (hmeets.1 g), rfl, id, .inl⟩
  | castFailed =>
    exact .inl ⟨rfl, rfl, fun howes => absurd howes id,
      fun _ => .inr ⟨_, _, List.mem_singleton_self _⟩⟩
  | _ => exact .inl ⟨rfl, rfl, fun howes => absurd howes id, fun howes => absurd howes id⟩

theorem creations_append : creations g (es ++ log) = creations g es ++ creations g log :=
  List.filterMap_append ..

theorem succeeded_append : succeeded g (es ++ log) = succeeded g es ++ succeeded g log :=
  List.filterMap_append ..

section Steps

variable {lossless : Prop} {z : Config Conn Tables Phase Event}

theorem owes_after_self : ((after z c (tb, ph, es)).thread c).Owes g = ph.Owes g := by
  rw [after_thread_self]

theorem owes_after_ne {d : Conn} (hd : d ≠ c) :
    ((after z c (tb, ph, es)).thread d).Owes g = (z.thread d).Owes g := by
  rw [after_thread_ne _ _ hd]

/-- A step that is not about `g`. -/
theorem Acked.same (hz : Acked lossless g z) (hsucceeded : succeeded g es = [])
    (hcreations : creations g es = []) (hback : ph.Owes g → (z.thread c).Owes g)
    (hforth : lossless → (z.thread c).Owes g → ph.Owes g) :
    Acked lossless g (after z c (tb, ph, es)) := by
  have hc : creations g (after z c (tb, ph, es)).log = creations g z.log := by
    rw [after_log, creations_append, hcreations, List.nil_append]
  have hs : succeeded g (after z c (tb, ph, es)).log = succeeded g z.log := by
    rw [after_log, succeeded_append, hsucceeded, List.nil_append]
  have hfrom : ∀ d, ((after z c (tb, ph, es)).thread d).Owes g → (z.thread d).Owes g := by
    intro d hd
    by_cases hdc : d = c
    · subst hdc
      rw [owes_after_self] at hd
      exact hback hd
    · rwa [owes_after_ne hdc] at hd
  cases hz with
  | absent hc' hs' hno =>
    exact .absent (hc.trans hc') (hs.trans hs') fun d hd => hno d (hfrom d hd)
  | told c' ms hc' hs' hno =>
    exact .told c' ms (hc.trans hc') (hs.trans hs') fun d hd => hno d (hfrom d hd)
  | due c' ms hc' hs' honly hstill =>
    refine .due c' ms (hc.trans hc') (hs.trans hs') (fun d hd => honly d (hfrom d hd))
      fun hl => ?_
    by_cases hcc : c' = c
    · subst hcc
      rw [owes_after_self]
      exact hforth hl (hstill hl)
    · rw [owes_after_ne hcc]
      exact hstill hl

/-- A step that creates `g`. -/
theorem Acked.creates (hz : Acked lossless g z) (hnone : creations g z.log = []) (ms : List Str)
    (howes : ph.Owes g) : Acked lossless g (after z c (tb, ph, [.grouped c g ms])) := by
  cases hz with
  | absent hc' hs' hno =>
    refine .due c ms ?_ ?_ (fun d hd => ?_) fun _ => ?_
    · rw [after_log, creations_append, hc', List.append_nil]
      simp [creations]
    · rw [after_log, succeeded_append, hs']
      rfl
    · by_contra hdc
      rw [owes_after_ne hdc] at hd
      exact hno d hd
    · rwa [owes_after_self]
  | due _ _ hc' | told _ _ hc' =>
    rw [hnone] at hc'
    cases hc'

/-- A step that tells the creator. -/
theorem Acked.tells (hz : Acked lossless g z) (hsucceeded : succeeded g es = [c])
    (hcreations : creations g es = []) (howes : (z.thread c).Owes g) (hdone : ¬ ph.Owes g) :
    Acked lossless g (after z c (tb, ph, es)) := by
  cases hz with
  | absent _ _ hno | told _ _ _ _ hno => exact absurd howes (hno c)
  | due c' ms hc' hs' honly hstill =>
    obtain rfl := honly c howes
    refine .told c ms ?_ ?_ fun d hd => ?_
    · rw [after_log, creations_append, hcreations, List.nil_append, hc']
    · rw [after_log, succeeded_append, hsucceeded, hs', List.append_nil]
    · by_cases hdc : d = c
      · subst hdc
        rw [owes_after_self] at hd
        exact hdone hd
      · rw [owes_after_ne hdc] at hd
        exact hdc (honly d hd)

end Steps

/-- **Nobody but the creator is told**, in any run, and no answer is lost in a prompt one. -/
theorem acked_reach (lossless : Prop) (h : (server printable).Reach C x)
    (hprompt : lossless → ∀ z a, C z a → Prompt z a) : ∀ g, Acked lossless g x := by
  refine h.invariant (I := fun x => ∀ g, Acked lossless g x)
    (fun g => .absent rfl rfl fun _ howes => howes) ?_
  rintro z c i ⟨tb, ph, es⟩ hreach hz hC hm g
  have hmoves : Moves printable c z.memory (z.thread c) tb ph es := server_moves hm
  rcases hmoves.acks (unacknowledged_reach hreach c) g with
    ⟨hsucceeded, hcreations, hback, hforth⟩ | ⟨ms, hfree, rfl, howes⟩ |
    ⟨hsucceeded, hcreations, howes, hdone⟩
  · refine (hz g).same hsucceeded hcreations hback fun hl howes => ?_
    refine (hforth howes).resolve_right ?_
    -- a prompt handler does not fail
    rintro ⟨t, q, hw⟩
    obtain ⟨o, ho, hcreate⟩ := (creates_reach lossless hreach hprompt c).owed g howes
    obtain ⟨ok, rfl, ht, hfalse⟩ := wrote_step hm howes.busy hw
    obtain ⟨hok, hkey⟩ := (hprompt hl z _ hC).sends o t ho hcreate ht
    obtain rfl := Input.sent.inj hok
    rw [hkey] at hfalse
    cases hfalse
  · have hnone : creations g z.log = [] := by
      have hone := creations_reach hreach g
      rw [hfree] at hone
      exact List.map_eq_nil_iff.mp hone
    exact (hz g).creates hnone ms howes
  · exact (hz g).tells hsucceeded hcreations howes hdone

/-- **The answers to `create_group`.** In every run, whatever the others do: a handler that works on
a request gets back to its loop, and then its client, if it takes what it is sent, has been told the
truth exactly when no check has raised and no invitation has failed. In a run where this never
happens all requesters have been told the truth, and of all who asked for one name, the one who got
it is told so, as soon as that handler is done, and nobody else. -/
theorem replies_truthful (printable : CodePoint → Bool) :
    (∀ x, (server printable).Reach Any x → ∀ c σ,
      ((x.thread c).busy = some σ → ∃ as z, (server printable).Run Any x as z ∧
        z.thread c = .loop σ) ∧
      ∀ o, x.thread c = .loop σ → current x.log c = some o → o.IsCreate →
        (∀ q, .wrote c (σ.target c) q false ∉ recent c x.log) →
        (ToldTruth x c σ ↔ (∀ e, createGroup (bindSender σ.name o) σ.name ≠ .error e) ∧
          ∀ t q, .wrote c t q false ∉ recent c x.log)) ∧
    ∀ x, (server printable).Reach Prompt x →
      (∀ c σ o, x.thread c = .loop σ → current x.log c = some o → o.IsCreate →
        ToldTruth x c σ) ∧
      (∀ g ms, Dict.get x.memory.groups g = some ms → ∃ c, creations g x.log = [(c, ms)] ∧
        (succeeded g x.log = [c] ∨ succeeded g x.log = [] ∧ (x.thread c).Owes g)) ∧
      ∀ g, Dict.get x.memory.groups g = none → succeeded g x.log = [] := by
  refine ⟨fun x hx c σ => ⟨fun hbusy => finishes hbusy fun _ _ _ _ _ => trivial,
    fun o hloop ho hcreate hown => told_iff hx hloop ho hcreate hown⟩,
    fun x hx => ⟨fun c σ o hloop ho hcreate => ?_, fun g ms hg => ?_, fun g hg => ?_⟩⟩
  · have hquiet := (creates_reach True hx (fun _ _ _ hC => hC) c).quiet trivial σ o
      (.inl hloop) ho hcreate
    exact (told_iff hx hloop ho hcreate fun q => hquiet.2 _ q).mpr hquiet
  · have hone := creations_reach hx g
    rw [hg, Option.toList_some] at hone
    cases acked_reach True hx (fun _ _ _ hC => hC) g with
    | absent hc =>
      rw [hc] at hone
      cases hone
    | due c ms' hc hs _ hstill =>
      rw [hc] at hone
      obtain rfl := (List.cons.inj hone).1
      exact ⟨c, hc, .inr ⟨hs, hstill trivial⟩⟩
    | told c ms' hc hs =>
      rw [hc] at hone
      obtain rfl := (List.cons.inj hone).1
      exact ⟨c, hc, .inl hs⟩
  · have hone := creations_reach hx g
    rw [hg, Option.toList_none] at hone
    cases acked_reach True hx (fun _ _ _ hC => hC) g with
    | absent _ hs => exact hs
    | due c ms hc | told c ms hc =>
      rw [hc] at hone
      cases hone

/-- The condition, by computation. -/
def isPrompt (x : Config Conn Tables Phase Event) (a : Conn × Input) : Bool :=
  (match x.thread a.1, a.2 with
    | .loop σ, .frame o _ =>
      match createGroup (bindSender σ.name o) σ.name with
      | .ok _ => true
      | .error _ => false
    | _, _ => true) &&
  match (x.thread a.1).writesTo a.1, a.2 with
  | some t, .sent true => usable t.2
  | some _, _ => false
  | none, _ => true

theorem prompt_of_isPrompt (x : Config Conn Tables Phase Event) (a : Conn × Input)
    (h : isPrompt x a = true) : Prompt x a := by
  obtain ⟨hchecks, hsends⟩ := Bool.and_eq_true_iff.mp h
  refine ⟨fun σ o now e hloop hi _ he => ?_, fun o t _ _ ht => ?_⟩
  · rw [hloop, hi] at hchecks
    simp only [he] at hchecks
    cases hchecks
  · rw [ht] at hsends
    split at hsends
    · rename_i t' heq hi
      obtain rfl := Option.some.inj heq
      exact ⟨hi, hsends⟩
    · cases hsends
    · rename_i hnone
      cases hnone

/-- Alice asks for a group with Bob. -/
theorem replies_truthful_team : ∃ x : Config Conn Tables Phase Event,
    (server fun _ => true).Reach Prompt x ∧ ToldTruth x 0 ⟨demoKey, str "alice"⟩ ∧
      ∃ c, creations (str "team") x.log = [(c, [str "alice", str "bob"])] ∧
        (succeeded (str "team") x.log = [c] ∨
          succeeded (str "team") x.log = [] ∧ (x.thread c).Owes (str "team")) := by
  obtain ⟨x, hx, hp⟩ := exists_run_of_execIf (P := server fun _ => true) prompt_of_isPrompt
    (join 0 (str "alice") 0 ++ join 1 (str "bob") 1 ++
      [(0, .frame (newGroup [str "bob"]) []), (0, .run), (0, .run), (0, .run), (0, .sent true),
        (0, .run), (0, .sent true)])
    (p := fun x => (x.thread 0).isAliceLoop &&
      (current x.log 0).any (fun o => (o.find (str "type")).isStr (str "create_group")) &&
      decide (Dict.get x.memory.groups (str "team") = some [str "alice", str "bob"]))
    (by decide +kernel)
  simp only [Bool.and_eq_true, decide_eq_true_eq] at hp
  obtain ⟨⟨hloop, ho⟩, hteam⟩ := hp
  obtain ⟨o, hcurrent, ho⟩ := Option.any_eq_true _ _ |>.mp ho
  obtain ⟨htold, hone, -⟩ := (replies_truthful fun _ => true).2 x ⟨_, hx⟩
  exact ⟨x, ⟨_, hx⟩, htold 0 _ o (Phase.eq_loop_of_isAliceLoop hloop) hcurrent
    (Json.isStr_iff.mp ho), hone _ _ hteam⟩

/-- Alice's handler is done with a request for a group. All that was written to her has arrived, and
none of it since the request. -/
structure Unanswered (x : Config Conn Tables Phase Event) : Prop where
  /-- it can be reached -/
  reach : (server fun _ => true).Reach Any x
  /-- the handler is at its loop -/
  loop : x.thread 0 = .loop ⟨demoKey, str "alice"⟩
  /-- the request -/
  request : ∃ o, current x.log 0 = some o ∧ o.IsCreate
  /-- her connection -/
  accepts : ∀ q, .wrote 0 (0, demoKey) q false ∉ x.log
  /-- no answer -/
  silent : replies 0 ⟨demoKey, str "alice"⟩ (recent 0 x.log) = []

theorem exists_unanswered (o : Payload) (as : List (Conn × Input)) {p : Tables → Bool}
    (h : ((server fun _ => true).exec (server fun _ => true).init
      (join 0 (str "alice") 0 ++ join 1 (str "bob") 1 ++ (0, .frame o []) :: as)).any
        (fun x => (x.thread 0).isAliceLoop &&
          (current x.log 0).any (fun o => (o.find (str "type")).isStr (str "create_group")) &&
          (x.log.all fun
          | .wrote 0 t _ false => decide (t ≠ (0, demoKey))
          | _ => true) && (replies 0 ⟨demoKey, str "alice"⟩ (recent 0 x.log)).isEmpty &&
          p x.memory) = true) : ∃ x, Unanswered x ∧ p x.memory = true := by
  obtain ⟨x, hx, hp⟩ := exists_reach_of_exec _ h
  simp only [Bool.and_eq_true, List.isEmpty_iff] at hp
  obtain ⟨⟨⟨⟨hloop, ho⟩, hown⟩, hsilent⟩, hp⟩ := hp
  refine ⟨x, ⟨hx, Phase.eq_loop_of_isAliceLoop hloop, ?_, fun q hq => ?_, hsilent⟩, hp⟩
  · obtain ⟨o, hcurrent, ho⟩ := Option.any_eq_true _ _ |>.mp ho
    exact ⟨o, hcurrent, Json.isStr_iff.mp ho⟩
  · have hne := List.all_eq_true.mp hown _ hq
    exact absurd rfl (of_decide_eq_true hne)

/-- Bob's connection fails when he is invited: the group is there, and Alice is told nothing. Nor is
she when she gives a number for its name. -/
theorem team_unacknowledged : ∃ x y : Config Conn Tables Phase Event,
    Unanswered x ∧ Dict.get x.memory.groups (str "team") = some [str "alice", str "bob"] ∧
      ¬ ToldTruth x 0 ⟨demoKey, str "alice"⟩ ∧
    Unanswered y ∧ ¬ ToldTruth y 0 ⟨demoKey, str "alice"⟩ := by
  have huntold : ∀ {z}, Unanswered z → ¬ ToldTruth z 0 ⟨demoKey, str "alice"⟩ := by
    rintro z hz ⟨q, hq, -⟩
    rw [hz.silent] at hq
    cases hq
  obtain ⟨x, hx, hteam⟩ := exists_unanswered (newGroup [str "bob"])
    [(0, .run), (0, .run), (0, .run), (0, .sent false)]
    (p := fun tb => decide (Dict.get tb.groups (str "team") = some [str "alice", str "bob"]))
    (by decide +kernel)
  obtain ⟨y, hy, -⟩ := exists_unanswered
    [(str "type", .str (str "create_group")), (str "group_name", .int 5)] []
    (p := fun _ => true) (by decide +kernel)
  exact ⟨x, y, hx, of_decide_eq_true hteam, huntold hx, hy, huntold hy⟩

end GuardedIM
