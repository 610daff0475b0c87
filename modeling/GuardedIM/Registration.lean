import GuardedIM.Server

/-!
# Sessions and the `clients` table

What the table has to do with the handlers. A handler goes through five stages, and
only two of its steps touch the table: the registration, which takes a free name, and
the locked part of `finally`, which frees the name only when the entry is its own.

* `StageMoves` is the session protocol by itself; `Moves.stage` says that every step of
  `handle_client`, whichever path it takes, is a step of it.
* `Sessions` ties the stages, the history and the table together, and
  `sessions_reach` says it is never lost.
* `clients_iff_live`: the table is exactly the set of live sessions.
-/

namespace GuardedIM

open Interleave Interleave.Program

/-- The stages of a handler. -/
inductive Stage where
  /-- no key yet -/
  | arriving
  /-- the key is known, the name is not registered -/
  | keyed (k : Key)
  /-- registered -/
  | session (σ : Session)
  /-- on the way into `finally`; `username` is the variable of that name -/
  | leaving (username : Option Str)
  /-- past the locked part of `finally` -/
  | left

/-- The stage of a handler, from its position. -/
def Phase.stage : Phase → Stage
  | .idle | .readKey => .arriving
  | .readName k | .refuse k _ => .keyed k
  | .register σ => .keyed σ.key
  | .firstList σ | .sendFirst σ _ | .broadcast (some σ) | .listing (some σ) _ _ | .loop σ
  | .act σ _ | .forwardTo σ _ _ | .cast σ _ _ _ | .castTo σ _ _ _ _ => .session σ
  | .cleanup username => .leaving username
  | .broadcast none | .listing none _ _ | .close | .closed => .left

/-- The events that make up the history of a session. -/
def Event.IsSession : Event → Prop
  | .handshake _ _ | .registered _ _ | .cleaned _ => True
  | _ => False

/-- Events about anything else. -/
def Silent (es : List Event) : Prop := ∀ e ∈ es, ¬ e.IsSession

/-- What the handler of `c` may do to the table of clients. -/
inductive StageMoves (c : Conn) (clients : Dict Str Target) :
    Stage → Dict Str Target → Stage → List Event → Prop where
  /-- nothing -/
  | silent {s : Stage} {es : List Event} : Silent es → StageMoves c clients s clients s es
  /-- obtain the key -/
  | handshake (k : Key) : StageMoves c clients .arriving clients (.keyed k) [.handshake c k]
  /-- take a free name -/
  | register (σ : Session) : Dict.get clients σ.name = none →
      StageMoves c clients (.keyed σ.key) (Dict.set clients σ.name (c, σ.key)) (.session σ)
        [.registered c σ]
  /-- fail before the registration -/
  | giveUp {s : Stage} {es : List Event} (username : Option Str) :
      (s = .arriving ∨ ∃ k, s = .keyed k) → Silent es →
      StageMoves c clients s clients (.leaving username) es
  /-- leave the frame loop -/
  | leave (σ : Session) :
      StageMoves c clients (.session σ) clients (.leaving (some σ.name)) []
  /-- the locked part of `finally` -/
  | cleanup (username : Option Str) :
      StageMoves c clients (.leaving username) (removeOwn c username clients) .left [.cleaned c]

theorem silent_nil : Silent [] := fun _ he => absurd he List.not_mem_nil

theorem silent_one {e : Event} (h : ¬ e.IsSession) : Silent [e] := by
  intro e' he
  obtain rfl := List.mem_singleton.mp he
  exact h

/-- **Every step of a handler is a step of the session protocol.** -/
theorem Moves.stage {printable : CodePoint → Bool} {c : Conn} {tb tb' : Tables}
    {ph ph' : Phase} {es : List Event} (h : Moves printable c tb ph tb' ph' es) :
    StageMoves c tb.clients ph.stage tb'.clients ph'.stage es := by
  cases h with
  | key k => exact .handshake k
  | register σ hfree => exact .register σ hfree
  | cleanup username => exact .cleanup username
  | eof σ => exact .leave σ
  -- the ways into `finally` without a registration
  | noKey => exact .giveUp none (.inl rfl) silent_nil
  | noName k => exact .giveUp none (.inr ⟨k, rfl⟩) silent_nil
  | emptyName k => exact .giveUp _ (.inr ⟨k, rfl⟩) silent_nil
  | refuse k u ok => exact .giveUp _ (.inr ⟨k, rfl⟩) (silent_one id)
  | duplicate σ t ok _ => exact .giveUp _ (.inr ⟨σ.key, rfl⟩) (silent_one id)
  -- a broadcast happens in two stages
  | snapshot so => cases so <;> exact .silent (silent_one id)
  | list so => cases so <;> exact .silent (silent_one id)
  -- what does not concern the session
  | accept | goodName | badName | listed | unlisted | junk | ignore | groupExists | fanOut
  | notMember | castEnd | castAck | close => exact .silent silent_nil
  | firstList | sendFirst | request | raises | reply | create | found | missing | forward
  | member | skip | castSent | castFailed => exact .silent (silent_one id)

/-! ## The history of a session -/

/-- The handler of `c` has registered `σ` and has not run its cleanup. -/
def Live (log : List Event) (c : Conn) (σ : Session) : Prop :=
  .registered c σ ∈ log ∧ .cleaned c ∉ log

/-- What the stage of the handler of `c` says about its past. -/
def Stage.History (c : Conn) (log : List Event) : Stage → Prop
  | .arriving => (∀ k, .handshake c k ∉ log) ∧ (∀ σ, .registered c σ ∉ log) ∧ .cleaned c ∉ log
  | .keyed k => .handshake c k ∈ log ∧ (∀ σ, .registered c σ ∉ log) ∧ .cleaned c ∉ log
  | .session σ => Live log c σ
  | .leaving username =>
    (∀ σ, .registered c σ ∈ log → username = some σ.name) ∧ .cleaned c ∉ log
  | .left => .cleaned c ∈ log

/-- Two logs tell the same story about the session of `c`. -/
structure SameSession (c : Conn) (log log' : List Event) : Prop where
  handshake : ∀ k, .handshake c k ∈ log ↔ .handshake c k ∈ log'
  registered : ∀ σ, .registered c σ ∈ log ↔ .registered c σ ∈ log'
  cleaned : .cleaned c ∈ log ↔ .cleaned c ∈ log'

theorem SameSession.live {c : Conn} {log log' : List Event} {σ : Session}
    (h : SameSession c log log') : Live log c σ ↔ Live log' c σ := by
  rw [Live, Live, h.registered σ, h.cleaned]

theorem SameSession.history {c : Conn} {log log' : List Event} {s : Stage}
    (h : SameSession c log log') : s.History c log ↔ s.History c log' := by
  cases s <;> simp only [Stage.History, h.live, h.handshake, h.registered, h.cleaned]

/-- Silent events change no story. -/
theorem same_silent {es : List Event} (hes : Silent es) (c : Conn) (log : List Event) :
    SameSession c (es ++ log) log := by
  have hmem : ∀ {e : Event}, e.IsSession → (e ∈ es ++ log ↔ e ∈ log) := by
    intro e he
    rw [List.mem_append]
    exact ⟨fun h => h.resolve_left fun h => hes e h he, .inr⟩
  exact ⟨fun k => hmem (by trivial), fun σ => hmem (by trivial), hmem (by trivial)⟩

/-- The connection a session event is about. -/
def Event.IsAbout (c : Conn) : Event → Prop
  | .handshake d _ | .registered d _ | .cleaned d => d = c
  | _ => False

/-- The events of one connection change no other's story. -/
theorem same_other {e : Event} {c d : Conn} (he : e.IsAbout c) (hne : d ≠ c)
    (log : List Event) : SameSession d ([e] ++ log) log := by
  have hmem : ∀ {e' : Event}, e'.IsAbout d → (e' ∈ [e] ++ log ↔ e' ∈ log) := by
    intro e' he'
    rw [List.singleton_append, List.mem_cons]
    refine ⟨fun h => h.resolve_left ?_, .inr⟩
    rintro rfl
    cases e' <;> simp only [Event.IsAbout] at he he' <;> exact hne (he'.symm.trans he)
  exact ⟨fun k => hmem rfl, fun σ => hmem rfl, hmem rfl⟩

theorem get_removeOwn {c : Conn} {username : Option Str} {clients : Dict Str Target} {u : Str}
    {t : Target} : Dict.get (removeOwn c username clients) u = some t ↔
      Dict.get clients u = some t ∧ ¬ (username = some u ∧ t.1 = c) := by
  rcases username with _ | v
  · simp [removeOwn]
  · rcases hv : Dict.get clients v with _ | t'
    · simp only [removeOwn, hv, Option.some.injEq]
      refine ⟨fun h => ⟨h, ?_⟩, And.left⟩
      rintro ⟨rfl, -⟩
      rw [hv] at h
      cases h
    · simp only [removeOwn, hv, Option.some.injEq]
      split_ifs with hc
      · -- the entry of `v` is the connection's own
        rw [Dict.get_erase]
        split_ifs with huv
        · subst huv
          rw [hv]
          simp only [Option.some.injEq, true_and, false_iff, not_and, not_not]
          rintro rfl
          exact hc
        · exact ⟨fun h => ⟨h, fun h' => huv h'.1.symm⟩, And.left⟩
      · refine ⟨fun h => ⟨h, ?_⟩, And.left⟩
        rintro ⟨rfl, ht⟩
        rw [hv] at h
        obtain rfl := Option.some.inj h
        exact hc ht

/-! ## The invariant -/

/-- Stages, table and history agree. -/
structure Sessions (stage : Conn → Stage) (clients : Dict Str Target) (log : List Event) :
    Prop where
  /-- every handler has the past its stage says -/
  history : ∀ c, (stage c).History c log
  /-- the table holds exactly the live sessions -/
  table : ∀ u c k, Dict.get clients u = some (c, k) ↔ Live log c ⟨k, u⟩
  /-- a handler obtains one key -/
  oneKey : ∀ c k k', .handshake c k ∈ log → .handshake c k' ∈ log → k = k'
  /-- a handler registers once -/
  once : ∀ c σ σ', .registered c σ ∈ log → .registered c σ' ∈ log → σ = σ'
  /-- with the key of its handshake -/
  keyed : ∀ c σ, .registered c σ ∈ log → .handshake c σ.key ∈ log

theorem sessions_start : Sessions (fun _ => .arriving) [] [] where
  history _ := ⟨fun _ => List.not_mem_nil, fun _ => List.not_mem_nil, List.not_mem_nil⟩
  table _ _ _ := Iff.intro (fun h => nomatch h) fun h => absurd h.1 List.not_mem_nil
  oneKey _ _ _ h _ := absurd h List.not_mem_nil
  once _ _ _ h _ := absurd h List.not_mem_nil
  keyed _ _ h := absurd h List.not_mem_nil

section Step

variable {stage : Conn → Stage} {clients clients' : Dict Str Target} {log es : List Event}
  {c : Conn} {s' : Stage}

/-- Only the handler that moved has a new past to account for. -/
theorem Sessions.history_update (h : Sessions stage clients log) (hself : s'.History c (es ++ log))
    (hother : ∀ d, d ≠ c → SameSession d (es ++ log) log) (d : Conn) :
    (Function.update stage c s' d).History d (es ++ log) := by
  by_cases hd : d = c
  · subst hd
    rwa [Function.update_self]
  · rw [Function.update_of_ne hd, (hother d hd).history]
    exact h.history d

/-- A step that is silent and leaves the table alone. -/
theorem Sessions.silent (h : Sessions stage clients log) (hes : Silent es)
    (hself : s'.History c log) : Sessions (Function.update stage c s') clients (es ++ log) where
  history := h.history_update ((same_silent hes c log).history.mpr hself)
    fun d _ => same_silent hes d log
  table u d k := by rw [h.table, (same_silent hes d log).live]
  oneKey d k k' h₁ h₂ := h.oneKey d k k' ((same_silent hes d log).handshake k |>.mp h₁)
    ((same_silent hes d log).handshake k' |>.mp h₂)
  once d σ σ' h₁ h₂ := h.once d σ σ' ((same_silent hes d log).registered σ |>.mp h₁)
    ((same_silent hes d log).registered σ' |>.mp h₂)
  keyed d σ h₁ := (same_silent hes d log).handshake σ.key |>.mpr
    (h.keyed d σ ((same_silent hes d log).registered σ |>.mp h₁))

/-- The key arrives: the first event of a session. -/
theorem Sessions.handshake (h : Sessions stage clients log) (hc : stage c = .arriving) (k : Key) :
    Sessions (Function.update stage c (.keyed k)) clients ([.handshake c k] ++ log) := by
  obtain ⟨hnokey, hnoreg, hnoclean⟩ : Stage.History c log .arriving := hc ▸ h.history c
  have hother : ∀ d, d ≠ c → SameSession d ([.handshake c k] ++ log) log :=
    fun d hd => same_other (e := .handshake c k) rfl hd log
  refine ⟨h.history_update ⟨?_, ?_, ?_⟩ hother, ?_, ?_, ?_, ?_⟩
  · exact List.mem_cons_self ..
  · simpa using hnoreg
  · simpa using hnoclean
  · intro u d k'
    rw [h.table]
    simp [Live]
  · intro d k₁ k₂ h₁ h₂
    simp only [List.singleton_append, List.mem_cons, Event.handshake.injEq] at h₁ h₂
    rcases h₁ with ⟨rfl, rfl⟩ | h₁ <;> rcases h₂ with ⟨hd, rfl⟩ | h₂
    · rfl
    · exact absurd h₂ (hnokey k₂)
    · rw [hd] at h₁
      exact absurd h₁ (hnokey k₁)
    · exact h.oneKey d k₁ k₂ h₁ h₂
  · simpa using h.once
  · intro d σ hreg
    exact List.mem_cons_of_mem _ (h.keyed d σ (by simpa using hreg))

/-- The registration: the name was free, so no other session has it. -/
theorem Sessions.register (h : Sessions stage clients log) {σ : Session}
    (hc : stage c = .keyed σ.key) (hfree : Dict.get clients σ.name = none) :
    Sessions (Function.update stage c (.session σ)) (Dict.set clients σ.name (c, σ.key))
      ([.registered c σ] ++ log) := by
  obtain ⟨hkey, hnoreg, hnoclean⟩ : Stage.History c log (.keyed σ.key) := hc ▸ h.history c
  have hlive : Live ([.registered c σ] ++ log) c σ :=
    ⟨List.mem_cons_self .., by simpa using hnoclean⟩
  have hother : ∀ d, d ≠ c → SameSession d ([.registered c σ] ++ log) log :=
    fun d hd => same_other (e := .registered c σ) rfl hd log
  refine ⟨h.history_update hlive hother, ?_, ?_, ?_, ?_⟩
  · intro u d k
    rw [Dict.get_set]
    by_cases hd : d = c
    · -- its own entry: this is its first registration
      subst hd
      have hiff : Live ([.registered d σ] ++ log) d ⟨k, u⟩ ↔ ⟨k, u⟩ = σ := by
        refine ⟨fun hl => ?_, fun he => he ▸ hlive⟩
        obtain hl | hl := List.mem_cons.mp hl.1
        · exact (Event.registered.inj hl).2
        · exact absurd hl (hnoreg _)
      rw [hiff]
      split_ifs with hu
      · subst hu
        simp only [Option.some.injEq, Prod.mk.injEq, true_and]
        exact ⟨fun hk => by rw [← hk], fun hσ => by rw [← hσ]⟩
      · refine ⟨fun hg => ?_, fun hσ => absurd (by rw [← hσ]) hu⟩
        exact absurd ((h.table u d k).mp hg).1 (hnoreg _)
    · -- another connection's: unchanged, and not under the new name
      rw [(hother d hd).live, ← h.table]
      split_ifs with hu
      · subst hu
        rw [hfree]
        simp only [Option.some.injEq, Prod.mk.injEq, reduceCtorEq, iff_false, not_and]
        exact fun he => absurd he.symm hd
      · rfl
  · simpa using h.oneKey
  · intro d σ₁ σ₂ h₁ h₂
    simp only [List.singleton_append, List.mem_cons, Event.registered.injEq] at h₁ h₂
    rcases h₁ with ⟨rfl, rfl⟩ | h₁ <;> rcases h₂ with ⟨hd, rfl⟩ | h₂
    · rfl
    · exact absurd h₂ (hnoreg σ₂)
    · rw [hd] at h₁
      exact absurd h₁ (hnoreg σ₁)
    · exact h.once d σ₁ σ₂ h₁ h₂
  · intro d σ₁ h₁
    simp only [List.singleton_append, List.mem_cons, Event.registered.injEq] at h₁
    refine List.mem_cons_of_mem _ ?_
    rcases h₁ with ⟨rfl, rfl⟩ | h₁
    · exact hkey
    · exact h.keyed d σ₁ h₁

/-- The cleanup: it removes the session of its own handler and no other. -/
theorem Sessions.cleanup (h : Sessions stage clients log) {username : Option Str}
    (hc : stage c = .leaving username) :
    Sessions (Function.update stage c .left) (removeOwn c username clients)
      ([.cleaned c] ++ log) := by
  obtain ⟨hname, hnoclean⟩ : Stage.History c log (.leaving username) := hc ▸ h.history c
  have hother : ∀ d, d ≠ c → SameSession d ([.cleaned c] ++ log) log :=
    fun d hd => same_other (e := .cleaned c) rfl hd log
  refine ⟨h.history_update (List.mem_cons_self ..) hother, ?_, ?_, ?_, ?_⟩
  · intro u d k
    rw [get_removeOwn]
    by_cases hd : d = c
    · subst hd
      refine ⟨fun hg => ?_, fun hl => absurd (List.mem_cons_self ..) hl.2⟩
      exact absurd ⟨hname _ ((h.table u d k).mp hg.1).1, rfl⟩ hg.2
    · rw [(hother d hd).live, ← h.table]
      exact ⟨And.left, fun hg => ⟨hg, fun hown => hd hown.2⟩⟩
  · simpa using h.oneKey
  · simpa using h.once
  · simpa using h.keyed

/-- **Every step of the session protocol keeps the agreement.** -/
theorem Sessions.step (h : Sessions stage clients log)
    (hm : StageMoves c clients (stage c) clients' s' es) :
    Sessions (Function.update stage c s') clients' (es ++ log) := by
  have hself := h.history c
  generalize hc : stage c = s at hm hself
  cases hm with
  | silent hes => exact h.silent hes hself
  | handshake k => exact h.handshake hc k
  | register σ hfree => exact h.register hc hfree
  | giveUp username hbefore hes =>
    refine h.silent hes ?_
    rcases hbefore with rfl | ⟨k, rfl⟩
    · exact ⟨fun σ hσ => absurd hσ (hself.2.1 σ), hself.2.2⟩
    · exact ⟨fun σ hσ => absurd hσ (hself.2.1 σ), hself.2.2⟩
  | leave σ =>
    refine h.silent silent_nil ⟨fun σ' hσ' => ?_, hself.2⟩
    rw [h.once c σ σ' hself.1 hσ']
  | cleanup username => exact h.cleanup hc

end Step

variable {printable : CodePoint → Bool}

/-- The stages of all handlers. -/
def stages (x : Config Conn Tables Phase Event) : Conn → Stage := fun c => (x.thread c).stage

theorem stages_after (x : Config Conn Tables Phase Event) (c : Conn)
    (m : Tables × Phase × List Event) :
    stages (after x c m) = Function.update (stages x) c m.2.1.stage := by
  funext d
  by_cases hd : d = c
  · subst hd
    rw [Function.update_self, stages, after_thread_self]
  · rw [Function.update_of_ne hd, stages, after_thread_ne x m hd, stages]

/-- **In every reachable state the table and the history agree.** -/
theorem sessions_reach {C : Config Conn Tables Phase Event → Conn × Input → Prop}
    {x : Config Conn Tables Phase Event} (h : (server printable).Reach C x) :
    Sessions (stages x) x.memory.clients x.log := by
  refine h.invariant (I := fun x => Sessions (stages x) x.memory.clients x.log) sessions_start ?_
  intro z c i m _ hz _ hm
  rw [stages_after]
  exact hz.step (server_moves hm).stage

/-- Only a handler that stands at the registration registers. -/
theorem Moves.registers {c d : Conn} {tb tb' : Tables} {ph ph' : Phase} {es : List Event}
    {σ : Session} (h : Moves printable c tb ph tb' ph' es) (hσ : .registered d σ ∈ es) :
    ph = .register σ := by
  cases h with
  | register σ' =>
    obtain ⟨⟩ := List.mem_singleton.mp hσ
    rfl
  | _ => simp [sendPayload] at hσ

/-- And it stands there with a valid name. -/
theorem Moves.goodName_of {c : Conn} {tb tb' : Tables} {ph : Phase} {es : List Event}
    {σ : Session} (h : Moves printable c tb ph tb' (.register σ) es) : SafeName 32 σ.name := by
  cases h with
  | goodName k u hsafe => exact hsafe

/-- **Every registered name is a valid username.** -/
theorem names_reach {C : Config Conn Tables Phase Event → Conn × Input → Prop}
    {x : Config Conn Tables Phase Event} (h : (server printable).Reach C x) :
    (∀ c σ, .registered c σ ∈ x.log → SafeName 32 σ.name) ∧
      ∀ c σ, x.thread c = .register σ → SafeName 32 σ.name := by
  refine h.invariant (I := fun x => (∀ c σ, .registered c σ ∈ x.log → SafeName 32 σ.name) ∧
    ∀ c σ, x.thread c = .register σ → SafeName 32 σ.name) ?_ ?_
  · exact ⟨fun c σ hσ => absurd hσ List.not_mem_nil, fun c σ hσ => nomatch hσ⟩
  · rintro z c i ⟨tb, ph, es⟩ - ⟨hlog, hphase⟩ - hm
    have hmoves := server_moves hm
    refine ⟨fun d σ hσ => ?_, fun d σ hσ => ?_⟩
    · rcases List.mem_append.mp hσ with hσ | hσ
      · exact hphase c σ (hmoves.registers hσ)
      · exact hlog d σ hσ
    · by_cases hd : d = c
      · subst hd
        rw [after_thread_self] at hσ
        obtain rfl : ph = .register σ := hσ
        exact hmoves.goodName_of
      · rw [after_thread_ne _ _ hd] at hσ
        exact hphase d σ hσ

/-- An entry belongs to a handler that is in its session, or on the way to the removal. -/
theorem Sessions.owner {stage : Conn → Stage} {clients : Dict Str Target} {log : List Event}
    (h : Sessions stage clients log) {u : Str} {t : Target}
    (ht : Dict.get clients u = some t) :
    stage t.1 = .session ⟨t.2, u⟩ ∨ stage t.1 = .leaving (some u) := by
  obtain ⟨c, k⟩ := t
  obtain ⟨hreg, hclean⟩ := (h.table u c k).mp ht
  have hpast := h.history c
  show stage c = _ ∨ stage c = _
  cases hs : stage c with
  | arriving | keyed k' =>
    rw [hs] at hpast
    exact absurd hreg (hpast.2.1 _)
  | session σ =>
    rw [hs] at hpast
    rw [h.once c _ _ hreg hpast.1]
    exact .inl rfl
  | leaving username =>
    rw [hs] at hpast
    rw [hpast.1 _ hreg]
    exact .inr rfl
  | left =>
    rw [hs] at hpast
    exact absurd hpast hclean

/-- A step of another handler leaves an entry as it is. -/
theorem StageMoves.keeps {clients clients' : Dict Str Target} {es : List Event} {d : Conn}
    {s s' : Stage} (hm : StageMoves d clients s clients' s' es) {u : Str} {t : Target}
    (ht : Dict.get clients u = some t) (hne : t.1 ≠ d) : Dict.get clients' u = some t := by
  cases hm with
  | silent | handshake | giveUp | leave => exact ht
  | register σ hfree =>
    have hu : u ≠ σ.name := by
      rintro rfl
      rw [hfree] at ht
      cases ht
    rw [Dict.get_set_ne _ _ hu]
    exact ht
  | cleanup username => exact get_removeOwn.mpr ⟨ht, fun hown => hne hown.2⟩

/-- **`clients` is the set of live sessions**, in every state of every interleaving. So a
name has at most one, a step of another connection neither replaces nor removes an entry,
and an entry is gone once its handler is past its cleanup. -/
theorem clients_iff_live {x : Config Conn Tables Phase Event} (h : (server printable).Reach Any x) :
    (∀ u c k, Dict.get x.memory.clients u = some (c, k) ↔ Live x.log c ⟨k, u⟩) ∧
      (∀ u c k c' k', Live x.log c ⟨k, u⟩ → Live x.log c' ⟨k', u⟩ → c = c' ∧ k = k') ∧
      (∀ d i y, (server printable).next x (d, i) = some y → ∀ u t,
        Dict.get x.memory.clients u = some t → t.1 ≠ d →
        Dict.get y.memory.clients u = some t) ∧
      ∀ u t, Dict.get x.memory.clients u = some t →
        stages x t.1 = .session ⟨t.2, u⟩ ∨ stages x t.1 = .leaving (some u) := by
  have hs := sessions_reach h
  refine ⟨hs.table, ?_, ?_, fun u t ht => hs.owner ht⟩
  · intro u c k c' k' h₁ h₂
    have he := (hs.table u c k).mpr h₁
    rw [(hs.table u c' k').mpr h₂] at he
    obtain ⟨rfl, rfl⟩ := Prod.mk.inj (Option.some.inj he)
    exact ⟨rfl, rfl⟩
  · intro d i y hy u t ht hne
    obtain ⟨m, hm, rfl⟩ := next_eq_some hy
    exact (server_moves hm).stage.keeps ht hne

/-- A key of 128 bits. -/
def demoKey : Key := List.replicate 16 0

/-- A connection is accepted and sends its key and a name. -/
def arrive (c : Conn) (name : Str) : List (Conn × Input) :=
  [(c, .accept), (c, .key (some demoKey)), (c, .name (some name))]

/-- It registers next to `others` clients, everybody is told, and it enters its frame loop. -/
def join (c : Conn) (name : Str) (others : ℕ) : List (Conn × Input) :=
  arrive c name ++ [(c, .run), (c, .run), (c, .sent true), (c, .run)] ++
    List.replicate (others + 1) (c, .sent true) ++ [(c, .run)]

/-- No frame is read. -/
def Input.isQuiet : Input → Bool
  | .frame _ _ => false
  | _ => true

theorem Input.not_frame_of_isQuiet {i : Input} (h : i.isQuiet = true) (o : Payload) (now : Str) :
    i ≠ .frame o now := by
  rintro rfl
  cases h

/-- Alice is at her frame loop. -/
def Phase.isAliceLoop : Phase → Bool
  | .loop σ => decide (σ = ⟨demoKey, str "alice"⟩)
  | _ => false

theorem Phase.eq_loop_of_isAliceLoop {ph : Phase} (h : ph.isAliceLoop = true) :
    ph = .loop ⟨demoKey, str "alice"⟩ := by
  cases ph with
  | loop σ => exact congrArg Phase.loop (of_decide_eq_true h)
  | _ => cases h

/-- Two connections ask for one name: the second is refused and cleans up after itself,
and the first keeps its entry. -/
theorem clients_iff_live_duplicate :
    ∃ x, (server fun _ => true).Reach Any x ∧ .cleaned 1 ∈ x.log ∧
      Live x.log 0 ⟨demoKey, str "alice"⟩ := by
  obtain ⟨x, hx, hp⟩ := exists_reach_of_exec (P := server fun _ => true)
    (arrive 0 (str "alice") ++ arrive 1 (str "alice") ++
      [(0, .run), (1, .sent true), (1, .run)])
    (p := fun x => decide (Dict.get x.memory.clients (str "alice") = some (0, demoKey)) &&
      x.log.any fun | .cleaned c => c = 1 | _ => false) (by decide +kernel)
  rw [Bool.and_eq_true, List.any_eq_true] at hp
  obtain ⟨hget, e, he, hcleaned⟩ := hp
  refine ⟨x, hx, ?_, ((clients_iff_live hx).1 _ _ _).mp (of_decide_eq_true hget)⟩
  cases e <;> simp only [Bool.false_eq_true, decide_eq_true_eq] at hcleaned
  exact hcleaned ▸ he

end GuardedIM
