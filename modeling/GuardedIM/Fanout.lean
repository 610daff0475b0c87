import Mathlib.Data.List.Lex
import Mathlib.Order.Fin.Basic
import GuardedIM.Routing

/-!
# The loops over a group

`create_group`, `group_message` and group files send to the members one after the other:
look the member up, send if it is somebody else and connected. An exception of a send ends
the whole loop, since the only handler is outside it.

* `visits` is what such a loop reports for the members it got through, and
  `Phase.Progress` says that the history since the request is exactly that.
* `complete_iff_noneCutOff`: when a loop is left, everybody who could be reached got one
  copy if and only if no failing member came before somebody who could be reached.
-/

namespace GuardedIM

open Interleave Interleave.Program

/-! ## Member lists -/

theorem insertName_sorted {u : Str} {l : List Str} (h : l.Pairwise (· < ·)) :
    (insertName u l).Pairwise (· < ·) := by
  induction l with
  | nil => exact List.pairwise_singleton _ _
  | cons v l ih =>
    obtain ⟨hv, hl⟩ := List.pairwise_cons.mp h
    rw [insertName]
    split_ifs with h₁ h₂
    · exact h
    · refine List.pairwise_cons.mpr ⟨fun w hw => ?_, h⟩
      rcases List.mem_cons.mp hw with rfl | hw
      · exact h₂
      · exact lt_trans h₂ (hv w hw)
    · have hlt : v < u := lt_of_le_of_ne (le_of_not_gt h₂) (Ne.symm h₁)
      refine List.pairwise_cons.mpr ⟨fun w hw => ?_, ih hl⟩
      rcases mem_insertName.mp hw with rfl | hw
      · exact hlt
      · exact hv w hw

/-- `sorted(set(l))` is strictly sorted. -/
theorem sortedSet_sorted (l : List Str) : (sortedSet l).Pairwise (· < ·) := by
  induction l with
  | nil => exact List.Pairwise.nil
  | cons v l ih => exact insertName_sorted ih

variable {printable : CodePoint → Bool} {c : Conn} {tb tb' : Tables} {ph ph' : Phase}
  {es log : List Event} {σ : Session} {p : Payload}

/-- **Stored member lists are sorted and have no duplicates.** -/
theorem stored_sorted {C : Config Conn Tables Phase Event → Conn × Input → Prop}
    {x : Config Conn Tables Phase Event} (h : (server printable).Reach C x) :
    ∀ g ms, Stored x.log g ms → ms.Pairwise (· < ·) := by
  refine h.invariant (I := fun x => ∀ g ms, Stored x.log g ms → ms.Pairwise (· < ·)) ?_ ?_
  · rintro g ms ⟨d, hd⟩
    exact absurd hd List.not_mem_nil
  · rintro z d i ⟨tb, ph, es⟩ hreach hz - hm g ms ⟨d', hd'⟩
    have hmoves := server_moves hm
    rcases List.mem_append.mp hd' with hd' | hd'
    · have hreq := request_reach hreach d
      generalize z.thread d = ph₀ at hmoves hreq
      cases hmoves with
      | create σ g' ms' _ =>
        obtain ⟨⟩ := List.mem_singleton.mp hd'
        rcases hreq with ⟨q, hq, -⟩ | ⟨o, now, -, hp⟩
        · cases hq
        · cases hp
          exact sortedSet_sorted _
      | _ => simp [sendPayload] at hd'
    · exact hz g ms ⟨d', hd'⟩

/-! ## What a loop reports -/

/-- A text that names a group: a new one, or one to send to. -/
def GroupRequest (printable : CodePoint → Bool) (o : Payload) (g : Str) : Prop :=
  (o.find (str "type") = .str (str "create_group") ∧ o.find (str "group_name") = .str g) ∨
    ToGroup printable o g

/-- A frame was read. -/
def Event.isFrame : Event → Bool
  | .frame _ _ => true
  | _ => false

/-- What the handler of `c` reported since it read its current request, newest first. -/
def recent (c : Conn) (log : List Event) : List Event :=
  (log.filter fun e => e.conn = c).takeWhile fun e => !e.isFrame

/-- One turn of a loop over members: the lookup, and the send if there is one. -/
def visit (c : Conn) (σ : Session) (p : Payload) : Str × Option Target → List Event
  | (m, some t) =>
    if m = σ.name then [.looked c m (some t)] else [.wrote c t p true, .looked c m (some t)]
  | (m, none) => [.looked c m none]

/-- All turns so far, newest first. -/
def visits (c : Conn) (σ : Session) (p : Payload) (turns : List (Str × Option Target)) :
    List Event :=
  turns.reverse.flatMap (visit c σ p)

theorem visits_snoc (turns : List (Str × Option Target)) (turn : Str × Option Target) :
    visits c σ p (turns ++ [turn]) = visit c σ p turn ++ visits c σ p turns := by
  simp [visits]

theorem recent_cons {e : Event} (hc : e.conn = c) (he : e.isFrame = false) :
    recent c (e :: log) = e :: recent c log := by
  simp [recent, hc, he]

theorem recent_frame (o : Payload) : recent c (.frame c o :: log) = [] := by
  simp [recent, Event.conn, Event.isFrame]

theorem recent_other (hes : ∀ e ∈ es, e.conn ≠ c) : recent c (es ++ log) = recent c log := by
  have hnil : es.filter (fun e => decide (e.conn = c)) = [] := by
    rw [List.filter_eq_nil_iff]
    exact fun e he => by simpa using hes e he
  rw [recent, List.filter_append, hnil, List.nil_append, recent]

/-- The loop of the handler of `c` over the members `full` has come to `todo`, and `last`
is what it reported since the last turn it completed. -/
def Looping (printable : CodePoint → Bool) (c : Conn) (log : List Event) (σ : Session)
    (p : Payload) (last : List Event) (todo : List Str) : Prop :=
  ∃ o g full start turns, current log c = some o ∧ GroupRequest printable o g ∧
    Stored log g full ∧ σ.name ∈ full ∧ full = turns.map Prod.fst ++ todo ∧
    (∀ e ∈ start, ∃ g' ms', e = .grouped c g' ms') ∧
    recent c log = last ++ (visits c σ p turns ++ start)

/-- How far the handler of `c` has come with its current request. -/
def Phase.Progress (printable : CodePoint → Bool) (c : Conn) (log : List Event) : Phase → Prop
  | .act _ a => (∃ q, a = .reply q) ∨ recent c log = []
  | .cast σ todo p _ => Looping printable c log σ p [] todo
  | .castTo σ t todo p _ => ∃ m, m ≠ σ.name ∧
      Looping printable c log σ p [.looked c m (some t)] (m :: todo)
  | _ => True

theorem Looping.append {last : List Event} {todo : List Str}
    (h : Looping printable c log σ p last todo) (hes : ∀ e ∈ es, e.conn ≠ c) :
    Looping printable c (es ++ log) σ p last todo := by
  obtain ⟨o, g, full, start, turns, ho, hg, hfull, hσ, hsplit, hstart, hrecent⟩ := h
  refine ⟨o, g, full, start, turns, ?_, hg, hfull.append es, hσ, hsplit, hstart, ?_⟩
  · rw [current_append, ho]
    intro e he
    cases e with
    | frame d o' => exact if_neg (hes _ he)
    | _ => rfl
  · rw [recent_other hes, hrecent]

theorem Phase.Progress.append (h : ph.Progress printable c log) (hes : ∀ e ∈ es, e.conn ≠ c) :
    ph.Progress printable c (es ++ log) := by
  cases ph with
  | act σ a => exact h.imp_right fun h => by rw [recent_other hes, h]
  | cast σ todo p ack => exact Looping.append h hes
  | castTo σ t todo p ack =>
    obtain ⟨m, hm, h⟩ := h
    exact ⟨m, hm, h.append hes⟩
  | _ => trivial

/-- A turn that ends moves its member to the turns completed. -/
theorem Looping.turn {m : Str} {r : Option Target} {last : List Event} {todo : List Str}
    (h : Looping printable c log σ p last (m :: todo)) {e : Event} (hc : e.conn = c)
    (he : e.isFrame = false) (hvisit : e :: last = visit c σ p (m, r)) :
    Looping printable c ([e] ++ log) σ p [] todo := by
  obtain ⟨o, g, full, start, turns, ho, hg, hfull, hσ, hsplit, hstart, hrecent⟩ := h
  refine ⟨o, g, full, start, turns ++ [(m, r)], ?_, hg, hfull.append _, hσ, ?_, hstart, ?_⟩
  · rw [current_append, ho]
    intro e' he'
    obtain rfl := List.mem_singleton.mp he'
    cases e' with
    | frame => cases he
    | _ => rfl
  · rw [hsplit]
    simp
  · rw [List.singleton_append, recent_cons hc he, hrecent, visits_snoc, ← hvisit]
    simp

theorem Moves.progress (h : Moves printable c tb ph tb' ph' es)
    (hreq : ph.Request printable c log) (hph : ph.Progress printable c log)
    (hstored : ∀ g ms, Dict.get tb.groups g = some ms → Stored log g ms) :
    ph'.Progress printable c (es ++ log) := by
  cases h with
  | request σ o now a ha => exact .inr (recent_frame o)
  | groupExists | notMember | castAck => exact .inl ⟨_, rfl⟩
  | create σ g ms hfree =>
    obtain ⟨_, ⟨⟩⟩ | hnone := hph
    obtain ⟨_, ⟨⟩, -⟩ | ⟨o, now, ho, hp⟩ := hreq
    refine ⟨o, g, ms, [.grouped c g ms], [], ?_, ?_, ⟨c, List.mem_cons_self ..⟩, ?_, rfl, ?_, ?_⟩
    · rw [current_append (by simp [Event.request]), ho]
    · cases hp with
      | create ht hg => exact .inl ⟨ht, hg⟩
    · cases hp
      exact mem_sortedSet.mpr (by simp)
    · intro e he
      exact ⟨g, ms, List.mem_singleton.mp he⟩
    · rw [List.singleton_append, recent_cons (c := c) (e := .grouped c g ms) rfl rfl, hnone]
      rfl
  | fanOut σ g p ms hg hσ =>
    obtain ⟨_, ⟨⟩⟩ | hnone := hph
    obtain ⟨_, ⟨⟩, -⟩ | ⟨o, now, ho, hp⟩ := hreq
    exact ⟨o, g, ms, [], [], ho, .inr hp.toGroup, hstored g ms hg, hσ, rfl, List.forall_mem_nil _,
      hnone⟩
  | member σ m todo p ack t ht hm =>
    obtain ⟨o, g, full, start, turns, ho, hg, hfull, hσ, hsplit, hstart, hrecent⟩ := hph
    refine ⟨m, hm, o, g, full, start, turns, ?_, hg, hfull.append _, hσ, hsplit, hstart, ?_⟩
    · rw [current_append (by simp [Event.request]), ho]
    · rw [List.singleton_append, recent_cons (c := c) (e := .looked c m (some t)) rfl rfl, hrecent]
      rfl
  | skip σ m todo p ack hskip =>
    refine Looping.turn (r := Dict.get tb.clients m) hph rfl rfl ?_
    rcases hg : Dict.get tb.clients m with _ | t
    · rfl
    · rw [hg] at hskip
      rw [visit, if_pos (hskip.resolve_right (Option.some_ne_none t))]
  | castSent σ t todo p ack hkey =>
    obtain ⟨m, hm, hph⟩ := hph
    refine Looping.turn (r := some t) hph rfl rfl ?_
    rw [visit, if_neg hm]
  | _ => trivial

/-- **The history of every loop is the turns it made.** -/
theorem progress_reach {C : Config Conn Tables Phase Event → Conn × Input → Prop}
    {x : Config Conn Tables Phase Event} (h : (server printable).Reach C x) :
    ∀ c, (x.thread c).Progress printable c x.log := by
  refine h.invariant (I := fun x => ∀ c, (x.thread c).Progress printable c x.log)
    (fun c => trivial) ?_
  rintro z c i ⟨tb, ph, es⟩ hreach hz - hm d
  have hmoves := server_moves hm
  by_cases hd : d = c
  · subst hd
    rw [after_thread_self]
    exact hmoves.progress (request_reach hreach d) (hz d)
      fun g ms hg => (groups_reach hreach g ms).mp hg
  · rw [after_thread_ne _ _ hd]
    exact (hz d).append fun e he => (hmoves.conn e he).trans_ne (Ne.symm hd)

/-! ## Who got a copy -/

/-- The copies that arrived at `t`. -/
def copies (t : Target) (events : List Event) : ℕ :=
  events.countP fun
    | .wrote _ t' _ ok => t' = t && ok
    | _ => false

/-- What the loop found when it looked up `m`, or, when it was left before it came to `m`,
what it would have found at that moment. -/
def Seen (c : Conn) (events : List Event) (clients : Dict Str Target) (m : Str)
    (r : Option Target) : Prop :=
  .looked c m r ∈ events ∨ (∀ r', .looked c m r' ∉ events) ∧ Dict.get clients m = r

/-- Every other member who was there and accepts the write has one copy. -/
def Complete (c : Conn) (σ : Session) (full : List Str) (events : List Event)
    (clients : Dict Str Target) (accepts : Target → Bool) : Prop :=
  ∀ m ∈ full, m ≠ σ.name → ∀ t, Seen c events clients m (some t) → accepts t = true →
    copies t events = 1

/-- Behind a member who was there and fails, nobody was there who accepts the write. -/
def NoneCutOff (c : Conn) (σ : Session) (full : List Str) (events : List Event)
    (clients : Dict Str Target) (accepts : Target → Bool) : Prop :=
  ∀ before m behind, full = before ++ m :: behind → m ≠ σ.name →
    ∀ t, Seen c events clients m (some t) → accepts t = false →
    ∀ m' ∈ behind, m' ≠ σ.name → ∀ t', Seen c events clients m' (some t') → accepts t' = false

/-- The turns a loop made, and the members it did not come to, with what it reported: it
went through all of them, or the first of `todo` raised. -/
structure Left (c : Conn) (σ : Session) (p : Payload) (full : List Str) (events : List Event)
    (turns : List (Str × Option Target)) (todo : List Str) (start : List Event) : Prop where
  /-- the members in order -/
  split : full = turns.map Prod.fst ++ todo
  /-- the events before the first turn -/
  quiet : ∀ e ∈ start, ∃ g ms, e = .grouped c g ms
  /-- the events of the loop -/
  reported : (todo = [] ∧ events = visits c σ p turns ++ start) ∨
    ∃ m t rest, m ≠ σ.name ∧ todo = m :: rest ∧
      events = [.wrote c t p false, .looked c m (some t)] ++ (visits c σ p turns ++ start)

theorem looked_mem_visits {turns : List (Str × Option Target)} {m : Str} {r : Option Target} :
    .looked c m r ∈ visits c σ p turns ↔ (m, r) ∈ turns := by
  have hone : ∀ turn, .looked c m r ∈ visit c σ p turn ↔ (m, r) = turn := by
    rintro ⟨m', _ | t⟩
    · simp [visit]
    · rw [visit]
      split_ifs <;> simp
  simp only [visits, List.mem_flatMap, List.mem_reverse, hone]
  exact ⟨fun ⟨turn, h, he⟩ => he ▸ h, fun h => ⟨_, h, rfl⟩⟩

theorem wrote_mem_visits {turns : List (Str × Option Target)} {d : Conn} {t : Target}
    {q : Payload} {ok : Bool} : .wrote d t q ok ∈ visits c σ p turns ↔
      d = c ∧ q = p ∧ ok = true ∧ ∃ m, m ≠ σ.name ∧ (m, some t) ∈ turns := by
  have hone : ∀ turn, .wrote d t q ok ∈ visit c σ p turn ↔
      d = c ∧ q = p ∧ ok = true ∧ ∃ m, m ≠ σ.name ∧ (m, some t) = turn := by
    rintro ⟨m', _ | t'⟩
    · simp [visit]
    · rw [visit]
      split_ifs with h
      · simp only [List.mem_singleton, reduceCtorEq, false_iff]
        rintro ⟨-, -, -, m, hm, he⟩
        exact hm ((Prod.mk.inj he).1.trans h)
      · simp only [List.mem_cons, Event.wrote.injEq, reduceCtorEq, List.not_mem_nil, or_false,
          Prod.mk.injEq, Option.some.injEq]
        refine ⟨fun ⟨hd, ht, hq, hok⟩ => ⟨hd, hq, hok, m', h, rfl, ht⟩, ?_⟩
        rintro ⟨hd, hq, hok, m, -, -, ht⟩
        exact ⟨hd, ht, hq, hok⟩
  simp only [visits, List.mem_flatMap, List.mem_reverse, hone]
  refine ⟨?_, ?_⟩
  · rintro ⟨turn, hturn, hd, hq, hok, m, hm, rfl⟩
    exact ⟨hd, hq, hok, m, hm, hturn⟩
  · rintro ⟨hd, hq, hok, m, hm, hturn⟩
    exact ⟨_, hturn, hd, hq, hok, m, hm, rfl⟩

theorem copies_append (t : Target) (l₁ l₂ : List Event) :
    copies t (l₁ ++ l₂) = copies t l₁ + copies t l₂ := List.countP_append

theorem copies_eq_zero {t : Target} {events : List Event}
    (h : ∀ d q, .wrote d t q true ∉ events) : copies t events = 0 := by
  rw [copies, List.countP_eq_zero]
  intro e he hcopy
  cases e with
  | wrote d t' q ok =>
    simp only [Bool.and_eq_true, decide_eq_true_eq] at hcopy
    obtain ⟨rfl, rfl⟩ := hcopy
    exact h d q he
  | _ => cases hcopy

/-- A member's copy is the only one at its connection. -/
theorem copies_visits {turns : List (Str × Option Target)} {m : Str} {t : Target}
    (hnodup : (turns.map Prod.fst).Nodup) (hm : m ≠ σ.name) (hmem : (m, some t) ∈ turns)
    (huniq : ∀ m', (m', some t) ∈ turns → m' = m) : copies t (visits c σ p turns) = 1 := by
  induction turns using List.reverseRecOn with
  | nil => cases hmem
  | append_singleton turns turn ih =>
    rw [visits_snoc, copies_append]
    rw [List.map_append, List.nodup_append] at hnodup
    obtain ⟨hnodup, -, hdisj⟩ := hnodup
    rcases List.mem_append.mp hmem with hmem | hmem
    · -- sent before: the last turn is somebody else's
      have hturn : copies t (visit c σ p turn) = 0 := by
        refine copies_eq_zero fun d q hw => ?_
        have hv : .wrote d t q true ∈ visits c σ p [turn] := by simpa [visits] using hw
        obtain ⟨-, -, -, m', -, hm'⟩ := wrote_mem_visits.mp hv
        have he := huniq m' (List.mem_append_right _ hm')
        refine hdisj m (List.mem_map.mpr ⟨_, hmem, rfl⟩) m ?_ rfl
        exact List.mem_map.mpr ⟨_, hm', he⟩
      rw [hturn, ih hnodup hmem fun m' hm' => huniq m' (List.mem_append_left _ hm')]
    · -- sent in the last turn, and not before
      obtain rfl := List.mem_singleton.mp hmem
      have hbefore : copies t (visits c σ p turns) = 0 := by
        refine copies_eq_zero fun d q hw => ?_
        obtain ⟨-, -, -, m', -, hm'⟩ := wrote_mem_visits.mp hw
        have he := huniq m' (List.mem_append_left _ hm')
        exact hdisj m (List.mem_map.mpr ⟨_, hm', he⟩) m (List.mem_singleton_self _) rfl
      rw [hbefore, visit, if_neg hm]
      simp [copies]

section Leaving

variable {full todo : List Str} {events start : List Event} {turns : List (Str × Option Target)}
  {clients : Dict Str Target} {accepts : Target → Bool}

theorem Left.looked_iff (h : Left c σ p full events turns todo start) {m : Str}
    {r : Option Target} : .looked c m r ∈ events ↔ (m, r) ∈ turns ∨
      ∃ t rest, todo = m :: rest ∧ r = some t ∧ .wrote c t p false ∈ events := by
  have hstart : ∀ {m r}, .looked c m r ∉ start := by
    intro m r hmem
    obtain ⟨g, ms, hg⟩ := h.quiet _ hmem
    cases hg
  rcases h.reported with ⟨rfl, rfl⟩ | ⟨m', t, rest, hm', rfl, rfl⟩
  · simp [looked_mem_visits, hstart]
  · simp only [List.mem_append, List.mem_cons, reduceCtorEq, Event.looked.injEq, true_and,
      List.not_mem_nil, or_false, false_or, looked_mem_visits, hstart, List.cons.injEq,
      Event.wrote.injEq, and_true, wrote_mem_visits, Bool.false_eq_true, false_and, and_false]
    refine ⟨?_, ?_⟩
    · rintro (⟨rfl, rfl⟩ | hmem)
      · exact .inr ⟨t, rest, ⟨rfl, rfl⟩, rfl, .inl rfl⟩
      · exact .inl hmem
    · rintro (hmem | ⟨t', rest', ⟨rfl, rfl⟩, rfl, hw⟩)
      · exact .inr hmem
      · rcases hw with rfl | hw
        · exact .inl ⟨rfl, rfl⟩
        · obtain ⟨g, ms, hg⟩ := h.quiet _ hw
          cases hg

theorem Left.wrote_true (h : Left c σ p full events turns todo start) {d : Conn} {t : Target}
    {q : Payload} : .wrote d t q true ∈ events ↔
      d = c ∧ q = p ∧ ∃ m, m ≠ σ.name ∧ (m, some t) ∈ turns := by
  have hstart : .wrote d t q true ∉ start := by
    intro hmem
    obtain ⟨g, ms, hg⟩ := h.quiet _ hmem
    cases hg
  rcases h.reported with ⟨-, rfl⟩ | ⟨m', t', rest, -, -, rfl⟩ <;>
    simp [wrote_mem_visits, hstart]

/-- A member the loop went past is seen as it was looked up. -/
theorem Left.seen_turn (h : Left c σ p full events turns todo start) (hnodup : full.Nodup)
    {m : Str} {r : Option Target} (hm : m ∈ turns.map Prod.fst)
    (hseen : Seen c events clients m r) : (m, r) ∈ turns := by
  rw [h.split, List.nodup_append] at hnodup
  rcases hseen with hlooked | ⟨hnot, -⟩
  · rcases h.looked_iff.mp hlooked with hmem | ⟨t, rest, htodo, -, -⟩
    · exact hmem
    · exact absurd rfl (hnodup.2.2 m hm m (htodo ▸ List.mem_cons_self ..))
  · obtain ⟨⟨m', r'⟩, hmem, rfl⟩ := List.mem_map.mp hm
    exact absurd (h.looked_iff.mpr (.inl hmem)) (hnot r')

/-- Everybody who was there has a copy, exactly when nobody the loop did not come to, or
failed at, accepts the write. -/
theorem Left.complete_iff (h : Left c σ p full events turns todo start) (hnodup : full.Nodup)
    (huniq : ∀ m m' t, Seen c events clients m (some t) → Seen c events clients m' (some t) →
      m = m') :
    Complete c σ full events clients accepts ↔ ∀ m ∈ todo, m ≠ σ.name →
      ∀ t, Seen c events clients m (some t) → accepts t = false := by
  have hturns : (turns.map Prod.fst).Nodup := by
    rw [h.split] at hnodup
    exact (List.nodup_append.mp hnodup).1
  have hseen : ∀ {m r}, (m, r) ∈ turns → Seen c events clients m r :=
    fun hmem => .inl (h.looked_iff.mpr (.inl hmem))
  have hcopies : ∀ {m t}, m ≠ σ.name → (m, some t) ∈ turns → copies t events = 1 := by
    intro m t hm hmem
    have hstart : copies t start = 0 := by
      refine copies_eq_zero fun d q hw => ?_
      obtain ⟨g, ms, hg⟩ := h.quiet _ hw
      cases hg
    have hvisits := copies_visits (c := c) (p := p) hturns hm hmem
      fun m' hm' => huniq m' m t (hseen hm') (hseen hmem)
    rcases h.reported with ⟨-, rfl⟩ | ⟨m', t', rest, -, -, rfl⟩
    · rw [copies_append, hvisits, hstart]
    · rw [copies_append, copies_append, hvisits, hstart]
      simp [copies]
  refine ⟨fun hall m hm hne t ht => ?_, fun hlost m hm hne t ht hacc => ?_⟩
  · -- a copy at `t` would make `m` one of the members before
    by_contra hacc
    have hone := hall m (h.split ▸ List.mem_append_right _ hm) hne t ht
      (Bool.not_eq_false _ ▸ hacc)
    have hzero : copies t events = 0 := by
      refine copies_eq_zero fun d q hw => ?_
      obtain ⟨-, -, m', -, hm'⟩ := h.wrote_true.mp hw
      obtain rfl := huniq m' m t (hseen hm') ht
      rw [h.split, List.nodup_append] at hnodup
      exact hnodup.2.2 m' (List.mem_map.mpr ⟨_, hm', rfl⟩) m' hm rfl
    omega
  · rw [h.split] at hm
    rcases List.mem_append.mp hm with hm | hm
    · exact hcopies hne (h.seen_turn hnodup hm ht)
    · rw [hlost m hm hne t ht] at hacc
      cases hacc

/-- The same condition without the loop: nobody was cut off. -/
theorem Left.noneCutOff_iff (h : Left c σ p full events turns todo start) (hnodup : full.Nodup)
    (hacc : ∀ t ok, .wrote c t p ok ∈ events → ok = accepts t) :
    NoneCutOff c σ full events clients accepts ↔ ∀ m ∈ todo, m ≠ σ.name →
      ∀ t, Seen c events clients m (some t) → accepts t = false := by
  refine ⟨fun hnone m hm hne t ht => ?_, fun hlost before m behind hsplit hne t ht hfails
    m' hm' hne' t' ht' => ?_⟩
  · rcases h.reported with ⟨rfl, -⟩ | ⟨m₀, t₀, rest, hm₀, rfl, hevents⟩
    · cases hm
    · -- the loop was left at `m₀`, and everybody else in `todo` is behind it
      have hwrote : .wrote c t₀ p false ∈ events := hevents ▸ List.mem_cons_self ..
      have hlooked : .looked c m₀ (some t₀) ∈ events := by
        rw [hevents]
        exact List.mem_cons_of_mem _ (List.mem_cons_self ..)
      rcases List.mem_cons.mp hm with rfl | hm
      · rcases ht with ht | ⟨hnot, -⟩
        · rcases h.looked_iff.mp ht with hmem | ⟨t₁, rest₁, -, hr, hw⟩
          · rw [h.split, List.nodup_append] at hnodup
            exact absurd rfl (hnodup.2.2 m (List.mem_map.mpr ⟨_, hmem, rfl⟩) m
              (List.mem_cons_self ..))
          · obtain rfl := Option.some.inj hr
            exact (hacc t false hw).symm
        · exact absurd hlooked (hnot _)
      · exact hnone (turns.map Prod.fst) m₀ rest h.split hm₀ t₀ (.inl hlooked)
          (hacc t₀ false hwrote).symm m hm hne t ht
  · have hmem : m' ∈ turns.map Prod.fst ++ todo := by
      rw [← h.split, hsplit]
      exact List.mem_append_right _ (List.mem_cons_of_mem _ hm')
    rcases List.mem_append.mp hmem with hturn' | htodo
    · -- a member in front of `m'` was sent its copy, so it does not fail
      have hturn : m ∈ turns.map Prod.fst := by
        rw [hsplit] at hnodup
        rcases List.append_eq_append_iff.mp (h.split.symm.trans hsplit) with
          ⟨l, hbefore, -⟩ | ⟨l, hturns, htail⟩
        · rw [hbefore] at hnodup
          exact absurd rfl ((List.nodup_append.mp hnodup).2.2 m'
            (List.mem_append_left _ hturn') m' (List.mem_cons_of_mem _ hm'))
        · rcases l with _ | ⟨m₁, l⟩
          · rw [List.append_nil] at hturns
            rw [hturns] at hturn'
            exact absurd rfl ((List.nodup_append.mp hnodup).2.2 m' hturn' m'
              (List.mem_cons_of_mem _ hm'))
          · obtain ⟨rfl, -⟩ := List.cons.inj htail
            rw [hturns]
            exact List.mem_append_right _ (List.mem_cons_self ..)
      have hwrote := h.wrote_true.mpr ⟨rfl, rfl, m, hne, h.seen_turn hnodup hturn ht⟩
      rw [← hacc t true hwrote] at hfails
      cases hfails
    · exact hlost m' htodo hne' t' ht'

end Leaving

/-! ## The loops of the server -/

/-- The handler is in a loop that sends `p`. -/
def InLoop (σ : Session) (p : Payload) (ph : Phase) : Prop :=
  (∃ ms ack, ph = .cast σ ms p ack) ∨ ∃ t ms ack, ph = .castTo σ t ms p ack

/-- The step that leaves a loop accounts for all members. -/
theorem Moves.leaves (h : Moves printable c tb ph tb' ph' es) (hph : ph.Progress printable c log)
    (hin : InLoop σ p ph) (hout : ¬ InLoop σ p ph') : ∃ o g full turns todo start,
      current log c = some o ∧ GroupRequest printable o g ∧ Stored log g full ∧ σ.name ∈ full ∧
      Left c σ p full (recent c (es ++ log)) turns todo start := by
  rcases hin with ⟨ms, ack, rfl⟩ | ⟨t, ms, ack, rfl⟩
  · cases h with
    | member => exact absurd (.inr ⟨_, _, _, rfl⟩) hout
    | skip => exact absurd (.inl ⟨_, _, rfl⟩) hout
    | castEnd | castAck =>
      obtain ⟨o, g, full, start, turns, ho, hg, hfull, hσ, hsplit, hstart, hrecent⟩ := hph
      exact ⟨o, g, full, turns, [], start, ho, hg, hfull, hσ, hsplit, hstart, .inl ⟨rfl, hrecent⟩⟩
  · obtain ⟨m, hm, o, g, full, start, turns, ho, hg, hfull, hσ, hsplit, hstart, hrecent⟩ := hph
    cases h with
    | castSent => exact absurd (.inl ⟨_, _, rfl⟩) hout
    | castFailed =>
      refine ⟨o, g, full, turns, m :: ms, start, ho, hg, hfull, hσ, hsplit, hstart,
        .inr ⟨m, t, ms, hm, rfl, ?_⟩⟩
      rw [List.singleton_append, recent_cons (c := c) (e := .wrote c t p false) rfl rfl, hrecent]
      rfl

/-- Whatever a lookup finds has registered. -/
theorem looked_reach {C : Config Conn Tables Phase Event → Conn × Input → Prop}
    {x : Config Conn Tables Phase Event} (h : (server printable).Reach C x) :
    ∀ d u t, .looked d u (some t) ∈ x.log → .registered t.1 ⟨t.2, u⟩ ∈ x.log := by
  refine h.invariant (I := fun x => ∀ d u t, .looked d u (some t) ∈ x.log →
    .registered t.1 ⟨t.2, u⟩ ∈ x.log) (fun d u t ht => absurd ht List.not_mem_nil) ?_
  rintro z d i ⟨tb, ph, es⟩ hreach hz - hm d' u t ht
  refine List.mem_append_right _ ?_
  rcases List.mem_append.mp ht with ht | ht
  · have hmoves := server_moves hm
    have hlive : ∀ {u t}, Dict.get z.memory.clients u = some t →
        .registered t.1 ⟨t.2, u⟩ ∈ z.log := by
      intro u t hu
      exact (((sessions_reach hreach).table u t.1 t.2).mp hu).1
    generalize z.thread d = ph₀ at hmoves
    cases hmoves with
    | found σ v p t' ht' | member σ v ms p ack t' ht' _ =>
      obtain ⟨⟩ := List.mem_singleton.mp ht
      exact hlive ht'
    | skip σ v ms p ack _ =>
      obtain ⟨rfl, rfl, hv⟩ := Event.looked.inj (List.mem_singleton.mp ht)
      exact hlive hv.symm
    | _ => simp [sendPayload] at ht
  · exact hz d' u t ht

/-- **A fan-out is complete exactly when nobody was cut off**: whenever a handler leaves a
loop over the members of a group, in any run and for any assignment of outcomes that agrees
with the sends it made, every other member who was there and accepts the write has exactly
one copy, if and only if no failing member stands before such a member in the list. -/
theorem complete_iff_noneCutOff {z y : Config Conn Tables Phase Event}
    (h : (server printable).Reach Any z) {c : Conn} {i : Input}
    (hy : (server printable).next z (c, i) = some y) {σ : Session} {p : Payload}
    (hin : InLoop σ p (z.thread c)) (hout : ¬ InLoop σ p (y.thread c)) :
    ∃ o g full, current z.log c = some o ∧ GroupRequest printable o g ∧ Stored z.log g full ∧
      σ.name ∈ full ∧ full.Pairwise (· < ·) ∧
      (∀ t q ok, .wrote c t q ok ∈ recent c y.log → q = p) ∧
      ∀ accepts : Target → Bool, (∀ t ok, .wrote c t p ok ∈ recent c y.log → ok = accepts t) →
        (Complete c σ full (recent c y.log) z.memory.clients accepts ↔
          NoneCutOff c σ full (recent c y.log) z.memory.clients accepts) := by
  obtain ⟨⟨tb, ph, es⟩, hm, rfl⟩ := next_eq_some hy
  have hmoves := server_moves hm
  rw [after_thread_self] at hout
  obtain ⟨o, g, full, turns, todo, start, ho, hg, hfull, hσ, hleft⟩ :=
    hmoves.leaves (progress_reach h c) hin hout
  have hsorted := stored_sorted h g full hfull
  have hnodup : full.Nodup := hsorted.imp fun hlt => ne_of_lt hlt
  -- one connection stands for one member
  have hreg : ∀ {m t}, Seen c (recent c (es ++ z.log)) z.memory.clients m (some t) →
      .registered t.1 ⟨t.2, m⟩ ∈ es ++ z.log := by
    intro m t hseen
    rcases hseen with hlooked | ⟨-, hget⟩
    · have hmem : .looked c m (some t) ∈ es ++ z.log :=
        (List.mem_filter.mp ((List.takeWhile_sublist _).subset hlooked)).1
      exact looked_reach (h.step (a := (c, i)) trivial hy) c m t hmem
    · exact List.mem_append_right _ (((sessions_reach h).table m t.1 t.2).mp hget).1
  have huniq : ∀ m m' t, Seen c (recent c (es ++ z.log)) z.memory.clients m (some t) →
      Seen c (recent c (es ++ z.log)) z.memory.clients m' (some t) → m = m' := by
    intro m m' t hseen hseen'
    have hs := sessions_reach (h.step (a := (c, i)) trivial hy)
    exact congrArg Session.name (hs.once _ _ _ (hreg hseen) (hreg hseen'))
  refine ⟨o, g, full, ho, hg, hfull, hσ, hsorted, fun t q ok hw => ?_, fun accepts hacc => ?_⟩
  · rw [after_log] at hw
    rcases hleft.reported with ⟨-, hevents⟩ | ⟨m, t', rest, -, -, hevents⟩
    · rw [hevents] at hw
      rcases List.mem_append.mp hw with hw | hw
      · exact (wrote_mem_visits.mp hw).2.1
      · obtain ⟨g, ms, he⟩ := hleft.quiet _ hw
        cases he
    · rw [hevents] at hw
      simp only [List.cons_append, List.nil_append, List.mem_cons, Event.wrote.injEq,
        reduceCtorEq, false_or, List.mem_append] at hw
      rcases hw with ⟨-, -, hq, -⟩ | hw | hw
      · exact hq
      · exact (wrote_mem_visits.mp hw).2.1
      · obtain ⟨g, ms, he⟩ := hleft.quiet _ hw
        cases he
  · rw [after_log] at hacc ⊢
    rw [hleft.complete_iff hnodup huniq, hleft.noneCutOff_iff hnodup hacc]

/-- A request for a new group. -/
def newGroup (members : List Str) : Payload :=
  [(str "type", .str (str "create_group")), (str "group_name", .str (str "team")),
    (str "members", .arr (members.map .str))]

/-- Everything is sent except to connection 2, and Bob was found on connection 1. -/
def Event.isBobs : Event → Bool
  | .wrote _ t _ ok => decide (ok = decide (t.1 ≠ 2))
  | .looked _ m r => decide (m = str "bob" → r = some (1, demoKey))
  | _ => true

/-- Bob has been looked up. -/
def Event.findsBob : Event → Bool
  | .looked c m r => decide (c = 0) && decide (m = str "bob") && decide (r = some (1, demoKey))
  | _ => false

theorem Event.looked_of_findsBob {e : Event} (h : e.findsBob = true) :
    e = .looked 0 (str "bob") (some (1, demoKey)) := by
  cases e with
  | looked c m r =>
    simp only [Event.findsBob, Bool.and_eq_true, decide_eq_true_eq] at h
    obtain ⟨⟨rfl, rfl⟩, rfl⟩ := h
    rfl
  | _ => cases h

/-- Alice invites Bob and Carol, and the send to Carol, who is last, fails: nobody is cut off, and
Bob has his copy. -/
theorem complete_iff_noneCutOff_carol : ∃ z y : Config Conn Tables Phase Event,
    (server fun _ => true).Reach Any z ∧ (server fun _ => true).next z (0, .sent false) = some y ∧
      ∃ σ p full, InLoop σ p (z.thread 0) ∧ ¬ InLoop σ p (y.thread 0) ∧
        Stored z.log (str "team") full ∧ full = [str "alice", str "bob", str "carol"] ∧
        .wrote 0 (2, demoKey) p false ∈ recent 0 y.log ∧
        Complete 0 σ full (recent 0 y.log) z.memory.clients (fun t => decide (t.1 ≠ 2)) ∧
        copies (1, demoKey) (recent 0 y.log) = 1 := by
  obtain ⟨z, hz, hp⟩ := exists_reach_of_exec (P := server fun _ => true)
    (join 0 (str "alice") 0 ++ join 1 (str "bob") 1 ++ join 2 (str "carol") 2 ++
      [(0, .frame (newGroup [str "carol", str "bob"]) []), (0, .run), (0, .run), (0, .run),
        (0, .sent true), (0, .run)])
    (p := fun z =>
      decide (z.memory.groups = [(str "team", [str "alice", str "bob", str "carol"])]) &&
      (recent 0 z.log).all Event.isBobs && (recent 0 z.log).any Event.findsBob &&
      match z.thread 0 with
      | .castTo σ t _ _ _ => decide (σ.name = str "alice") && decide (t = (2, demoKey))
      | _ => false) (by decide +kernel)
  simp only [Bool.and_eq_true, decide_eq_true_eq, List.all_eq_true] at hp
  obtain ⟨⟨⟨hgroups, hevents⟩, hfinds⟩, hthread⟩ := hp
  split at hthread
  · rename_i σ t ms p ack hphase
    rw [Bool.and_eq_true, decide_eq_true_eq, decide_eq_true_eq] at hthread
    obtain ⟨hname, rfl⟩ := hthread
    have hy : (server fun _ => true).next z (0, .sent false) =
        some (after z 0 (z.memory, .loop σ, [.wrote 0 (2, demoKey) p false])) := by
      simp only [Program.next, server, hphase, handleClient, sendPayload, Bool.and_false,
        Bool.false_eq_true, if_false, Option.map_some]
    have hrecent : recent 0 (after z 0 (z.memory, .loop σ,
        [.wrote 0 (2, demoKey) p false])).log = .wrote 0 (2, demoKey) p false :: recent 0 z.log :=
      recent_cons (c := 0) rfl rfl
    have hin : InLoop σ p (z.thread 0) := .inr ⟨_, _, _, hphase⟩
    have hout : ¬ InLoop σ p ((after z 0 (z.memory, .loop σ,
        [.wrote 0 (2, demoKey) p false])).thread 0) := by
      rw [after_thread_self]
      rintro (⟨_, _, ⟨⟩⟩ | ⟨_, _, _, ⟨⟩⟩)
    obtain ⟨o, g, full, -, -, hfull, -, -, -, hiff⟩ := complete_iff_noneCutOff hz hy hin hout
    obtain ⟨rfl, rfl⟩ : g = str "team" ∧ full = [str "alice", str "bob", str "carol"] := by
      have hget := (groups_reach hz _ _).mpr hfull
      rw [hgroups, Dict.get_cons] at hget
      split_ifs at hget with hg
      · exact ⟨hg, (Option.some.inj hget).symm⟩
      · cases hget
    rw [hrecent] at hiff
    have hbob : .looked 0 (str "bob") (some (1, demoKey)) ∈ recent 0 z.log := by
      obtain ⟨e, he, hfind⟩ := List.any_eq_true.mp hfinds
      exact Event.looked_of_findsBob hfind ▸ he
    have hcomplete := (hiff (fun t => decide (t.1 ≠ 2)) ?_).mpr ?_
    · refine ⟨z, _, hz, hy, σ, p, _, hin, hout, hfull, rfl, ?_⟩
      rw [hrecent]
      refine ⟨List.mem_cons_self .., hcomplete, ?_⟩
      exact hcomplete (str "bob") (by simp) (by rw [hname]; decide) _
        (.inl (List.mem_cons_of_mem _ hbob)) rfl
    · intro t ok hw
      rcases List.mem_cons.mp hw with hw | hw
      · obtain ⟨-, rfl, -, rfl⟩ := Event.wrote.inj hw
        rfl
      · exact of_decide_eq_true (hevents _ hw)
    · -- who comes before somebody else is Bob
      intro before m behind hsplit hm t hseen hfail m' hm' _ _ _
      have hm : m = str "bob" := by
        rw [hname] at hm
        rcases before with _ | ⟨a, _ | ⟨b, before⟩⟩
        · exact absurd (List.cons.inj hsplit).1.symm hm
        · exact (List.cons.inj (List.cons.inj hsplit).2).1.symm
        · have hlen := congrArg List.length hsplit
          have hpos := List.length_pos_of_mem hm'
          simp only [List.length_cons, List.length_append, List.length_nil] at hlen
          omega
      have hfound : t = (1, demoKey) := by
        rcases hseen with hlooked | ⟨hnone, -⟩
        · rcases List.mem_cons.mp hlooked with hlooked | hlooked
          · cases hlooked
          · exact Option.some.inj (of_decide_eq_true (hevents _ hlooked) hm)
        · exact absurd (List.mem_cons_of_mem _ (hm ▸ hbob)) (hnone _)
      rw [hfound] at hfail
      cases hfail
  · cases hthread

/-- Alice invites Bob and Carol. Bob's connection fails, and Carol, who is registered and
would accept the write, gets nothing. -/
theorem carol_cut_off : ∃ z y : Config Conn Tables Phase Event,
    (server fun _ => true).Reach Any z ∧ (server fun _ => true).next z (0, .sent false) = some y ∧
      ∃ σ p full, InLoop σ p (z.thread 0) ∧ ¬ InLoop σ p (y.thread 0) ∧ σ.name = str "alice" ∧
        full = [str "alice", str "bob", str "carol"] ∧ Stored z.log (str "team") full ∧
        (∀ t ok, .wrote 0 t p ok ∈ recent 0 y.log → ok = decide (t.1 ≠ 1)) ∧
        Dict.get z.memory.clients (str "carol") = some (2, demoKey) ∧
        copies (2, demoKey) (recent 0 y.log) = 0 ∧
        ¬ Complete 0 σ full (recent 0 y.log) z.memory.clients fun t => decide (t.1 ≠ 1) := by
  obtain ⟨z, hz, hp⟩ := exists_reach_of_exec (P := server fun _ => true)
    (join 0 (str "alice") 0 ++ join 1 (str "bob") 1 ++ join 2 (str "carol") 2 ++
      [(0, .frame (newGroup [str "carol", str "bob"]) []), (0, .run), (0, .run), (0, .run)])
    (p := fun z =>
      decide (Dict.get z.memory.clients (str "carol") = some (2, demoKey)) &&
      decide (Dict.get z.memory.groups (str "team") =
        some [str "alice", str "bob", str "carol"]) &&
      (recent 0 z.log).all (fun
        | .wrote _ _ _ _ => false
        | .looked _ m _ => decide (m ≠ str "carol")
        | _ => true) &&
      match z.thread 0 with
      | .castTo σ t _ _ _ => decide (σ.name = str "alice") && decide (t = (1, demoKey))
      | _ => false) (by decide +kernel)
  simp only [Bool.and_eq_true, decide_eq_true_eq, List.all_eq_true] at hp
  obtain ⟨⟨⟨hcarol, hgroup⟩, hevents⟩, hthread⟩ := hp
  split at hthread
  · rename_i σ t ms p ack hphase
    rw [Bool.and_eq_true, decide_eq_true_eq, decide_eq_true_eq] at hthread
    obtain ⟨hname, rfl⟩ := hthread
    have hy : (server fun _ => true).next z (0, .sent false) =
        some (after z 0 (z.memory, .loop σ, [.wrote 0 (1, demoKey) p false])) := by
      simp only [Program.next, server, hphase, handleClient, sendPayload, Bool.and_false,
        Bool.false_eq_true, if_false, Option.map_some]
    have hrecent : recent 0 (after z 0 (z.memory, .loop σ,
        [.wrote 0 (1, demoKey) p false])).log = .wrote 0 (1, demoKey) p false :: recent 0 z.log :=
      recent_cons (c := 0) rfl rfl
    have hwrote : ∀ {d t q ok}, .wrote d t q ok ∈ recent 0 (after z 0 (z.memory, .loop σ,
        [.wrote 0 (1, demoKey) p false])).log → t = (1, demoKey) ∧ ok = false := by
      intro d t q ok hw
      rw [hrecent] at hw
      rcases List.mem_cons.mp hw with hw | hw
      · obtain ⟨-, rfl, -, rfl⟩ := Event.wrote.inj hw
        exact ⟨rfl, rfl⟩
      · cases hevents _ hw
    have hzero : copies (2, demoKey) (recent 0 (after z 0 (z.memory, .loop σ,
        [.wrote 0 (1, demoKey) p false])).log) = 0 := by
      refine copies_eq_zero fun d q hw => ?_
      cases (hwrote hw).2
    refine ⟨z, _, hz, hy, σ, p, _, .inr ⟨_, _, _, hphase⟩, ?_, hname, rfl,
      (groups_reach hz _ _).mp hgroup, ?_, hcarol, hzero, fun hall => ?_⟩
    · rw [after_thread_self]
      rintro (⟨_, _, ⟨⟩⟩ | ⟨_, _, _, ⟨⟩⟩)
    · intro t ok hw
      obtain ⟨rfl, rfl⟩ := hwrote hw
      rfl
    · have hseen : Seen 0 (recent 0 (after z 0 (z.memory, .loop σ,
          [.wrote 0 (1, demoKey) p false])).log) z.memory.clients (str "carol")
          (some (2, demoKey)) := by
        refine .inr ⟨fun r hl => ?_, hcarol⟩
        rw [hrecent] at hl
        rcases List.mem_cons.mp hl with hl | hl
        · cases hl
        · exact absurd rfl (of_decide_eq_true (hevents _ hl))
      have hone := hall (str "carol") (by simp) (by rw [hname]; decide) (2, demoKey) hseen rfl
      rw [hzero] at hone
      cases hone
  · cases hthread

end GuardedIM
