import GuardedIM.Groups

/-!
# One request, from a frame to the next

A handler that has read a frame answers, looks names up and sends, and is back at its loop after a
number of steps that it knows beforehand, except for the length of a member list.

* `finishes`: it can always get back, by its own steps alone, whatever the others do.
* `forward_delivers`, `fanOut_delivers`: what it has done by then, when the recipients stay
  connected. `Casting` is what a loop over members has reported at each of its points.
-/

namespace GuardedIM

open Interleave Interleave.Program

/-- The session of a handler that is working on a request. -/
def Phase.busy : Phase → Option Session
  | .act σ _ | .forwardTo σ _ _ | .cast σ _ _ _ | .castTo σ _ _ _ _ => some σ
  | _ => none

/-- The most steps the handler may take until it is back at its loop. -/
def Phase.stepsLeft (groups : Dict Str (List Str)) : Phase → ℕ
  | .act _ .ignore | .act _ (.reply _) | .forwardTo _ _ _ => 1
  | .act _ (.forward _ _) => 2
  | .act _ (.fanOut g _) => 2 * ((Dict.get groups g).getD []).length + 3
  | .act _ (.create _ ms) => 2 * ms.length + 3
  | .cast _ ms _ _ => 2 * ms.length + 2
  | .castTo _ _ ms _ _ => 2 * ms.length + 3
  | _ => 0

variable {printable : CodePoint → Bool} {c : Conn} {tb tb' : Tables} {ph ph' : Phase}
  {es log : List Event} {σ : Session} {p : Payload}

/-! ## Back to the loop -/

/-- A step of a handler that is working leaves the clients alone, and brings it nearer to its
loop. -/
theorem Moves.nearer (h : Moves printable c tb ph tb' ph' es) (hbusy : ph.busy = some σ) :
    tb'.clients = tb.clients ∧ (ph' = .loop σ ∨ ph'.busy = some σ ∧
      ph'.stepsLeft tb'.groups < ph.stepsLeft tb.groups) := by
  cases h with
  | ignore | reply | missing | forward | castEnd | castFailed =>
    obtain rfl := Option.some.inj hbusy
    exact ⟨rfl, .inl rfl⟩
  | groupExists | create | notMember | found | member | skip | castAck | castSent =>
    refine ⟨rfl, .inr ⟨hbusy, ?_⟩⟩
    simp only [Phase.stepsLeft, List.length_cons]
    omega
  | fanOut σ g p ms hg =>
    refine ⟨rfl, .inr ⟨hbusy, ?_⟩⟩
    simp only [Phase.stepsLeft, hg, Option.getD_some]
    omega
  | _ => cases hbusy

/-- There always is such a step. -/
theorem exists_busy_step (printable : CodePoint → Bool) (c : Conn) (tb : Tables)
    (h : ph.busy = some σ) : ∃ i,
      (handleClient printable c tb ph i).isSome = true ∧ (i = .run ∨ i = .sent true) := by
  cases ph with
  | act σ' a =>
    cases a with
    | ignore => exact ⟨.run, rfl, .inl rfl⟩
    | reply q => exact ⟨.sent true, rfl, .inr rfl⟩
    | create g ms | fanOut g q =>
      refine ⟨.run, ?_, .inl rfl⟩
      simp only [handleClient]
      split_ifs <;> rfl
    | forward u q =>
      refine ⟨.run, ?_, .inl rfl⟩
      simp only [handleClient]
      split <;> rfl
  | forwardTo σ' t q => exact ⟨.sent true, rfl, .inr rfl⟩
  | cast σ' ms q ack =>
    refine ⟨.run, ?_, .inl rfl⟩
    cases ms with
    | nil => cases ack <;> rfl
    | cons m ms =>
      simp only [handleClient]
      split
      · split_ifs <;> rfl
      · rfl
  | castTo σ' t ms q ack =>
    refine ⟨.sent true, ?_, .inr rfl⟩
    simp only [handleClient]
    split_ifs <;> rfl
  | _ => cases h

/-- **A handler can always finish its request**, by its own steps, while the others stand still. -/
theorem finishes {C : Config Conn Tables Phase Event → Conn × Input → Prop}
    {x : Config Conn Tables Phase Event} (h : (x.thread c).busy = some σ)
    (hC : ∀ y i, (y.thread c).busy = some σ → y.memory.clients = x.memory.clients →
      (i = .run ∨ i = .sent true) → C y (c, i)) :
    ∃ as z, (server printable).Run C x as z ∧ z.thread c = .loop σ := by
  induction hn : (x.thread c).stepsLeft x.memory.groups using Nat.strongRecOn generalizing x with
  | ind n ih =>
    obtain ⟨i, hi, hinput⟩ := exists_busy_step printable c x.memory h
    obtain ⟨⟨tb, ph, es⟩, hm⟩ := Option.isSome_iff_exists.mp hi
    have hnext : (server printable).next x (c, i) = some (after x c (tb, ph, es)) := by
      simp only [Program.next, server, hm, Option.map_some]
    have hrun : (server printable).Run C x ([] ++ [(c, i)]) (after x c (tb, ph, es)) :=
      .snoc .nil (hC x i h rfl hinput) hnext
    obtain ⟨hclients, hback | ⟨hbusy, hlt⟩⟩ := (handleClient_moves hm).nearer h
    · exact ⟨_, _, hrun, (after_thread_self ..).trans hback⟩
    · have hthread : ((after x c (tb, ph, es)).thread c) = ph := after_thread_self ..
      obtain ⟨as, z, hz, hloop⟩ := ih (ph.stepsLeft tb.groups) (hn ▸ hlt)
        (x := after x c (tb, ph, es)) (by rw [hthread, hbusy])
        (fun y i hy hmem => hC y i hy (hmem.trans hclients)) (by rw [hthread]; rfl)
      exact ⟨_, z, hrun.trans hz, hloop⟩

/-! ## While it works -/

/-- The handler of `c` reads nothing new, and the recipients stay connected. -/
def Steady (c : Conn) (recipients : List (Str × Target)) (x : Config Conn Tables Phase Event)
    (a : Conn × Input) : Prop :=
  (a.1 = c → (x.thread c).busy ≠ none) ∧ ∀ r ∈ recipients, Dict.get x.memory.clients r.1 = some r.2

/-- What a handler did when it passed `p` on: it wrote nothing else, all of it arrived, and every
recipient has one copy. -/
structure PassedOn (c : Conn) (p : Payload) (addressed : Str → Prop)
    (recipients : List (Str × Target)) (events : List Event) : Prop where
  /-- every write is a copy for somebody it was addressed to -/
  only : ∀ d t q ok, .wrote d t q ok ∈ events → d = c ∧ q = p ∧ ok = true ∧
    ∃ m, addressed m ∧ .looked c m (some t) ∈ events
  /-- and there is exactly one -/
  once : ∀ m t, (m, t) ∈ recipients → addressed m → copies t events = 1

theorem recent_append (hes : ∀ e ∈ es, e.conn = c ∧ e.isFrame = false) :
    recent c (es ++ log) = es ++ recent c log := by
  induction es with
  | nil => rfl
  | cons e es ih =>
    obtain ⟨⟨hc, he⟩, hes⟩ := List.forall_mem_cons.mp hes
    rw [List.cons_append, recent_cons hc he, ih hes, List.cons_append]

/-- Only a handler at its loop reads a frame. -/
theorem Moves.recent (h : Moves printable c tb ph tb' ph' es) (hbusy : ph.busy ≠ none) :
    GuardedIM.recent c (es ++ log) = es ++ GuardedIM.recent c log := by
  refine recent_append fun e he => ⟨h.conn e he, ?_⟩
  cases h with
  | request | raises => exact absurd rfl hbusy
  | _ =>
    simp only [List.mem_singleton, List.not_mem_nil] at he
    try
      subst he
      rfl

/-- A lookup finds what is in the table. -/
theorem Moves.looked (h : Moves printable c tb ph tb' ph' es) {d : Conn} {u : Str}
    {r : Option Target} (he : .looked d u r ∈ es) : r = Dict.get tb.clients u := by
  cases h with
  | found σ u p t ht | member σ u ms p ack t ht =>
    obtain ⟨⟩ := List.mem_singleton.mp he
    exact ht.symm
  | missing σ u p ht =>
    obtain ⟨⟩ := List.mem_singleton.mp he
    exact ht.symm
  | skip =>
    obtain ⟨⟩ := List.mem_singleton.mp he
    rfl
  | _ => simp [sendPayload] at he

variable {recipients : List (Str × Target)} {x y z : Config Conn Tables Phase Event}
  {as : List (Conn × Input)}

/-- **The rule for a steady run**: what the handler's own steps keep while it works, and the events
of the others do not touch, holds to the end. -/
theorem steady_run {I : Tables → Phase → List Event → Prop}
    (h : (server printable).Run (Steady c recipients) y as z)
    (h0 : I y.memory (y.thread c) (recent c y.log))
    (hown : ∀ tb ph past i tb' ph' es, ph.busy ≠ none →
      (∀ r ∈ recipients, Dict.get tb.clients r.1 = some r.2) →
      handleClient printable c tb ph i = some (tb', ph', es) → I tb ph past →
      I tb' ph' (es ++ past))
    (hothers : ∀ tb ph past tb', (∀ g ms, Dict.get tb.groups g = some ms →
      Dict.get tb'.groups g = some ms) → I tb ph past → I tb' ph past) :
    I z.memory (z.thread c) (recent c z.log) := by
  refine h.invariant (I := fun z => I z.memory (z.thread c) (recent c z.log)) h0 ?_
  rintro z d i ⟨tb, ph, es⟩ hz ⟨hbusy, hconnected⟩ hm
  have hmoves := server_moves hm
  rw [after_memory, after_log]
  by_cases hd : d = c
  · subst hd
    rw [after_thread_self, hmoves.recent (hbusy rfl)]
    exact hown _ _ _ _ _ _ _ (hbusy rfl) hconnected hm hz
  · rw [after_thread_ne _ _ (Ne.symm hd),
      recent_other fun e he => (hmoves.conn e he).trans_ne hd]
    exact hothers _ _ _ _ (fun g ms hg => entry_kept_step hm hg) hz

/-- While it is steady, the recipients are found. -/
theorem looked_steady (h : (server printable).Run (Steady c recipients) y as z)
    (hy : recent c y.log = []) {m : Str} {t : Target} (hmem : (m, t) ∈ recipients) :
    ∀ r, .looked c m r ∈ recent c z.log → r = some t := by
  refine steady_run (I := fun _ _ past => ∀ r, .looked c m r ∈ past → r = some t) h
    (by rw [hy]; exact nofun) ?_ fun _ _ _ _ _ hpast => hpast
  rintro tb ph past i tb' ph' es - hconnected hm hpast r hr
  rcases List.mem_append.mp hr with hr | hr
  · rw [(handleClient_moves hm).looked hr]
    exact hconnected _ hmem
  · exact hpast r hr

/-! ## To one user -/

/-- The handler passes `p` on to the user `u`. -/
inductive Forwarding (c : Conn) (σ : Session) (u : Str) (p : Payload) :
    Phase → List Event → Prop where
  /-- it begins -/
  | starts : Forwarding c σ u p (.act σ (.forward u p)) []
  /-- `u` is there -/
  | found (t : Target) : Forwarding c σ u p (.forwardTo σ t p) [.looked c u (some t)]
  /-- `p` was sent -/
  | sent (t : Target) (ok : Bool) :
      Forwarding c σ u p (.loop σ) [.wrote c t p ok, .looked c u (some t)]
  /-- `u` was not there -/
  | missed : Forwarding c σ u p (.loop σ) [.looked c u none]

theorem Forwarding.step {u : Str} {past : List Event} (h : Forwarding c σ u p ph past)
    (hm : Moves printable c tb ph tb' ph' es) (hbusy : ph.busy ≠ none) :
    Forwarding c σ u p ph' (es ++ past) := by
  cases h with
  | starts =>
    cases hm with
    | found _ _ _ t => exact .found t
    | missing => exact .missed
  | found t =>
    cases hm with
    | forward _ _ _ ok => exact .sent t _
  | sent | missed => exact absurd rfl hbusy

/-- **A payload for one user**: it is written to the user's connection once, and that is all. -/
theorem forward_delivers {u : Str} (h : (server printable).Run (Steady c recipients) y as z)
    (hy : y.thread c = .act σ (.forward u p)) (hnew : recent c y.log = [])
    (hloop : z.thread c = .loop σ) (hok : ∀ t q, .wrote c t q false ∉ recent c z.log) :
    PassedOn c p (· = u) recipients (recent c z.log) := by
  have hend : Forwarding c σ u p (z.thread c) (recent c z.log) := by
    refine steady_run (I := fun _ => Forwarding c σ u p) h ?_
      (fun _ _ _ _ _ _ _ hbusy _ hm hf => hf.step (handleClient_moves hm) hbusy)
      fun _ _ _ _ _ hf => hf
    rw [hy, hnew]
    exact .starts
  have hlooked : ∀ {m t}, (m, t) ∈ recipients → ∀ r, .looked c m r ∈ recent c z.log → r = some t :=
    fun hmem => looked_steady h hnew hmem
  rw [hloop] at hend
  generalize recent c z.log = events at hend hok hlooked
  cases hend with
  | sent t ok =>
    cases ok with
    | false => exact absurd (List.mem_cons_self ..) (hok t p)
    | true =>
      refine ⟨fun d t' q ok hw => ?_, ?_⟩
      · rcases List.mem_cons.mp hw with hw | hw
        · obtain ⟨rfl, rfl, rfl, rfl⟩ := Event.wrote.inj hw
          exact ⟨rfl, rfl, rfl, u, rfl, List.mem_cons_of_mem _ (List.mem_singleton_self _)⟩
        · cases List.mem_singleton.mp hw
      · rintro m t' hmem rfl
        obtain ⟨⟩ := hlooked hmem _ (List.mem_cons_of_mem _ (List.mem_singleton_self _))
        simp [copies]
  | missed =>
    refine ⟨fun d t' q ok hw => ?_, ?_⟩
    · cases List.mem_singleton.mp hw
    · rintro m t' hmem rfl
      cases hlooked hmem _ (List.mem_singleton_self _)

/-! ## To a group -/

/-- The handler sends `p` to the members `ms` one after the other, and then `ack` to its own client.
It had reported `start` before. -/
inductive Casting (c : Conn) (σ : Session) (p : Payload) (ms : List Str) (start : List Event)
    (ack : Option Payload) : Phase → List Event → Prop where
  /-- it looks a member up -/
  | looks (turns : List (Str × Option Target)) (todo : List Str) :
      ms = turns.map Prod.fst ++ todo →
      Casting c σ p ms start ack (.cast σ todo p ack) (visits c σ p turns ++ start)
  /-- it sends to the one it found -/
  | sends (turns : List (Str × Option Target)) (m : Str) (t : Target) (todo : List Str) :
      m ≠ σ.name → ms = turns.map Prod.fst ++ m :: todo →
      Casting c σ p ms start ack (.castTo σ t todo p ack)
        (.looked c m (some t) :: (visits c σ p turns ++ start))
  /-- all of them had their turn, and it answers -/
  | acks (turns : List (Str × Option Target)) (q : Payload) : ack = some q →
      ms = turns.map Prod.fst →
      Casting c σ p ms start ack (.act σ (.reply q)) (visits c σ p turns ++ start)
  /-- it answered -/
  | acked (turns : List (Str × Option Target)) (q : Payload) (ok : Bool) : ack = some q →
      ms = turns.map Prod.fst →
      Casting c σ p ms start ack (.loop σ)
        (sendPayload c (σ.target c) q ok :: (visits c σ p turns ++ start))
  /-- there was nothing to answer -/
  | done (turns : List (Str × Option Target)) : ack = none → ms = turns.map Prod.fst →
      Casting c σ p ms start ack (.loop σ) (visits c σ p turns ++ start)
  /-- a send raised -/
  | failed (turns : List (Str × Option Target)) (m : Str) (t : Target) (todo : List Str) :
      m ≠ σ.name → ms = turns.map Prod.fst ++ m :: todo →
      Casting c σ p ms start ack (.loop σ)
        (.wrote c t p false :: .looked c m (some t) :: (visits c σ p turns ++ start))

variable {ms : List Str} {start past : List Event} {ack : Option Payload}

/-- A member's turn ends. -/
theorem Casting.turn {turns : List (Str × Option Target)} {m : Str} {todo : List Str}
    (r : Option Target) (h : ms = turns.map Prod.fst ++ m :: todo)
    (hpast : past = visit c σ p (m, r) ++ (visits c σ p turns ++ start)) :
    Casting c σ p ms start ack (.cast σ todo p ack) past := by
  have hsplit : ms = (turns ++ [(m, r)]).map Prod.fst ++ todo := by
    rw [h]
    simp
  rw [hpast, ← List.append_assoc, ← visits_snoc]
  exact .looks _ _ hsplit

theorem Casting.step (h : Casting c σ p ms start ack ph past)
    (hm : Moves printable c tb ph tb' ph' es) (hbusy : ph.busy ≠ none) :
    Casting c σ p ms start ack ph' (es ++ past) := by
  cases h with
  | looks turns todo hsplit =>
    cases hm with
    | member _ m todo _ _ t ht hm => exact .sends turns m t todo hm hsplit
    | skip _ m todo _ _ hskip =>
      refine Casting.turn (Dict.get tb.clients m) hsplit ?_
      rcases hg : Dict.get tb.clients m with _ | t
      · rfl
      · rw [hg] at hskip
        rw [visit, if_pos (hskip.resolve_right (Option.some_ne_none t))]
    | castEnd => exact .done turns rfl (hsplit.trans (List.append_nil _))
    | castAck _ _ q => exact .acks turns q rfl (hsplit.trans (List.append_nil _))
  | sends turns m t todo hne hsplit =>
    cases hm with
    | castSent =>
      refine Casting.turn (some t) hsplit ?_
      rw [visit, if_neg hne]
      rfl
    | castFailed => exact .failed turns m t todo hne hsplit
  | acks turns q hack hsplit =>
    cases hm with
    | reply _ _ ok => exact .acked turns q ok hack hsplit
  | acked | done | failed => exact absurd rfl hbusy

/-- A member's request to a group goes to the members. -/
theorem fanOut_step {g : Str} {i : Input} (hg : Dict.get tb.groups g = some ms) (hσ : σ.name ∈ ms)
    (h : handleClient printable c tb (.act σ (.fanOut g p)) i = some (tb', ph', es)) :
    ph' = .cast σ ms p none ∧ es = [] := by
  cases i with
  | run =>
    rw [handleClient, hg] at h
    obtain ⟨⟩ := Option.some.inj ((if_pos (decide_eq_true hσ)).symm.trans h)
    exact ⟨rfl, rfl⟩
  | _ => cases h

/-- **A payload for a group**: every member who is there gets it once, the sender does not, and
nobody else does. -/
theorem fanOut_delivers {g : Str} (hreach : (server printable).Reach Any y)
    (h : (server printable).Run (Steady c recipients) y as z)
    (hy : y.thread c = .act σ (.fanOut g p)) (hnew : recent c y.log = [])
    (hg : Dict.get y.memory.groups g = some ms) (hσ : σ.name ∈ ms)
    (hloop : z.thread c = .loop σ) (hok : ∀ t q, .wrote c t q false ∉ recent c z.log) :
    PassedOn c p (fun m => m ∈ ms ∧ m ≠ σ.name) recipients (recent c z.log) := by
  have hend : (z.thread c = .act σ (.fanOut g p) ∧ recent c z.log = [] ∧
      Dict.get z.memory.groups g = some ms) ∨
      Casting c σ p ms [] none (z.thread c) (recent c z.log) := by
    refine steady_run (I := fun tb ph past => (ph = .act σ (.fanOut g p) ∧ past = [] ∧
      Dict.get tb.groups g = some ms) ∨ Casting c σ p ms [] none ph past) h
      (.inl ⟨hy, hnew, hg⟩) ?_ ?_
    · rintro tb ph past i tb' ph' es hbusy - hm (⟨rfl, rfl, hget⟩ | hcast)
      · obtain ⟨rfl, rfl⟩ := fanOut_step hget hσ hm
        exact .inr (.looks [] ms rfl)
      · exact .inr (hcast.step (handleClient_moves hm) hbusy)
    · rintro tb ph past tb' hkept (⟨hph, hpast, hget⟩ | hcast)
      · exact .inl ⟨hph, hpast, hkept g ms hget⟩
      · exact .inr hcast
  have hlooked : ∀ {m t}, (m, t) ∈ recipients → ∀ r, .looked c m r ∈ recent c z.log → r = some t :=
    fun hmem => looked_steady h hnew hmem
  -- one connection stands for one member
  have hzreach : (server printable).Reach Any z := hreach.run (h.mono fun _ _ _ => trivial)
  have hone : ∀ m m' t, .looked c m (some t) ∈ recent c z.log →
      .looked c m' (some t) ∈ recent c z.log → m' = m := by
    intro m m' t hm hm'
    have hregistered : ∀ {m}, .looked c m (some t) ∈ recent c z.log →
        .registered t.1 ⟨t.2, m⟩ ∈ z.log := fun hm =>
      looked_reach hzreach c _ t (List.mem_filter.mp ((List.takeWhile_sublist _).subset hm)).1
    exact congrArg Session.name
      ((sessions_reach hzreach).once _ _ _ (hregistered hm') (hregistered hm))
  have hnodup : ms.Nodup :=
    (stored_sorted hreach g ms ((groups_reach hreach g ms).mp hg)).imp fun hlt => ne_of_lt hlt
  rcases hend with ⟨hact, -, -⟩ | hend
  · rw [hloop] at hact
    cases hact
  rw [hloop] at hend
  generalize recent c z.log = events at hend hok hlooked hone
  cases hend with
  | acked _ _ _ hack => cases hack
  | failed => exact absurd (List.mem_cons_self ..) (hok _ _)
  | done turns _ hms =>
    rw [List.append_nil] at hok hlooked hone ⊢
    refine ⟨fun d t q ok hw => ?_, ?_⟩
    · obtain ⟨hd, hq, hok, m, hm, hmem⟩ := wrote_mem_visits.mp hw
      refine ⟨hd, hq, hok, m, ⟨?_, hm⟩, looked_mem_visits.mpr hmem⟩
      rw [hms]
      exact List.mem_map.mpr ⟨_, hmem, rfl⟩
    · rintro m t hmem ⟨hm, hne⟩
      rw [hms] at hm hnodup
      obtain ⟨⟨m, r⟩, hturn, rfl⟩ := List.mem_map.mp hm
      obtain rfl := hlooked hmem r (looked_mem_visits.mpr hturn)
      exact copies_visits hnodup hne hturn fun m' hm' =>
        hone m m' t (looked_mem_visits.mpr hturn) (looked_mem_visits.mpr hm')

end GuardedIM
