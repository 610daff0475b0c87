import GuardedIM.Routing

/-!
# The user lists

`broadcast_user_list` takes its snapshot under the lock and sends it afterwards, so the
lists of two handlers can overtake each other on the way to a client.

The table has a `version`, which counts its changes so far. A list has the version of the
table at the moment of its snapshot. `Lists` says what holds of all lists under way; it is
kept by every step, provided that a list is only written to a client that was not sent a
later one before.

* `lists_converge`: in every run without such an overtaking, and in which the lists are
  sent, all registered clients have the current list whenever nothing is pending.
* `stale_list`: a run with one overtaking that leaves a client with an old list for good.
-/

namespace GuardedIM

open Interleave Interleave.Program

/-! ## Versions -/

/-- The handler of `c` inserted an entry. -/
def Event.registers (c : Conn) : Event → Bool
  | .registered d _ => d = c
  | _ => false

/-- How often the table has changed: a cleanup removes an entry if there was one. -/
def version : List Event → ℕ
  | [] => 0
  | .registered _ _ :: log => version log + 1
  | .cleaned c :: log => if log.any (Event.registers c) then version log + 1 else version log
  | _ :: log => version log

/-- The version of the snapshot that the handler of `c` took last. -/
def snapVersion (c : Conn) : List Event → ℕ
  | [] => 0
  | .snapshot d :: log => if d = c then version log else snapVersion c log
  | _ :: log => snapVersion c log

/-- The payload of a user list. -/
def Payload.isUserList (p : Payload) : Bool := (p.find (str "type")).isStr (str "user_list")

/-- The last list written to the connection `d`, with its version. -/
def lastList (d : Conn) : List Event → Option (ℕ × Payload)
  | [] => none
  | .wrote c t p ok :: log =>
    if t.1 = d && ok && p.isUserList then some (snapVersion c log, p) else lastList d log
  | _ :: log => lastList d log

/-- The events that versions and lists are made of. -/
def Event.Lists : Event → Prop
  | .registered _ _ | .cleaned _ | .snapshot _ => True
  | .wrote _ _ p _ => p.isUserList = true
  | _ => False

/-- Events about anything else change none of the three. -/
theorem lists_quiet {es log : List Event} (hes : ∀ e ∈ es, ¬ e.Lists) :
    version (es ++ log) = version log ∧ (∀ c, snapVersion c (es ++ log) = snapVersion c log) ∧
      ∀ d, lastList d (es ++ log) = lastList d log := by
  induction es with
  | nil => exact ⟨rfl, fun _ => rfl, fun _ => rfl⟩
  | cons e es ih =>
    obtain ⟨he, hrest⟩ := List.forall_mem_cons.mp hes
    obtain ⟨h₁, h₂, h₃⟩ := ih hrest
    rw [List.cons_append]
    cases e with
    | registered | cleaned | snapshot => exact absurd trivial he
    | wrote c t p ok =>
      refine ⟨h₁, h₂, fun d => ?_⟩
      have hp : p.isUserList = false := Bool.eq_false_iff.mpr he
      rw [lastList, hp, Bool.and_false, if_neg Bool.false_ne_true, h₃ d]
    | _ => exact ⟨h₁, h₂, h₃⟩

theorem isUserList_userList (us : List Str) : (userList us).isUserList = true := rfl

theorem lastList_userList (c : Conn) (t : Target) (us : List Str) (log : List Event) (d : Conn) :
    lastList d ([.wrote c t (userList us) true] ++ log) =
      if t.1 = d then some (snapVersion c log, userList us) else lastList d log := by
  rw [List.singleton_append, lastList, isUserList_userList]
  simp only [Bool.and_true, decide_eq_true_eq]

/-! ## The part a handler plays -/

/-- What a handler has to do with user lists. -/
inductive Role where
  /-- nothing -/
  | none
  /-- it will take a snapshot for a broadcast -/
  | due
  /-- it will send its own client the first list, and then broadcast -/
  | first (users : List Str)
  /-- it is sending a snapshot to the targets left -/
  | sending (usernames : List Str) (targets : List Target)

/-- The part a handler plays, from its position. -/
def Phase.role : Phase → Role
  | .firstList _ | .broadcast _ => .due
  | .sendFirst _ users => .first users
  | .listing _ usernames targets => .sending usernames targets
  | _ => .none

/-- The steps of user lists. -/
inductive ListMoves (c : Conn) (clients : Dict Str Target) :
    Role → Dict Str Target → Role → List Event → Prop where
  /-- nothing -/
  | quiet {r : Role} {es : List Event} : (∀ e ∈ es, ¬ e.Lists) → ListMoves c clients r clients r es
  /-- a client joins -/
  | join (σ : Session) : ListMoves c clients .none (Dict.set clients σ.name (c, σ.key)) .due
      [.registered c σ]
  /-- a handler ends -/
  | leave (username : Option Str) :
      ListMoves c clients .none (removeOwn c username clients) .due [.cleaned c]
  /-- the snapshot of the first list -/
  | takeFirst : ListMoves c clients .due clients (.first (Dict.keys clients)) [.snapshot c]
  /-- the snapshot of a broadcast -/
  | take : ListMoves c clients .due clients
      (.sending (Dict.keys clients) (Dict.values clients)) [.snapshot c]
  /-- the first list is sent -/
  | sendFirst (us : List Str) (t : Target) (ok : Bool) :
      ListMoves c clients (.first us) clients .due [.wrote c t (userList us) ok]
  /-- a list is sent -/
  | send (us : List Str) (t : Target) (ts : List Target) (ok : Bool) :
      ListMoves c clients (.sending us (t :: ts)) clients (.sending us ts)
        [.wrote c t (userList us) ok]
  /-- all lists were sent -/
  | done (us : List Str) : ListMoves c clients (.sending us []) clients .none []

theorem Answer.not_userList {p : Payload} (h : Answer p) : p.isUserList = false := by
  cases h <;> rfl

theorem Payload.IsForwarded.not_userList {p : Payload} (h : p.IsForwarded) :
    p.isUserList = false := by
  obtain ⟨t, ht, hf⟩ := h
  rw [Payload.isUserList, ht]
  cases hf <;> rfl

variable {printable : CodePoint → Bool} {c : Conn} {tb tb' : Tables} {ph ph' : Phase}
  {es log : List Event}

/-- **Every step of a handler is a step of the user lists**: only the broadcasts and the
first list send payloads of that type. -/
theorem Moves.lists (h : Moves printable c tb ph tb' ph' es)
    (hreq : ph.Request printable c log) :
    ListMoves c tb.clients ph.role tb'.clients ph'.role es := by
  have hsent : ∀ {t p ok}, p.isUserList = false →
      ∀ e ∈ [Event.wrote c t p ok], ¬ e.Lists := by
    intro t p ok hp e he
    obtain rfl := List.mem_singleton.mp he
    exact Bool.eq_false_iff.mp hp
  cases h with
  | register σ _ => exact .join σ
  | cleanup username => exact .leave username
  | firstList => exact .takeFirst
  | snapshot => exact .take
  | sendFirst σ users ok => exact .sendFirst users _ _
  | list so users t ts ok => exact .send users t ts _
  | listed σ users => exact .done users
  | unlisted users => exact .done users
  -- the other payloads
  | refuse | duplicate => exact .quiet (hsent (Answer.error _).not_userList)
  | reply σ p ok =>
    refine .quiet (hsent ?_)
    rcases hreq with ⟨q, hq, ha⟩ | ⟨o, now, -, hp⟩
    · obtain rfl := Action.reply.inj hq
      exact ha.not_userList
    · cases hp
  | forward σ t p ok =>
    obtain ⟨o, now, u, -, hp, -⟩ := hreq
    exact .quiet (hsent (hp.type_kept (.inr ⟨u, rfl⟩)).2.not_userList)
  | castSent σ t ms p ack _ | castFailed σ t ms p ack =>
    refine .quiet (hsent ?_)
    obtain ⟨-, u, -, ha | ⟨o, now, g, stored, -, hp, -⟩, -⟩ := hreq
    · exact ha.not_userList
    · exact (hp.type_kept (.inl ⟨g, rfl⟩)).2.not_userList
  | _ => exact .quiet (by simp [Event.Lists])

/-! ## The invariant -/

/-- The client at `d` was sent a list of the present version. -/
def Told (log : List Event) (d : Conn) : Prop := ∃ p, lastList d log = some (version log, p)

/-- What holds of the lists that were sent and of those on their way. -/
structure Lists (role : Conn → Role) (clients : Dict Str Target) (log : List Event) : Prop where
  /-- no snapshot is from the future -/
  snap_le : ∀ c, snapVersion c log ≤ version log
  /-- no list either -/
  list_le : ∀ d v p, lastList d log = some (v, p) → v ≤ version log
  /-- a list of the present version is the present list -/
  list_current : ∀ d p, lastList d log = some (version log, p) →
    p = userList (Dict.keys clients)
  /-- so is a first list that was not overtaken by a change -/
  first_current : ∀ c us, role c = .first us → snapVersion c log = version log →
    us = Dict.keys clients
  /-- and a broadcast, which has reached everybody who is no target any more -/
  sending_current : ∀ c us ts, role c = .sending us ts → snapVersion c log = version log →
    us = Dict.keys clients ∧ ∀ u t, Dict.get clients u = some t → t ∈ ts ∨ Told log t.1
  /-- somebody has a broadcast to come or under way, or everybody was told -/
  covered : (∃ c, role c = .due ∨ ∃ us, role c = .first us) ∨
    (∃ c us ts, role c = .sending us ts ∧ snapVersion c log = version log) ∨
    ∀ u t, Dict.get clients u = some t → Told log t.1

theorem lists_start : Lists (fun _ => .none) [] [] where
  snap_le _ := le_refl _
  list_le _ _ _ h := nomatch h
  list_current _ _ h := nomatch h
  first_current _ _ h := nomatch h
  sending_current _ _ _ h := nomatch h
  covered := .inr (.inr fun _ _ h => nomatch h)

section Step

variable {role : Conn → Role} {clients clients' : Dict Str Target}

/-- A step that changes nothing. -/
theorem Lists.quiet (h : Lists role clients log) (hes : version (es ++ log) = version log ∧
    (∀ c, snapVersion c (es ++ log) = snapVersion c log) ∧
    ∀ d, lastList d (es ++ log) = lastList d log) : Lists role clients (es ++ log) := by
  obtain ⟨hv, hsnap, hlast⟩ := hes
  have htold : ∀ d, Told (es ++ log) d ↔ Told log d := fun d => by rw [Told, Told, hv, hlast]
  refine ⟨?_, ?_, ?_, ?_, ?_, ?_⟩
  · intro c
    rw [hsnap, hv]
    exact h.snap_le c
  · intro d v p hd
    rw [hlast] at hd
    rw [hv]
    exact h.list_le d v p hd
  · intro d p hd
    rw [hlast, hv] at hd
    exact h.list_current d p hd
  · intro c us hc hs
    rw [hsnap, hv] at hs
    exact h.first_current c us hc hs
  · intro c us ts hc hs
    rw [hsnap, hv] at hs
    simp only [htold]
    exact h.sending_current c us ts hc hs
  · simp only [htold, hsnap, hv]
    exact h.covered

/-- A change of the table makes every list and snapshot an old one. -/
theorem Lists.change (h : Lists role clients log) {e : Event}
    (hv : version (e :: log) = version log + 1)
    (hsnap : ∀ c, snapVersion c (e :: log) = snapVersion c log)
    (hlast : ∀ d, lastList d (e :: log) = lastList d log) :
    Lists (Function.update role c .due) clients' ([e] ++ log) := by
  refine ⟨?_, ?_, ?_, ?_, ?_, ?_⟩
  · intro d
    have := h.snap_le d
    rw [List.singleton_append, hsnap, hv]
    omega
  · intro d v p hd
    rw [List.singleton_append, hlast] at hd
    have := h.list_le d v p hd
    rw [List.singleton_append, hv]
    omega
  · intro d p hd
    rw [List.singleton_append, hlast, hv] at hd
    have := h.list_le d _ p hd
    omega
  · intro d us _ hs
    have := h.snap_le d
    rw [List.singleton_append, hsnap, hv] at hs
    omega
  · intro d us ts _ hs
    have := h.snap_le d
    rw [List.singleton_append, hsnap, hv] at hs
    omega
  · exact .inl ⟨c, .inl (Function.update_self ..)⟩

/-- A handler that had nothing to do is due, and nothing else happened. -/
theorem Lists.due (h : Lists role clients log) (hc : role c = .none) :
    Lists (Function.update role c .due) clients log := by
  have hother : ∀ {d r}, Function.update role c .due d = r → r ≠ .due → role d = r := by
    intro d r hd hr
    by_cases hdc : d = c
    · subst hdc
      rw [Function.update_self] at hd
      exact absurd hd.symm hr
    · rwa [Function.update_of_ne hdc] at hd
  refine ⟨h.snap_le, h.list_le, h.list_current, ?_, ?_, ?_⟩
  · exact fun d us hd => h.first_current d us (hother hd nofun)
  · exact fun d us ts hd => h.sending_current d us ts (hother hd nofun)
  · exact .inl ⟨c, .inl (Function.update_self ..)⟩

/-- A snapshot is of the present table, and the targets are all clients. -/
theorem Lists.snapshot (h : Lists role clients log) (hc : role c = .due) {r : Role}
    (hr : r = .first (Dict.keys clients) ∨
      r = .sending (Dict.keys clients) (Dict.values clients)) :
    Lists (Function.update role c r) clients ([.snapshot c] ++ log) := by
  have hsnap : ∀ d, snapVersion d ([.snapshot c] ++ log) =
      if c = d then version log else snapVersion d log := fun d => rfl
  have hother : ∀ {d}, d ≠ c → snapVersion d ([.snapshot c] ++ log) = snapVersion d log := by
    intro d hd
    rw [hsnap, if_neg (Ne.symm hd)]
  refine ⟨?_, h.list_le, h.list_current, ?_, ?_, ?_⟩
  · intro d
    rw [hsnap]
    split_ifs
    · exact le_refl _
    · exact h.snap_le d
  · intro d us hd hs
    by_cases hdc : d = c
    · subst hdc
      rw [Function.update_self] at hd
      rcases hr with rfl | rfl
      · exact (Role.first.inj hd).symm
      · cases hd
    · rw [Function.update_of_ne hdc] at hd
      rw [hother hdc] at hs
      exact h.first_current d us hd hs
  · intro d us ts hd hs
    by_cases hdc : d = c
    · subst hdc
      rw [Function.update_self] at hd
      rcases hr with rfl | rfl
      · cases hd
      · obtain ⟨rfl, rfl⟩ := Role.sending.inj hd
        exact ⟨rfl, fun u t ht => .inl (Dict.mem_values_of_get ht)⟩
    · rw [Function.update_of_ne hdc] at hd
      rw [hother hdc] at hs
      exact h.sending_current d us ts hd hs
  · rcases hr with rfl | rfl
    · exact .inl ⟨c, .inr ⟨_, Function.update_self ..⟩⟩
    · exact .inr (.inl ⟨c, _, _, Function.update_self .., by rw [hsnap, if_pos rfl]; rfl⟩)

/-- A list that is written, and is not older than the one before it, leaves everybody who
was told told. -/
theorem told_wrote {t : Target} {us : List Str} (hle : snapVersion c log ≤ version log)
    (horder : ∀ v p, lastList t.1 log = some (v, p) → v ≤ snapVersion c log) {d : Conn}
    (hd : Told log d) : Told ([.wrote c t (userList us) true] ++ log) d := by
  obtain ⟨p, hp⟩ := hd
  by_cases htd : t.1 = d
  · subst htd
    have hv : snapVersion c log = version log := le_antisymm hle (horder _ p hp)
    refine ⟨userList us, ?_⟩
    rw [lastList_userList, if_pos rfl, hv]
    rfl
  · refine ⟨p, ?_⟩
    rw [lastList_userList, if_neg htd]
    exact hp

/-- A list is written in order. -/
theorem Lists.wrote (h : Lists role clients log) {t : Target} {us : List Str} {r : Role}
    (horder : ∀ v p, lastList t.1 log = some (v, p) → v ≤ snapVersion c log)
    (hus : snapVersion c log = version log → us = Dict.keys clients)
    (hr : r = .due ∨ ∃ ts, role c = .sending us (t :: ts) ∧ r = .sending us ts) :
    Lists (Function.update role c r) clients ([.wrote c t (userList us) true] ++ log) := by
  have hlast : ∀ d, lastList d ([.wrote c t (userList us) true] ++ log) =
      if t.1 = d then some (snapVersion c log, userList us) else lastList d log :=
    lastList_userList c t us log
  have htold : ∀ {d}, Told log d → Told ([.wrote c t (userList us) true] ++ log) d :=
    fun hd => told_wrote (h.snap_le c) horder hd
  refine ⟨h.snap_le, ?_, ?_, ?_, ?_, ?_⟩
  · intro d v p hd
    rw [hlast] at hd
    split_ifs at hd
    · obtain ⟨rfl, -⟩ := Prod.mk.inj (Option.some.inj hd)
      exact h.snap_le c
    · exact h.list_le d v p hd
  · intro d p hd
    rw [hlast] at hd
    split_ifs at hd
    · obtain ⟨hv, rfl⟩ := Prod.mk.inj (Option.some.inj hd)
      rw [hus hv]
    · exact h.list_current d p hd
  · intro d us' hd hs
    by_cases hdc : d = c
    · subst hdc
      rw [Function.update_self] at hd
      rcases hr with rfl | ⟨ts, -, rfl⟩ <;> cases hd
    · rw [Function.update_of_ne hdc] at hd
      exact h.first_current d us' hd hs
  · intro d us' ts' hd hs
    by_cases hdc : d = c
    · subst hdc
      rw [Function.update_self] at hd
      rcases hr with rfl | ⟨ts, hrole, rfl⟩
      · cases hd
      · -- one target less, and that one was told
        obtain ⟨rfl, rfl⟩ := Role.sending.inj hd
        obtain ⟨hkeys, hrest⟩ := h.sending_current d us (t :: ts) hrole hs
        refine ⟨hkeys, fun u t' ht' => ?_⟩
        rcases hrest u t' ht' with hmem | htold'
        · rcases List.mem_cons.mp hmem with rfl | hmem
          · refine .inr ⟨userList us, ?_⟩
            rw [hlast, if_pos rfl]
            exact congrArg (fun v => some (v, userList us)) hs
          · exact .inl hmem
        · exact .inr (htold htold')
    · rw [Function.update_of_ne hdc] at hd
      obtain ⟨hkeys, hrest⟩ := h.sending_current d us' ts' hd hs
      exact ⟨hkeys, fun u t' ht' => (hrest u t' ht').imp_right htold⟩
  · rcases hr with rfl | ⟨ts, hrole, rfl⟩
    · exact .inl ⟨c, .inl (Function.update_self ..)⟩
    · have hrole' : ∀ {d r'}, role d = r' → r' = .due ∨ (∃ us, r' = .first us) →
          Function.update role c (.sending us ts) d = r' := by
        intro d r' hd hr'
        by_cases hdc : d = c
        · subst hdc
          rw [hrole] at hd
          subst hd
          rcases hr' with hr' | ⟨_, hr'⟩ <;> cases hr'
        · rwa [Function.update_of_ne hdc]
      rcases h.covered with ⟨d, hd | ⟨us', hd⟩⟩ | ⟨d, us', ts', hd, hs⟩ | hall
      · exact .inl ⟨d, .inl (hrole' hd (.inl rfl))⟩
      · exact .inl ⟨d, .inr ⟨us', hrole' hd (.inr ⟨us', rfl⟩)⟩⟩
      · by_cases hdc : d = c
        · subst hdc
          exact .inr (.inl ⟨d, us, ts, Function.update_self .., hs⟩)
        · refine .inr (.inl ⟨d, us', ts', ?_, hs⟩)
          rwa [Function.update_of_ne hdc]
      · exact .inr (.inr fun u t' ht' => htold (hall u t' ht'))

/-- A broadcast that is over, and was current, has told everybody. -/
theorem Lists.done (h : Lists role clients log) {us : List Str} (hc : role c = .sending us []) :
    Lists (Function.update role c .none) clients log := by
  have hother : ∀ {d r}, Function.update role c .none d = r → r ≠ .none → role d = r := by
    intro d r hd hr
    by_cases hdc : d = c
    · subst hdc
      rw [Function.update_self] at hd
      exact absurd hd.symm hr
    · rwa [Function.update_of_ne hdc] at hd
  have hkeep : ∀ {d r}, role d = r → d ≠ c → Function.update role c .none d = r := by
    intro d r hd hdc
    rwa [Function.update_of_ne hdc]
  refine ⟨h.snap_le, h.list_le, h.list_current, ?_, ?_, ?_⟩
  · exact fun d us' hd => h.first_current d us' (hother hd nofun)
  · exact fun d us' ts' hd => h.sending_current d us' ts' (hother hd nofun)
  · rcases h.covered with ⟨d, hd | ⟨us', hd⟩⟩ | ⟨d, us', ts', hd, hs⟩ | hall
    · exact .inl ⟨d, .inl (hkeep hd fun hdc => by rw [hdc, hc] at hd; cases hd)⟩
    · exact .inl ⟨d, .inr ⟨us', hkeep hd fun hdc => by rw [hdc, hc] at hd; cases hd⟩⟩
    · by_cases hdc : d = c
      · subst hdc
        refine .inr (.inr fun u t ht => ?_)
        exact ((h.sending_current d us [] hc hs).2 u t ht).resolve_left List.not_mem_nil
      · exact .inr (.inl ⟨d, us', ts', hkeep hd hdc, hs⟩)
    · exact .inr (.inr hall)

/-- The events of user lists that the theorem assumes: the sends succeed. -/
def Delivered : Event → List Event → Prop
  | .wrote _ _ p ok, _ => p.isUserList = true → ok = true
  | _, _ => True

/-- No list is written to a client that was sent a later one. -/
def InOrder : Event → List Event → Prop
  | .wrote c t p _, past => p.isUserList = true →
      ∀ l ∈ lastList t.1 past, l.1 ≤ snapVersion c past
  | _, _ => True

instance (e : Event) (past : List Event) : Decidable (Delivered e past) := by
  cases e <;> unfold Delivered <;> infer_instance

instance (e : Event) (past : List Event) : Decidable (InOrder e past) := by
  cases e <;> unfold InOrder <;> infer_instance

/-- **Every step keeps the invariant**, as long as the lists are delivered in order. -/
theorem Lists.step (h : Lists role clients log) {r : Role}
    (hm : ListMoves c clients (role c) clients' r es)
    (hown : ∀ u t, Dict.get clients u = some t → t.1 = c →
      log.any (Event.registers c) = true)
    (hsent : ∀ e ∈ es, Delivered e log) (horder : ∀ e ∈ es, InOrder e log) :
    Lists (Function.update role c r) clients' (es ++ log) := by
  generalize hc : role c = r₀ at hm
  cases hm with
  | quiet hes =>
    rw [← hc, Function.update_eq_self]
    exact h.quiet (lists_quiet hes)
  | join σ => exact h.change rfl (fun _ => rfl) fun _ => rfl
  | leave username =>
    by_cases hreg : log.any (Event.registers c) = true
    · exact h.change (by rw [version, if_pos hreg]) (fun _ => rfl) fun _ => rfl
    · -- a handler that never registered has no entry to remove
      have hsame : removeOwn c username clients = clients := by
        rcases username with _ | u
        · rfl
        · rcases hu : Dict.get clients u with _ | t
          · simp only [removeOwn, hu]
          · have ht : t.1 ≠ c := fun ht => hreg (hown u t hu ht)
            simp only [removeOwn, hu, if_neg ht]
      rw [hsame]
      refine (h.due hc).quiet ⟨?_, fun _ => rfl, fun _ => rfl⟩
      rw [List.singleton_append, version, if_neg hreg]
  | takeFirst => exact h.snapshot hc (.inl rfl)
  | take => exact h.snapshot hc (.inr rfl)
  | sendFirst us t ok =>
    obtain rfl : ok = true := hsent _ (List.mem_singleton_self _) (isUserList_userList us)
    have hin := horder _ (List.mem_singleton_self _) (isUserList_userList us)
    exact h.wrote (fun v p hl => hin _ hl) (h.first_current c us hc) (.inl rfl)
  | send us t ts ok =>
    obtain rfl : ok = true := hsent _ (List.mem_singleton_self _) (isUserList_userList us)
    have hin := horder _ (List.mem_singleton_self _) (isUserList_userList us)
    exact h.wrote (fun v p hl => hin _ hl) (fun hs => (h.sending_current c us _ hc hs).1)
      (.inr ⟨ts, hc, rfl⟩)
  | done us => exact h.done hc

end Step

/-- The parts all handlers play. -/
def roles (x : Config Conn Tables Phase Event) : Conn → Role := fun c => (x.thread c).role

theorem roles_after (x : Config Conn Tables Phase Event) (c : Conn)
    (m : Tables × Phase × List Event) :
    roles (after x c m) = Function.update (roles x) c m.2.1.role := by
  funext d
  by_cases hd : d = c
  · subst hd
    rw [Function.update_self, roles, after_thread_self]
  · rw [Function.update_of_ne hd, roles, after_thread_ne x m hd, roles]

/-- The events of a step that are justified in the log were justified when reported. -/
theorem justified_step {Q : Event → List Event → Prop} (hes : es = [] ∨ ∃ e, es = [e])
    (h : Justified Q (es ++ log)) : ∀ e ∈ es, Q e log := by
  rcases hes with rfl | ⟨e, rfl⟩
  · exact fun e he => absurd he List.not_mem_nil
  · intro e' he'
    obtain rfl := List.mem_singleton.mp he'
    exact h.1

/-- **The invariant holds as long as the lists are delivered in order.** -/
theorem lists_reach {x : Config Conn Tables Phase Event} (h : (server printable).Reach Any x)
    (hsent : Justified Delivered x.log) (horder : Justified InOrder x.log) :
    Lists (roles x) x.memory.clients x.log := by
  revert hsent horder
  refine h.invariant (I := fun x => Justified Delivered x.log → Justified InOrder x.log →
    Lists (roles x) x.memory.clients x.log) (fun _ _ => lists_start) ?_
  rintro z c i m hreach hz - hm hsent horder
  have hmoves := server_moves hm
  rw [after_log] at hsent horder
  rw [roles_after]
  refine (hz hsent.append horder.append).step (hmoves.lists (request_reach hreach c)) ?_
    (justified_step hmoves.events hsent) (justified_step hmoves.events horder)
  rintro u ⟨d, k⟩ ht rfl
  have hreg := (((sessions_reach hreach).table u d k).mp ht).1
  exact List.any_eq_true.mpr ⟨_, hreg, decide_eq_true rfl⟩

/-- A handler still has a list to send. -/
def Phase.Pending (ph : Phase) : Prop :=
  ph.role = .due ∨ (∃ us, ph.role = .first us) ∨ ∃ us t ts, ph.role = .sending us (t :: ts)

/-- **The user lists converge** in every run in which no list overtakes a later one on the
way to a client: whenever no handler has a list to send, the last list written to each
registered client is the present one. -/
theorem lists_converge {x : Config Conn Tables Phase Event}
    (h : (server printable).Reach Any x) (hsent : Justified Delivered x.log)
    (horder : Justified InOrder x.log) (hquiet : ∀ c, ¬ (x.thread c).Pending) {u : Str}
    {t : Target} (ht : Dict.get x.memory.clients u = some t) :
    ∃ v, lastList t.1 x.log = some (v, userList (Dict.keys x.memory.clients)) := by
  have hl := lists_reach h hsent horder
  have htold : Told x.log t.1 := by
    rcases hl.covered with ⟨c, hc | hc⟩ | ⟨c, us, ts, hc, hs⟩ | hall
    · exact absurd (.inl hc) (hquiet c)
    · exact absurd (.inr (.inl hc)) (hquiet c)
    · rcases ts with _ | ⟨t', ts⟩
      · exact ((hl.sending_current c us [] hc hs).2 u t ht).resolve_left List.not_mem_nil
      · exact absurd (.inr (.inr ⟨us, t', ts, hc⟩)) (hquiet c)
    · exact hall u t ht
  obtain ⟨p, hp⟩ := htold
  exact ⟨version x.log, by rw [hp, hl.list_current t.1 p hp]⟩

/-- A handler in its frame loop. -/
def Phase.isLoop : Phase → Bool
  | .loop _ => true
  | _ => false

theorem Phase.not_pending_of_isLoop {ph : Phase} (h : ph.isLoop = true) : ¬ ph.Pending := by
  cases ph with
  | loop σ => rintro (h | ⟨_, h⟩ | ⟨_, _, _, h⟩) <;> cases h
  | _ => cases h

/-- Where all handlers a schedule moves are in their frame loops, nothing is pending. -/
theorem quiet_of_isLoop {as : List (Conn × Input)} {x : Config Conn Tables Phase Event}
    (h : (server printable).Run Any (server printable).init as x)
    (hloop : ∀ a ∈ as, (x.thread a.1).isLoop = true) (c : Conn) : ¬ (x.thread c).Pending := by
  by_cases hc : ∃ a ∈ as, a.1 = c
  · obtain ⟨a, ha, rfl⟩ := hc
    exact Phase.not_pending_of_isLoop (hloop a ha)
  · rw [h.thread_eq fun a ha hac => hc ⟨a, ha, hac⟩]
    rintro (h | ⟨_, h⟩ | ⟨_, _, _, h⟩) <;> cases h

/-- Alice and Bob join one after the other, and Alice has the list with both. -/
theorem lists_converge_bob : ∃ x : Config Conn Tables Phase Event,
    (server fun _ => true).Reach Any x ∧
      Dict.keys x.memory.clients = [str "alice", str "bob"] ∧
      ∃ v, lastList 0 x.log = some (v, userList (Dict.keys x.memory.clients)) := by
  obtain ⟨x, hx, hp⟩ := exists_run_of_exec (P := server fun _ => true)
    (join 0 (str "alice") 0 ++ join 1 (str "bob") 1)
    (p := fun x => (join 0 (str "alice") 0 ++ join 1 (str "bob") 1).all
        (fun a => (x.thread a.1).isLoop) &&
      decide (Dict.keys x.memory.clients = [str "alice", str "bob"]) &&
      decide (Dict.get x.memory.clients (str "alice") = some (0, demoKey)) &&
      decide (Justified Delivered x.log) && decide (Justified InOrder x.log)) (by decide +kernel)
  simp only [Bool.and_eq_true, decide_eq_true_eq, List.all_eq_true] at hp
  obtain ⟨⟨⟨⟨hloop, hkeys⟩, hget⟩, hsent⟩, horder⟩ := hp
  exact ⟨x, ⟨_, hx⟩, hkeys,
    lists_converge ⟨_, hx⟩ hsent horder (quiet_of_isLoop hx hloop) hget⟩

/-- Bob's handler has taken its snapshot when Carol joins, and sends it after hers. -/
def overtaking : List (Conn × Input) :=
  join 0 (str "alice") 0 ++
    (arrive 1 (str "bob") ++ [(1, .run), (1, .run), (1, .sent true), (1, .run)]) ++
    join 2 (str "carol") 2 ++ [(1, .sent true), (1, .sent true), (1, .run)]

/-- All sends succeed and nothing is pending, and the last list Alice was sent is without
Carol. -/
theorem stale_list : ∃ x : Config Conn Tables Phase Event,
    (server fun _ => true).Reach Any x ∧ Justified Delivered x.log ∧
      (∀ c, ¬ (x.thread c).Pending) ∧
      Dict.get x.memory.clients (str "alice") = some (0, demoKey) ∧
      Dict.keys x.memory.clients = [str "alice", str "bob", str "carol"] ∧
      (∃ v p, lastList 0 x.log = some (v, p) ∧
        (p.find (str "users")).texts = [str "alice", str "bob"]) ∧
      ¬ ∃ v, lastList 0 x.log = some (v, userList (Dict.keys x.memory.clients)) := by
  obtain ⟨x, hx, hp⟩ := exists_run_of_exec (P := server fun _ => true) overtaking
    (p := fun x => overtaking.all (fun a => (x.thread a.1).isLoop) &&
      decide (Dict.keys x.memory.clients = [str "alice", str "bob", str "carol"]) &&
      decide (Dict.get x.memory.clients (str "alice") = some (0, demoKey)) &&
      decide (Justified Delivered x.log) &&
      (lastList 0 x.log).any fun l =>
        decide ((Payload.find l.2 (str "users")).texts = [str "alice", str "bob"]))
    (by decide +kernel)
  simp only [Bool.and_eq_true, decide_eq_true_eq, List.all_eq_true] at hp
  obtain ⟨⟨⟨⟨hloop, hkeys⟩, hget⟩, hsent⟩, hlist⟩ := hp
  rcases hl : lastList 0 x.log with _ | ⟨v, p⟩
  · rw [hl] at hlist
    cases hlist
  · rw [hl] at hlist
    have htexts : (p.find (str "users")).texts = [str "alice", str "bob"] := of_decide_eq_true hlist
    refine ⟨x, ⟨_, hx⟩, hsent, quiet_of_isLoop hx hloop, hget, hkeys, ⟨v, p, hl, htexts⟩, ?_⟩
    rintro ⟨v', hv'⟩
    rw [hl] at hv'
    obtain ⟨-, rfl⟩ := Prod.mk.inj (Option.some.inj hv')
    rw [hkeys] at htexts
    exact absurd htexts (by decide)

end GuardedIM
