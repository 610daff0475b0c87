import Mathlib.Data.Set.Function
import GuardedIM.Requests

/-!
# A nonce authorises one update

`updates_authorised`: in every run in which nonces are fresh, the updates of `latest_ip`
can be matched one to one with the Phase 1 requests behind them.

Two invariants carry it. `Nonces` is about the store and the history: a stored nonce is
the last one issued to its user, and it has been neither taken nor purged. `Turns` is about
the threads: a thread on the way to an update has taken such a nonce in its last turn, and
no update came between.
-/

namespace GuardedIM.Control

open Interleave Interleave.Program

/-- The nonce that is taken or purged. -/
def Event.spend : Event → Option Bytes
  | .looked _ _ nonce _ => some nonce
  | .purged _ nonce => some nonce
  | _ => none

/-- The thread that takes a nonce or updates a row. -/
def Event.turn : Event → Option ℕ
  | .looked t _ _ _ => some t
  | .updated t _ _ => some t
  | _ => none

/-- The nonce of an issue was not issued before. -/
def Unrepeated (e : Event) (past : List Event) : Prop :=
  ∀ u nonce, e.issue = some (u, nonce) → ∀ e' ∈ past, ∀ u', e'.issue ≠ some (u', nonce)

/-- The last nonce issued to user `u` is `nonce`, at `time`, and it is still there. -/
def Unused (log : List Event) (u : ℕ) (nonce : Bytes) (time : ℕ) : Prop :=
  ∃ gap past t a, log = gap ++ .issued t u nonce a time :: past ∧
    (∀ e ∈ gap, ∀ nonce', e.issue ≠ some (u, nonce')) ∧ ∀ e ∈ log, e.spend ≠ some nonce

/-- What holds of the store and the history. -/
structure Nonces (store : Dict ℕ NonceEntry) (log : List Event) : Prop where
  /-- one nonce for each user -/
  nodup : (Dict.keys store).Nodup
  /-- nonces are issued once -/
  unique : Justified Unrepeated log
  /-- a nonce is issued before it is spent -/
  spent : ∀ e ∈ log, ∀ nonce, e.spend = some nonce →
    ∃ e' ∈ log, ∃ u, e'.issue = some (u, nonce)
  /-- a stored nonce is the last of its user and not spent -/
  stored : ∀ u entry, Dict.get store u = some entry →
    ∃ time, entry.expiry = time + nonceTTL ∧ Unused log u entry.val time

/-- The last turn of thread `t` took `nonce` from the store, and the issue that is event
number `k` of the history had put it there for user `u`: the last one for `u`, not spent and
not expired. -/
def Taken (log : List Event) (t u : ℕ) (nonce : Bytes) (k : ℕ) : Prop :=
  ∃ serving before gap past t' a issuedAt lookedAt,
    log = serving ++ .looked t u nonce lookedAt :: before ∧
    before = gap ++ .issued t' u nonce a issuedAt :: past ∧ past.length = k ∧
    (∀ e ∈ serving, e.turn ≠ some t) ∧
    (∀ e ∈ gap, ∀ nonce', e.issue ≠ some (u, nonce')) ∧
    (∀ e ∈ before, e.spend ≠ some nonce) ∧ lookedAt ≤ issuedAt + nonceTTL

/-- And a signature over that nonce has been accepted. -/
def Signed (log : List Event) (t u : ℕ) : Prop :=
  ∃ nonce pubKey sig k, Taken log t u nonce k ∧ .accepted t u pubKey nonce sig ∈ log

/-! ## The store -/

variable {E : Ed25519} {W : WgTypes} {t : ℕ} {g : Memory} {l : Task} {i : Input} {m : Left}
variable {store : Dict ℕ NonceEntry} {log : List Event}

/-- A nonce belongs to one user. -/
theorem issue_owner (h : Justified Unrepeated log) {e e' : Event} (he : e ∈ log) (he' : e' ∈ log)
    {u u' : ℕ} {nonce : Bytes} (hu : e.issue = some (u, nonce))
    (hu' : e'.issue = some (u', nonce)) : u = u' := by
  induction log with
  | nil => cases he
  | cons e₀ log ih =>
    rcases List.mem_cons.mp he with rfl | hmem
    · rcases List.mem_cons.mp he' with rfl | hmem'
      · rw [hu] at hu'
        exact (Prod.mk.inj (Option.some.inj hu')).1
      · exact absurd hu' (h.1 u nonce hu e' hmem' u')
    · rcases List.mem_cons.mp he' with rfl | hmem'
      · exact absurd hu (h.1 u' nonce hu' e hmem u)
      · exact ih h.2 hmem hmem'

theorem Unused.issued {u : ℕ} {nonce : Bytes} {time : ℕ} (h : Unused log u nonce time) :
    ∃ e ∈ log, e.issue = some (u, nonce) := by
  obtain ⟨gap, past, t, a, rfl, -, -⟩ := h
  exact ⟨_, List.mem_append_right _ (List.mem_cons_self ..), rfl⟩

/-- Two users have different nonces in the store. -/
theorem Nonces.owner (h : Nonces store log) {u u' : ℕ} {entry entry' : NonceEntry}
    (hu : Dict.get store u = some entry) (hu' : Dict.get store u' = some entry')
    (hval : entry.val = entry'.val) : u = u' := by
  obtain ⟨_, -, hunused⟩ := h.stored u entry hu
  obtain ⟨_, -, hunused'⟩ := h.stored u' entry' hu'
  obtain ⟨e, he, hissue⟩ := hunused.issued
  obtain ⟨e', he', hissue'⟩ := hunused'.issued
  exact issue_owner h.unique he he' hissue (hval ▸ hissue')

/-- Steps that issue nothing and remove from the store what they spend. -/
theorem Nonces.keep (h : Nonces store log) (es : List Event) {store' : Dict ℕ NonceEntry}
    (hnodup : (Dict.keys store').Nodup) (hissue : ∀ e ∈ es, e.issue = none)
    (hspend : ∀ e ∈ es, ∀ nonce, e.spend = some nonce →
      ∃ u entry, Dict.get store u = some entry ∧ entry.val = nonce)
    (hstore : ∀ u entry, Dict.get store' u = some entry →
      Dict.get store u = some entry ∧ ∀ e ∈ es, e.spend ≠ some entry.val) :
    Nonces store' (es ++ log) := by
  refine ⟨hnodup, ?_, ?_, ?_⟩
  · apply Justified.append_of_forall _ h.unique
    intro e he past u nonce hu
    rw [hissue e he] at hu
    cases hu
  · intro e he nonce hnonce
    rcases List.mem_append.mp he with he | he
    · obtain ⟨u, entry, hget, rfl⟩ := hspend e he nonce hnonce
      obtain ⟨_, -, hunused⟩ := h.stored u entry hget
      obtain ⟨e', he', hissue'⟩ := hunused.issued
      exact ⟨e', List.mem_append_right _ he', u, hissue'⟩
    · obtain ⟨e', he', hissue'⟩ := h.spent e he nonce hnonce
      exact ⟨e', List.mem_append_right _ he', hissue'⟩
  · intro u entry hget
    obtain ⟨hget, hfree⟩ := hstore u entry hget
    obtain ⟨time, htime, gap, past, t, a, rfl, hgap, hlog⟩ := h.stored u entry hget
    refine ⟨time, htime, es ++ gap, past, t, a, (List.append_assoc ..).symm, ?_, ?_⟩
    · intro e he nonce'
      rcases List.mem_append.mp he with he | he
      · rw [hissue e he]
        simp
      · exact hgap e he nonce'
    · intro e he
      rcases List.mem_append.mp he with he | he
      · exact hfree e he
      · exact hlog e he

/-- Steps that neither issue nor spend. -/
theorem Nonces.quiet (h : Nonces store log) (es : List Event)
    (hes : ∀ e ∈ es, e.issue = none ∧ e.spend = none) :
    Nonces store (es ++ log) := by
  apply h.keep es h.nodup (fun e he => (hes e he).1)
  · intro e he nonce hnonce
    rw [(hes e he).2] at hnonce
    cases hnonce
  · intro u entry hget
    refine ⟨hget, fun e he => ?_⟩
    rw [(hes e he).2]
    simp

/-- Phase 1 stores a fresh nonce in the place of an older one. -/
theorem Nonces.issue (h : Nonces store log) (t u time : ℕ) (a : Bytes) {nonce : Bytes}
    (hfresh : ∀ e ∈ log, ∀ u', e.issue ≠ some (u', nonce)) :
    Nonces (Dict.set store u ⟨nonce, time + nonceTTL⟩) (.issued t u nonce a time :: log) := by
  have hunspent : ∀ e ∈ log, e.spend ≠ some nonce := by
    intro e he hspend
    obtain ⟨e', he', u', hissue⟩ := h.spent e he nonce hspend
    exact hfresh e' he' u' hissue
  refine ⟨Dict.nodup_keys_set h.nodup _ _, ⟨?_, h.unique⟩, ?_, ?_⟩
  · intro u' nonce' hissue
    obtain ⟨rfl, rfl⟩ := Prod.mk.inj (Option.some.inj hissue)
    exact hfresh
  · intro e he nonce' hspend
    rcases List.mem_cons.mp he with rfl | he
    · cases hspend
    · obtain ⟨e', he', hissue⟩ := h.spent e he nonce' hspend
      exact ⟨e', List.mem_cons_of_mem _ he', hissue⟩
  · intro u' entry hget
    rw [Dict.get_set] at hget
    split_ifs at hget with hu
    · obtain rfl := Option.some.inj hget
      refine ⟨time, rfl, [], log, t, a, by rw [hu]; rfl, List.forall_mem_nil _, ?_⟩
      intro e he
      rcases List.mem_cons.mp he with rfl | he
      · simp [Event.spend]
      · exact hunspent e he
    · obtain ⟨time', htime, gap, past, t', a', rfl, hgap, hlog⟩ := h.stored u' entry hget
      refine ⟨time', htime, _ :: gap, past, t', a', rfl, ?_, ?_⟩
      · intro e he nonce'
        rcases List.mem_cons.mp he with rfl | he
        · simp [Event.issue, Ne.symm hu]
        · exact hgap e he nonce'
      · intro e he
        rcases List.mem_cons.mp he with rfl | he
        · simp [Event.spend]
        · exact hlog e he

/-- Phase 2 takes a nonce. -/
theorem Nonces.look (h : Nonces store log) {u time : ℕ} {entry : NonceEntry}
    (hget : Dict.get store u = some entry) :
    Nonces (Dict.erase store u) (.looked t u entry.val time :: log) := by
  apply h.keep [.looked t u entry.val time] (Dict.nodup_keys_filter h.nodup _)
  · simp [Event.issue]
  · intro e he nonce hspend
    obtain rfl := List.mem_singleton.mp he
    exact ⟨u, entry, hget, Option.some.inj hspend⟩
  · intro u' entry' hget'
    have hget₂ : Dict.get (Dict.erase store u) u' = some entry' := hget'
    rw [Dict.get_erase] at hget₂
    split_ifs at hget₂ with hu
    refine ⟨hget₂, fun e he hspend => ?_⟩
    obtain rfl := List.mem_singleton.mp he
    exact hu (h.owner hget₂ hget (Option.some.inj hspend).symm)

/-- The purge removes the nonces that had expired. -/
theorem Nonces.purge (h : Nonces g.store log) (now : ℕ) :
    Nonces (purge g now).1.store ((purge g now).2.2 ++ log) := by
  have hget : ∀ u entry, Dict.get (g.store.filter fun e => ¬ e.2.expiry < now) u = some entry →
      Dict.get g.store u = some entry ∧ ¬ entry.expiry < now := by
    intro u entry hget
    have hmem := Dict.mem_of_get hget
    rw [List.mem_filter] at hmem
    exact ⟨Dict.get_of_mem h.nodup hmem.1, by simpa using hmem.2⟩
  have hevents : ∀ e ∈ (Control.purge g now).2.2, ∃ u entry, Dict.get g.store u = some entry ∧
      entry.expiry < now ∧ e = .purged u entry.val := by
    intro e he
    obtain ⟨⟨u, entry⟩, hmem, rfl⟩ := List.mem_map.mp he
    rw [List.mem_filter] at hmem
    exact ⟨u, entry, Dict.get_of_mem h.nodup hmem.1, by simpa using hmem.2, rfl⟩
  apply h.keep _ (Dict.nodup_keys_filter h.nodup _)
  · intro e he
    obtain ⟨u, entry, -, -, rfl⟩ := hevents e he
    rfl
  · intro e he nonce hspend
    obtain ⟨u, entry, hu, -, rfl⟩ := hevents e he
    exact ⟨u, entry, hu, Option.some.inj hspend⟩
  · intro u entry hu
    obtain ⟨hu, hfresh⟩ := hget u entry hu
    refine ⟨hu, fun e he hspend => ?_⟩
    obtain ⟨u', entry', hu', hstale, rfl⟩ := hevents e he
    obtain rfl := h.owner hu' hu (Option.some.inj hspend)
    rw [hu] at hu'
    exact hfresh (Option.some.inj hu' ▸ hstale)

/-- **The store holds the last unspent nonces.** -/
theorem nonces_reach {x : Config ℕ Memory Task Event} (h : (control E W).Reach Fresh x) :
    Nonces x.memory.store x.log := by
  apply h.invariant (I := fun x => Nonces x.memory.store x.log)
  · exact ⟨List.nodup_nil, trivial, (fun e he => nomatch he), fun _ _ hget => nomatch hget⟩
  · intro z t i m _ hz hfresh hm
    have hmoves := control_moves hm
    generalize z.thread t = l at hmoves
    cases hmoves with
    | issue r nonce =>
      have hissue := hz.issue t r.userID z.memory.now r.ipAddress (hfresh nonce rfl)
      exact hissue.quiet [_] (by simp [Event.issue, Event.spend])
    | look r entry hget _ => exact hz.look hget
    | purge now => exact hz.purge now
    | _ => exact hz.quiet _ (by simp [reply, Event.issue, Event.spend])

/-! ## Turns -/

/-- What the last turn of thread `t` was. -/
structure Turn (log : List Event) (t : ℕ) (l : Task) : Prop where
  /-- a thread with a nonce took it -/
  taken : ∀ r nonce, l = .taken r nonce → ∃ k, Taken log t r.userID nonce k
  /-- and a thread whose signature was accepted signed it -/
  signed : ∀ r, l = .verified r ∨ l = .free r → Signed log t r.userID

theorem Event.thread_of_turn {e : Event} (h : e.turn = some t) : e.thread = some t := by
  cases e with
  | looked t' u nonce time => exact h
  | updated t' u a => exact h
  | _ => cases h

theorem Taken.append {u k : ℕ} {nonce : Bytes} (h : Taken log t u nonce k) (es : List Event)
    (hes : ∀ e ∈ es, e.turn ≠ some t) : Taken (es ++ log) t u nonce k := by
  obtain ⟨serving, before, gap, past, t', a, issuedAt, lookedAt, rfl, hbefore, hk, hserving, hgap,
    hspend, htime⟩ := h
  refine ⟨es ++ serving, before, gap, past, t', a, issuedAt, lookedAt,
    (List.append_assoc ..).symm, hbefore, hk, ?_, hgap, hspend, htime⟩
  intro e he
  rcases List.mem_append.mp he with he | he
  · exact hes e he
  · exact hserving e he

theorem Turn.append (h : Turn log t l) {es : List Event} (hes : ∀ e ∈ es, e.turn ≠ some t) :
    Turn (es ++ log) t l := by
  refine ⟨fun r nonce hl => ?_, fun r hl => ?_⟩
  · obtain ⟨k, hk⟩ := h.taken r nonce hl
    exact ⟨k, hk.append es hes⟩
  · obtain ⟨nonce, pubKey, sig, k, hk, haccepted⟩ := h.signed r hl
    exact ⟨nonce, pubKey, sig, k, hk.append es hes, List.mem_append_right _ haccepted⟩

theorem Turn.rest (hl : l.request = none) : Turn log t l := by
  refine ⟨fun r nonce hl' => ?_, fun r hl' => ?_⟩
  · rw [hl'] at hl
    cases hl
  · rcases hl' with rfl | rfl
    all_goals cases hl

/-- The lookup of the last unspent nonce. -/
theorem Unused.look {u time now : ℕ} {nonce : Bytes} (h : Unused log u nonce time)
    (htime : now ≤ time + nonceTTL) :
    ∃ k, Taken (.looked t u nonce now :: log) t u nonce k := by
  obtain ⟨gap, past, t', a, hlog, hgap, hspend⟩ := h
  exact ⟨past.length, [], log, gap, past, t', a, time, now, rfl, hlog, rfl,
    (fun e he => nomatch he), hgap, hspend, htime⟩

/-- What the last turn of the thread that moves was afterwards. -/
theorem Moves.turns (h : Moves E W t g l i m) (hl : Turn log t l) (hg : Nonces g.store log) :
    Turn (m.2.2 ++ log) t m.2.1 := by
  cases h with
  | look r entry hget htime =>
    obtain ⟨time, hexpiry, hunused⟩ := hg.stored _ _ hget
    refine ⟨fun r' nonce hl' => ?_, fun r' hl' => by simp at hl'⟩
    obtain ⟨rfl, rfl⟩ := Task.taken.inj hl'
    exact hunused.look (hexpiry ▸ htime)
  | accept r nonce sig pubKey hsig hkey hverify =>
    refine ⟨(fun r' nonce' hl' => nomatch hl'), fun r' hl' => ?_⟩
    obtain rfl : r = r' := by simpa using hl'
    obtain ⟨k, hk⟩ := hl.taken r nonce rfl
    refine ⟨nonce, pubKey, sig, k, hk.append [_] ?_, List.mem_cons_self ..⟩
    simp [Event.turn]
  | free r =>
    refine ⟨(fun r' nonce' hl' => nomatch hl'), fun r' hl' => ?_⟩
    obtain rfl : r = r' := by simpa using hl'
    exact hl.signed r (.inl rfl)
  | ask r l' hip hl' =>
    rcases hl' with rfl | rfl
    all_goals exact ⟨(fun r' nonce' hl' => nomatch hl'), fun r' hl' => by simp at hl'⟩
  | _ => exact .rest rfl

theorem turn_reach {x : Config ℕ Memory Task Event} (h : (control E W).Reach Fresh x) (t : ℕ) :
    Turn x.log t (x.thread t) := by
  suffices hall : ∀ t, Turn x.log t (x.thread t) from hall t
  apply h.invariant (I := fun x => ∀ t, Turn x.log t (x.thread t))
  · intro t
    exact .rest rfl
  · intro z t₀ i m hreach hz _ hm t
    have hmoves := control_moves hm
    rw [after_log]
    by_cases ht : t = t₀
    · subst ht
      rw [after_thread_self]
      exact hmoves.turns (hz t) (nonces_reach hreach)
    · rw [after_thread_ne _ _ ht]
      apply (hz t).append
      intro e he hturn
      exact ht (hmoves.thread e he t (Event.thread_of_turn hturn))

/-- Before every update, its thread had taken and signed a nonce. -/
theorem signed_reach {x : Config ℕ Memory Task Event} (h : (control E W).Reach Fresh x) :
    UpdatesMeet (fun past t u _ => Signed past t u) x.log := by
  apply h.invariant (I := fun x => UpdatesMeet _ x.log) trivial
  intro z t i m hreach hz _ hm
  apply (control_moves hm).updates hz
  intro r hr
  exact (turn_reach hreach t).signed r (.inr hr)

/-- Two updates with one issue behind them are one update. -/
theorem Taken.update_inj {past past' : List Event} {t t' u u' k : ℕ} {a a' nonce nonce' : Bytes}
    (hs : .updated t u a :: past <:+ log) (hs' : .updated t' u' a' :: past' <:+ log)
    (h : Taken past t u nonce k) (h' : Taken past' t' u' nonce' k) : past = past' := by
  obtain ⟨serving, before, gap, issue, t₁, a₁, issuedAt, lookedAt, rfl, hbefore, hk, hserving, -,
    hspend, -⟩ := h
  obtain ⟨serving', before', gap', issue', t₁', a₁', issuedAt', lookedAt', rfl, hbefore', hk',
    hserving', -, hspend', -⟩ := h'
  have hlook : .looked t u nonce lookedAt :: before <:+ log :=
    ((List.suffix_append _ _).trans (List.suffix_cons _ _)).trans hs
  have hlook' : .looked t' u' nonce' lookedAt' :: before' <:+ log :=
    ((List.suffix_append _ _).trans (List.suffix_cons _ _)).trans hs'
  -- one issue, so one nonce
  have hissue : .issued t₁ u nonce a₁ issuedAt :: issue <:+ log :=
    (hbefore ▸ List.suffix_append _ _).trans ((List.suffix_cons _ _).trans hlook)
  have hissue' : .issued t₁' u' nonce' a₁' issuedAt' :: issue' <:+ log :=
    (hbefore' ▸ List.suffix_append _ _).trans ((List.suffix_cons _ _).trans hlook')
  have hnonce : nonce = nonce' := by
    rcases suffix_trichotomy hissue hissue' with ⟨heq, -⟩ | hlt | hlt
    · exact (Event.issued.inj heq).2.2.1
    · have := hlt.length_le
      rw [List.length_cons] at this
      omega
    · have := hlt.length_le
      rw [List.length_cons] at this
      omega
  subst hnonce
  -- one lookup of that nonce
  obtain ⟨heq, rfl⟩ : Event.looked t u nonce lookedAt = .looked t' u' nonce lookedAt' ∧
      before = before' := by
    rcases suffix_trichotomy hlook hlook' with heq | hlt | hlt
    · exact heq
    · exact absurd rfl (hspend' _ (hlt.subset (List.mem_cons_self ..)))
    · exact absurd rfl (hspend _ (hlt.subset (List.mem_cons_self ..)))
  obtain rfl : t = t' := (Event.looked.inj heq).1
  -- one update since then
  rcases suffix_trichotomy hs hs' with ⟨-, heq⟩ | hlt | hlt
  · exact heq
  · exact absurd rfl (hserving' _ (mem_of_suffix_append hlt (by simp)))
  · exact absurd rfl (hserving _ (mem_of_suffix_append hlt (by simp)))

/-! ## Rows -/

/-- The address stored for a user. -/
def Memory.userIp (g : Memory) (u : ℕ) : Option Bytes :=
  (g.db.users.find? fun row => row.userID = u).map (·.latestIp)

/-- The address last written for a user. -/
def lastIp (u : ℕ) (log : List Event) : Option Bytes :=
  log.findSome? fun
    | .updated _ u' a => if u' = u then some a else none
    | .added u' a => if u' = u then some a else none
    | _ => none

/-- Every step writes the rows its events name, and no others. -/
theorem Moves.writes (h : Moves E W t g l i m) (hg : ∀ u, g.userIp u = lastIp u log)
    (hrow : ∀ r, l = .free r → (g.userIp r.userID).isSome) (u : ℕ) :
    m.1.userIp u = lastIp u (m.2.2 ++ log) := by
  cases h with
  | update r o ρ users n hupdate =>
    have hlast : lastIp u ([.replied t ρ, .updated t r.userID r.ipAddress] ++ log) =
        if r.userID = u then some r.ipAddress else lastIp u log := by
      by_cases hu : r.userID = u
      · simp [lastIp, hu]
      · simp [lastIp, hu]
    rw [hlast, Memory.userIp, Table.find?_update hupdate (fun _ => rfl), Option.map_map]
    split_ifs with hu
    · obtain ⟨row, hfind, -⟩ := Option.map_eq_some_iff.mp (Option.isSome_iff_exists.mp
        (hrow r rfl)).choose_spec
      have hid : decide (row.userID = r.userID) = true := (Table.of_find? hfind).2
      rw [← hu, hfind, Option.map_some, Function.comp_apply, if_pos hid]
    · rw [← hg u, Memory.userIp]
      apply Option.map_congr
      intro row hfind
      have hid : row.userID = u := of_decide_eq_true (Table.of_find? hfind).2
      have hne : ¬ decide (row.userID = r.userID) = true := by
        rw [decide_eq_true_eq, hid]
        exact Ne.symm hu
      rw [Function.comp_apply, if_neg hne]
  | addUser a id o a' row users hcmd hrow' hinsert =>
    have hlast : lastIp u ([.added row.userID row.latestIp] ++ log) =
        if row.userID = u then some row.latestIp else lastIp u log := by
      by_cases hu : row.userID = u
      · simp [lastIp, hu]
      · simp [lastIp, hu]
    rw [hlast, ← hg u, Memory.userIp, Memory.userIp, Table.find?_insert hinsert]
    split_ifs with hid hu
    · have hnone : (g.db.users.find? fun row => row.userID = u) = none := by
        apply List.find?_eq_none.mpr
        intro r hr hru
        apply Table.insert_free hinsert hr
        exact .inl ((of_decide_eq_true hru).trans hu.symm)
      rw [hnone]
      rfl
    · exact absurd (of_decide_eq_true hid) hu
    · exact absurd (decide_eq_true ‹_›) hid
    · rw [Option.or_none]
  | purge now =>
    rw [lastIp, List.findSome?_append, List.findSome?_eq_none_iff.mpr, Option.none_or]
    · exact hg u
    · intro e he
      obtain ⟨e', -, rfl⟩ := List.mem_map.mp he
      rfl
  | _ => exact hg u

/-- **A stored address is the one last written for that user.** -/
theorem userIp_reach {C : Config ℕ Memory Task Event → ℕ × Input → Prop}
    {x : Config ℕ Memory Task Event} (h : (control E W).Reach C x) (u : ℕ) :
    x.memory.userIp u = lastIp u x.log := by
  suffices hall : ∀ u, x.memory.userIp u = lastIp u x.log from hall u
  apply h.invariant (I := fun x => ∀ u, x.memory.userIp u = lastIp u x.log)
  · intro u
    rfl
  · intro z t i m hreach hz _ hm u
    apply (control_moves hm).writes hz
    intro r hr
    obtain ⟨nonce, pubKey, sig, -, -, -, haccepted⟩ := (serving_reach hreach t).signed r (.inr hr)
    obtain ⟨hkey, -⟩ := accepted_reach hreach _ _ _ _ _ haccepted
    obtain ⟨row, hfind, -⟩ := Option.map_eq_some_iff.mp hkey
    rw [Memory.userIp, hfind]
    rfl

/-! ## The matching -/

/-- The issue that is event number `k` authorises an update of the row of `u` by thread `t`
after `log`: see `Taken`; and the signature that was accepted for the nonce is genuine under
the key stored for `u`. -/
def Authorised (E : Ed25519) (g : Memory) (log : List Event) (t u k : ℕ) : Prop :=
  ∃ nonce pubKey sig, Taken log t u nonce k ∧ .accepted t u pubKey nonce sig ∈ log ∧
    g.userKey u = some pubKey ∧ ∃ key, E.pub key = pubKey ∧ E.sign key nonce = sig

/-- Event number `k` of the history is an update. -/
def IsUpdate (log : List Event) (k : ℕ) : Prop :=
  ∃ later past t u a, log = later ++ .updated t u a :: past ∧ past.length = k

theorem authorised_reach {x : Config ℕ Memory Task Event} (h : (control E W).Reach Fresh x)
    {later past : List Event} {t u : ℕ} {a : Bytes}
    (hlog : x.log = later ++ .updated t u a :: past) :
    ∃ k, Authorised E x.memory past t u k := by
  have hmeet := signed_reach h
  rw [hlog] at hmeet
  obtain ⟨nonce, pubKey, sig, k, htaken, haccepted⟩ := hmeet.at t u a rfl
  have hmem : .accepted t u pubKey nonce sig ∈ x.log := by
    rw [hlog]
    exact List.mem_append_right _ (List.mem_cons_of_mem _ haccepted)
  obtain ⟨hkey, hgenuine⟩ := accepted_reach h _ _ _ _ _ hmem
  exact ⟨k, nonce, pubKey, sig, htaken, haccepted, hkey, hgenuine⟩

/-- **A nonce authorises one update.** When nonces are fresh, there is a matching of the
updates with the issues behind them, different ones for different updates; and the rows are
what the updates say. -/
theorem updates_authorised {x : Config ℕ Memory Task Event} (h : (control E W).Reach Fresh x) :
    ∃ issueOf : ℕ → ℕ,
      (∀ later past t u a, x.log = later ++ .updated t u a :: past →
        Authorised E x.memory past t u (issueOf past.length)) ∧
      Set.InjOn issueOf {k | IsUpdate x.log k} ∧
      ∀ u, x.memory.userIp u = lastIp u x.log := by
  have hissue : ∀ k, ∃ j, ∀ later past t u a, x.log = later ++ .updated t u a :: past →
      past.length = k → Authorised E x.memory past t u j := by
    intro k
    by_cases hk : IsUpdate x.log k
    · obtain ⟨later, past, t, u, a, hlog, rfl⟩ := hk
      obtain ⟨j, hj⟩ := authorised_reach h hlog
      refine ⟨j, fun later' past' t' u' a' hlog' hlen => ?_⟩
      have hsame := List.append_inj' (hlog.symm.trans hlog') (by simp [hlen])
      obtain ⟨heq, rfl⟩ := List.cons.inj hsame.2
      obtain ⟨rfl, rfl, rfl⟩ := Event.updated.inj heq
      exact hj
    · exact ⟨0, fun later past t u a hlog hlen => absurd ⟨later, past, t, u, a, hlog, hlen⟩ hk⟩
  choose issueOf hissueOf using hissue
  refine ⟨issueOf, fun later past t u a hlog => hissueOf _ later past t u a hlog rfl, ?_,
    userIp_reach h⟩
  rintro _ ⟨later, past, t, u, a, hlog, rfl⟩ _ ⟨later', past', t', u', a', hlog', rfl⟩ heq
  obtain ⟨nonce, -, -, htaken, -⟩ := hissueOf _ later past t u a hlog rfl
  obtain ⟨nonce', -, -, htaken', -⟩ := hissueOf _ later' past' t' u' a' hlog' rfl
  rw [← heq] at htaken'
  have hpast := htaken.update_inj ⟨later, hlog.symm⟩ ⟨later', hlog'.symm⟩ htaken'
  rw [hpast]

/-- The update of Alice's run is authorised. -/
theorem updates_authorised_alice : ∃ x reply past k,
    (control demoEd25519 demoWgTypes).Reach Fresh x ∧
    x.log = [reply] ++ .updated 0 1 (ascii "10.0.0.7") :: past ∧
    Authorised demoEd25519 x.memory past 0 1 k := by
  obtain ⟨x, reply, past, hx, hlog, -, -⟩ := twoAddresses_log
  obtain ⟨issueOf, hauthorised, -, -⟩ := updates_authorised hx
  exact ⟨x, reply, past, _, hx, hlog, hauthorised _ _ _ _ _ hlog⟩

end GuardedIM.Control
