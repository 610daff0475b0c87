import Mathlib.Data.List.Forall2
import GuardedIM.Fanout

/-!
# In order, and once

A handler reads one request after the other, and between two of them it writes to any number of
connections, while the other handlers do the same. `asked` and `passedOn` pick what one handler
read, and what it passed on to one connection, out of the history.

* `Phase.Fresh`: while a handler works on a request it has, for every connection, not written to it
  for this request yet, or is through with it. The second is where the member lists come in: they
  have no duplicates, and a connection has one name.
* `passed_on_in_order`: what one client gets from another is a subsequence of what the other asked
  for, request by request.
-/

namespace GuardedIM

open Interleave Interleave.Program List

/-- What the handler of `c` has read, newest first. -/
def asked (c : Conn) (log : List Event) : List Payload := log.filterMap (Event.request c)

/-- A text or a file that the event passes on from `c` to `d`. -/
def Event.passedOn (c d : Conn) : Event → Option Payload
  | .wrote c' t p _ =>
    if c' = c ∧ t.1 = d ∧ ((p.find (str "type")).isStr (str "message") ||
      (p.find (str "type")).isStr (str "group_message") ||
      (p.find (str "type")).isStr (str "message_file") ||
      (p.find (str "type")).isStr (str "group_file")) = true
    then some p else none
  | _ => none

/-- What the handler of `c` has passed on to `d`, newest first. -/
def passedOn (c d : Conn) (log : List Event) : List Payload := log.filterMap (Event.passedOn c d)

/-- The payload is what the request asked to be passed on. -/
def Yields (printable : CodePoint → Bool) (p o : Payload) : Prop :=
  ∃ username now a, Passes printable username now o a ∧
    ((∃ g, a = .fanOut g p) ∨ ∃ u, a = .forward u p)

/-- Payloads and requests, in the same order; some requests have none. -/
abbrev KeepsOrder (printable : CodePoint → Bool) : List Payload → List Payload → Prop :=
  SublistForall₂ (Yields printable)

variable {printable : CodePoint → Bool} {c d : Conn} {tb tb' : Tables} {ph ph' : Phase}
  {es log : List Event} {p : Payload} {t : Target} {ok : Bool}

theorem isForwarded_iff : ((p.find (str "type")).isStr (str "message") ||
    (p.find (str "type")).isStr (str "group_message") ||
    (p.find (str "type")).isStr (str "message_file") ||
    (p.find (str "type")).isStr (str "group_file")) = true ↔ p.IsForwarded := by
  simp only [Bool.or_eq_true, Json.isStr_iff]
  constructor
  · rintro (((h | h) | h) | h)
    · exact ⟨_, h, .message⟩
    · exact ⟨_, h, .groupMessage⟩
    · exact ⟨_, h, .messageFile⟩
    · exact ⟨_, h, .groupFile⟩
  · rintro ⟨t, ht, hf⟩
    cases hf with
    | message => exact .inl (.inl (.inl ht))
    | groupMessage => exact .inl (.inl (.inr ht))
    | messageFile => exact .inl (.inr ht)
    | groupFile => exact .inr ht

/-- The current request is the last that was asked. -/
theorem current_eq_head (c : Conn) (log : List Event) : current log c = (asked c log).head? := by
  rw [asked, head?_filterMap, current]

theorem asked_append (es log : List Event) : asked c (es ++ log) = asked c es ++ asked c log :=
  filterMap_append

theorem passedOn_append (es log : List Event) :
    passedOn c d (es ++ log) = passedOn c d es ++ passedOn c d log := filterMap_append

/-- What is passed on elsewhere, or is not passed on, does not count. -/
theorem passedOn_eq_nil (h : ∀ t p ok, .wrote c t p ok ∈ es → t.1 = d → ¬ p.IsForwarded) :
    passedOn c d es = [] := by
  rw [passedOn, filterMap_eq_nil_iff]
  intro e he
  cases e with
  | wrote c' t p ok =>
    rw [Event.passedOn, if_neg]
    rintro ⟨rfl, hd, hp⟩
    exact h t p ok he hd (isForwarded_iff.mp hp)
  | _ => rfl

/-- A forwarded payload that was written counts as passed on. -/
theorem passedOn_wrote (ht : t.1 = d) (hp : p.IsForwarded) :
    passedOn c d [.wrote c t p ok] = [p] := by
  have h : Event.passedOn c d (.wrote c t p ok) = some p :=
    if_pos ⟨rfl, ht, isForwarded_iff.mpr hp⟩
  simp [passedOn, h]

/-! ## One request -/

/-- Nothing has been passed on to `d` for the request that the handler of `c` is working on. -/
def Unserved (printable : CodePoint → Bool) (c d : Conn) (log : List Event) : Prop :=
  ∃ o rest, asked c log = o :: rest ∧ KeepsOrder printable (passedOn c d log) rest

/-- `d` has a name, and it is not among those that are left. -/
def Past (d : Conn) (log : List Event) (ms : List Str) : Prop :=
  ∃ k u, .registered d ⟨k, u⟩ ∈ log ∧ u ∉ ms

/-- What the position of the handler of `c` says about what it passes on to `d`. -/
def Phase.Fresh (printable : CodePoint → Bool) (c d : Conn) (log : List Event) : Phase → Prop
  | .act _ a => (∃ q, a = .reply q) ∨ Unserved printable c d log
  | .forwardTo _ _ _ => Unserved printable c d log
  | .cast _ ms p _ => p.IsForwarded → ms.Nodup ∧ (Unserved printable c d log ∨ Past d log ms)
  | .castTo _ t ms p _ => p.IsForwarded → ms.Nodup ∧ Past t.1 log ms ∧
    (Unserved printable c d log ∨ t.1 ≠ d ∧ Past d log ms)
  | _ => True

/-- A member that was written to stays so. -/
theorem Past.append {ms : List Str} (h : Past d log ms) (es : List Event) :
    Past d (es ++ log) ms := by
  obtain ⟨k, u, hu, hms⟩ := h
  exact ⟨k, u, mem_append_right _ hu, hms⟩

theorem Past.tail {m : Str} {ms : List Str} (h : Past d log (m :: ms)) : Past d log ms := by
  obtain ⟨k, u, hu, hms⟩ := h
  exact ⟨k, u, hu, fun hmem => hms (mem_cons_of_mem _ hmem)⟩

/-- Events that neither read nor pass anything on. -/
theorem Unserved.append (h : Unserved printable c d log) (hasked : asked c es = [])
    (hpassed : passedOn c d es = []) : Unserved printable c d (es ++ log) := by
  obtain ⟨o, rest, ho, hrest⟩ := h
  exact ⟨o, rest, by rw [asked_append, hasked, nil_append, ho],
    by rwa [passedOn_append, hpassed, nil_append]⟩

theorem Phase.Fresh.append (h : ph.Fresh printable c d log) (hasked : asked c es = [])
    (hpassed : passedOn c d es = []) : ph.Fresh printable c d (es ++ log) := by
  cases ph with
  | act σ a => exact h.imp_right (·.append hasked hpassed)
  | forwardTo σ t p => exact Unserved.append h hasked hpassed
  | cast σ ms p ack =>
    intro hp
    obtain ⟨hnodup, hd⟩ := h hp
    exact ⟨hnodup, hd.imp (·.append hasked hpassed) (·.append es)⟩
  | castTo σ t ms p ack =>
    intro hp
    obtain ⟨hnodup, ht, hd⟩ := h hp
    exact ⟨hnodup, ht.append es, hd.imp (·.append hasked hpassed) (·.imp_right (·.append es))⟩
  | _ => trivial

/-- What is fanned out comes from the current request. -/
theorem FannedOut.yields {σ : Session} {ms : List Str} {o : Payload}
    (h : FannedOut printable c log σ p ms) (hp : p.IsForwarded) (ho : current log c = some o) :
    Yields printable p o := by
  rcases h with h | ⟨o', now, g, stored, ho', hpass, -⟩
  · exact absurd hp h.not_forwarded
  · obtain rfl := Option.some.inj (ho'.symm.trans ho)
    exact ⟨σ.name, now, _, hpass, .inl ⟨g, rfl⟩⟩

/-- A step that neither reads nor passes anything on. -/
theorem KeepsOrder.silent (ph : Phase) (h : KeepsOrder printable (passedOn c d log) (asked c log))
    (hph : ph.Fresh printable c d log) (hasked : asked c es = []) (hpassed : passedOn c d es = []) :
    KeepsOrder printable (passedOn c d (es ++ log)) (asked c (es ++ log)) ∧
      ph.Fresh printable c d (es ++ log) := by
  refine ⟨?_, hph.append hasked hpassed⟩
  rwa [asked_append, passedOn_append, hasked, hpassed, nil_append, nil_append]

/-- The copy for `d` of a request that has not been served. -/
theorem Unserved.serve (h : Unserved printable c d log) (ok : Bool) (ht : t.1 = d)
    (hp : p.IsForwarded) (hyields : ∀ o, current log c = some o → Yields printable p o) :
    KeepsOrder printable (passedOn c d ([.wrote c t p ok] ++ log))
      (asked c ([.wrote c t p ok] ++ log)) := by
  obtain ⟨o, rest, ho, hrest⟩ := h
  have hcurrent : current log c = some o := by rw [current_eq_head, ho, head?_cons]
  rw [asked_append, passedOn_append, passedOn_wrote ht hp, ho]
  exact .cons (hyields o hcurrent) hrest

/-- A write to another one does not count. -/
theorem passedOn_other (h : t.1 ≠ d ∨ ¬ p.IsForwarded) :
    passedOn c d [.wrote c t p ok] = [] := by
  refine passedOn_eq_nil fun t' p' ok' he ht' => ?_
  obtain ⟨⟩ := mem_singleton.mp he
  exact h.resolve_left (not_not_intro ht')

/-- **One step keeps the order.** -/
theorem Moves.keepsOrder (h : Moves printable c tb ph tb' ph' es)
    (hreq : ph.Request printable c log) (hph : ph.Fresh printable c d log)
    (hin : KeepsOrder printable (passedOn c d log) (asked c log))
    (hclients : ∀ u t, Dict.get tb.clients u = some t → .registered t.1 ⟨t.2, u⟩ ∈ log)
    (honce : ∀ σ σ', .registered d σ ∈ log → .registered d σ' ∈ log → σ = σ')
    (hgroups : ∀ g ms, Dict.get tb.groups g = some ms → ms.Nodup) :
    KeepsOrder printable (passedOn c d (es ++ log)) (asked c (es ++ log)) ∧
      ph'.Fresh printable c d (es ++ log) := by
  cases h with
  | request σ o now a ha =>
    have hasked : asked c ([.frame c o] ++ log) = o :: asked c log := by
      simp [asked, Event.request]
    have hpassed : passedOn c d ([.frame c o] ++ log) = passedOn c d log := rfl
    rw [hasked, hpassed]
    exact ⟨.cons_right hin, .inr ⟨o, asked c log, hasked, hpassed ▸ hin⟩⟩
  | raises σ o =>
    have hasked : asked c ([.frame c o] ++ log) = o :: asked c log := by
      simp [asked, Event.request]
    rw [hasked]
    exact ⟨.cons_right hin, trivial⟩
  | refuse | duplicate =>
    exact hin.silent (.cleanup _) trivial rfl
      (passedOn_other (.inr (Answer.error _).not_forwarded))
  | sendFirst σ users =>
    exact hin.silent (.broadcast _) trivial rfl
      (passedOn_other (.inr (userList_not_forwarded users)))
  | list so users t ts =>
    exact hin.silent (.listing _ _ _) trivial rfl
      (passedOn_other (.inr (userList_not_forwarded users)))
  | reply σ p =>
    refine hin.silent (.loop σ) trivial rfl (passedOn_other (.inr ?_))
    obtain ⟨_, ⟨⟩, hanswer⟩ | ⟨o, now, -, hp⟩ := hreq
    · exact hanswer.not_forwarded
    · cases hp
  | groupExists | notMember | castAck => exact hin.silent (.act _ _) (.inl ⟨_, rfl⟩) rfl rfl
  | create σ g ms _ =>
    exact hin.silent (.cast ..) (fun hp => absurd hp (Answer.invite g ms).not_forwarded) rfl
      rfl
  | fanOut σ g p ms hg _ =>
    obtain ⟨_, ⟨⟩⟩ | hph := hph
    exact hin.silent (.cast ..) (fun _ => ⟨hgroups g ms hg, .inl hph⟩) rfl rfl
  | found σ u p t _ =>
    obtain ⟨_, ⟨⟩⟩ | hph := hph
    exact hin.silent (.forwardTo ..) hph rfl rfl
  | forward σ t p ok =>
    obtain ⟨o, now, u, ho, hpass, -⟩ := hreq
    by_cases hd : t.1 = d ∧ p.IsForwarded
    · refine ⟨Unserved.serve hph ok hd.1 hd.2 fun o' ho' => ?_, trivial⟩
      obtain rfl := Option.some.inj (ho.symm.trans ho')
      exact ⟨σ.name, now, _, hpass, .inr ⟨u, rfl⟩⟩
    · exact hin.silent (.loop σ) trivial rfl (passedOn_other (not_and_or.mp hd))
  | member σ m ms p ack t ht _ =>
    refine hin.silent (.castTo ..) (fun hp => ?_) rfl rfl
    obtain ⟨hnodup, hd⟩ := hph hp
    obtain ⟨hm, hms⟩ := nodup_cons.mp hnodup
    refine ⟨hms, ⟨t.2, m, hclients m t ht, hm⟩, hd.imp_right fun hpast => ⟨?_, hpast.tail⟩⟩
    -- `d` has one name, which is not `m`
    rintro rfl
    obtain ⟨k, u, hu, hnot⟩ := hpast
    obtain ⟨⟩ := honce _ _ hu (hclients m t ht)
    exact hnot (mem_cons_self ..)
  | skip σ m ms p ack _ =>
    refine hin.silent (.cast ..) (fun hp => ?_) rfl rfl
    obtain ⟨hnodup, hd⟩ := hph hp
    exact ⟨(nodup_cons.mp hnodup).2, hd.imp_right Past.tail⟩
  | castSent σ t ms p ack _ =>
    obtain ⟨-, u, -, hfan, -⟩ := hreq
    by_cases hp : p.IsForwarded
    · obtain ⟨hnodup, ht, hd⟩ := hph hp
      by_cases htd : t.1 = d
      · have hserve := (hd.resolve_right fun h => h.1 htd).serve true htd hp
          fun o ho => hfan.yields hp ho
        exact ⟨hserve, fun _ => ⟨hnodup, .inr (htd ▸ ht.append _)⟩⟩
      · exact hin.silent (.cast ..) (fun _ => ⟨hnodup, hd.imp_right And.right⟩) rfl
          (passedOn_other (.inl htd))
    · exact hin.silent (.cast ..) (fun h => absurd h hp) rfl (passedOn_other (.inr hp))
  | castFailed σ t ms p ack =>
    obtain ⟨-, u, -, hfan, -⟩ := hreq
    by_cases hd : t.1 = d ∧ p.IsForwarded
    · obtain ⟨-, -, hd'⟩ := hph hd.2
      exact ⟨(hd'.resolve_right fun h => h.1 hd.1).serve false hd.1 hd.2
        fun o ho => hfan.yields hd.2 ho, trivial⟩
    · exact hin.silent (.loop σ) trivial rfl (passedOn_other (not_and_or.mp hd))
  | _ => exact hin.silent _ trivial rfl rfl

/-- The events of the other handlers. -/
theorem others_silent (h : ∀ e ∈ es, e.conn ≠ c) : asked c es = [] ∧ passedOn c d es = [] := by
  refine ⟨?_, passedOn_eq_nil fun t p ok he => absurd rfl (h _ he)⟩
  rw [asked, filterMap_eq_nil_iff]
  intro e he
  cases e with
  | frame c' o => exact if_neg (h _ he)
  | _ => rfl

/-! ## Every run -/

/-- And so does every run. -/
theorem fresh_reach {C : Config Conn Tables Phase Event → Conn × Input → Prop}
    {x : Config Conn Tables Phase Event} (h : (server printable).Reach C x) (c d : Conn) :
    KeepsOrder printable (passedOn c d x.log) (asked c x.log) ∧
      (x.thread c).Fresh printable c d x.log := by
  refine h.invariant (I := fun x => KeepsOrder printable (passedOn c d x.log) (asked c x.log) ∧
    (x.thread c).Fresh printable c d x.log) ⟨.nil, trivial⟩ ?_
  rintro z c' i ⟨tb, ph, es⟩ hreach ⟨hin, hph⟩ - hm
  have hmoves := server_moves hm
  have hs := sessions_reach hreach
  rw [after_log]
  by_cases hc : c = c'
  · subst hc
    rw [after_thread_self]
    exact hmoves.keepsOrder (request_reach hreach c) hph hin
      (fun u t ht => ((hs.table u t.1 t.2).mp ht).1) (hs.once d) fun g ms hg =>
        (stored_sorted hreach g ms ((groups_reach hreach g ms).mp hg)).imp fun hlt => ne_of_lt hlt
  · rw [after_thread_ne _ _ hc]
    obtain ⟨hasked, hpassed⟩ := others_silent (d := d) fun e he => (hmoves.conn e he).trans_ne
      (Ne.symm hc)
    exact hin.silent _ hph hasked hpassed

/-- **The server keeps the order and duplicates nothing**: what one client's handler passes on
to another connection is a subsequence of the requests that it read, and each payload is the one
that its request asks for. -/
theorem passed_on_in_order {x : Config Conn Tables Phase Event}
    (h : (server printable).Reach Any x) (c d : Conn) :
    KeepsOrder printable (passedOn c d x.log) (asked c x.log) := (fresh_reach h c d).1

/-- Bob has two texts of Alice. -/
def hasTwo (x : Config Conn Tables Phase Event) : Bool := decide ((passedOn 0 1 x.log).length = 2)

/-- Alice writes to Bob, then to a stranger, then to Bob again. -/
theorem passed_on_in_order_alice : ∃ x : Config Conn Tables Phase Event,
    (server fun _ => true).Reach Any x ∧ (passedOn 0 1 x.log).length = 2 ∧
      KeepsOrder (fun _ => true) (passedOn 0 1 x.log) (asked 0 x.log) := by
  obtain ⟨x, hx, hp⟩ := exists_reach_of_exec (P := server fun _ => true)
    (join 0 (str "alice") 0 ++ join 1 (str "bob") 1 ++
      [(0, .frame (textTo (str "bob")) []), (0, .run), (0, .sent true),
        (0, .frame (textTo (str "carol")) []), (0, .run),
        (0, .frame (textTo (str "bob")) []), (0, .run), (0, .sent true)])
    (p := hasTwo) (by decide +kernel)
  exact ⟨x, hx, of_decide_eq_true hp, passed_on_in_order hx 0 1⟩

end GuardedIM
