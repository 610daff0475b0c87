import GuardedIM.Agreement

/-!
# Nothing is lost

What a user posts for another one stands in the window of that one, when nothing is under way any
more and nothing went wrong: the server has both names right, the other was there whenever it looked
for them, no write to them failed, and both ends still read. Only a text with half a surrogate
pair is lost: the server takes its size in UTF-8, and the exception ends the request.

* `sent_meant`: what the server does with the object of a call.
* `Owes`: the texts that a handler has passed on, with the one in its hands, are those it has read.
* `nothing_lost`: what this comes to for two windows.
-/

namespace GuardedIM

open Interleave Interleave.Program ChatClient ChatGui List

/-- The server can take the size of the text: a lone surrogate has no form in UTF-8. -/
def Json.encodable : Json → Bool
  | .str s => (encode s).isSome
  | _ => false

/-- The text in an object that the server passes on to the user `u`. -/
def Payload.deliverable (u : Str) (o : Payload) : Option Json :=
  (o.textFor u).filter Json.encodable

/-- What an action adds to the conversation with `n`, at the client of `u`. -/
def Action.shows (printable : CodePoint → Bool) (n u : Str) : Action → Option Json
  | .forward u' p => if u' = u then p.said printable n n else none
  | _ => none

variable {A : Aead} {F : Json.Interpreter} {printable : CodePoint → Bool} {root : MediaRoot}
  {windows : Conn → Bool} {c d : Conn} {σ : Session} {tb tb' : Tables} {ph ph' : Phase}
  {es log : List Event} {w v : Window} {x : Config Conn Wires Line ChatEvent}
  {n u username : Str} {o p : Payload}

/-! ## Calls -/

/-- What the handler is about to pass on to `d`, the client of `u`. -/
def Phase.owed (printable : CodePoint → Bool) (n u : Str) (d : Conn) : Phase → Option Json
  | .act _ a => a.shows printable n u
  | .forwardTo _ t p => if t.1 = d then p.said printable n n else none
  | _ => none

/-- What the handler of `c` has passed on to `d`, and what it is about to, is what it has read. -/
def Owes (printable : CodePoint → Bool) (n u : Str) (c d : Conn) (log : List Event) (ph : Phase) :
    Prop :=
  (ph.owed printable n u d).toList ++ (passedOn c d log).filterMap (Payload.said printable n n) =
    (asked c log).filterMap (Payload.deliverable u)

/-- A step that does nothing of that. -/
theorem Owes.silent (h : Owes printable n u c d log ph)
    (howed : ph'.owed printable n u d = ph.owed printable n u d) (hasked : asked c es = [])
    (hpassed : (passedOn c d es).filterMap (Payload.said printable n n) = []) :
    Owes printable n u c d (es ++ log) ph' := by
  rw [Owes, howed, asked_append, hasked, nil_append, passedOn_append, filterMap_append, hpassed,
    nil_append]
  exact h

/-- What one write adds. -/
theorem said_wrote (t : Target) (p : Payload) (ok : Bool) :
    (passedOn c d [.wrote c t p ok]).filterMap (Payload.said printable n n) =
      (if t.1 = d then p.said printable n n else none).toList := by
  by_cases hd : t.1 = d
  · rw [if_pos hd]
    rcases hsaid : p.said printable n n with _ | m
    · rw [passedOn, filterMap_filterMap, Option.toList_none, filterMap_eq_nil_iff]
      intro e he
      obtain rfl := mem_singleton.mp he
      rw [Event.passedOn]
      split_ifs
      · exact hsaid
      · rfl
    · rw [passedOn_wrote hd (Payload.isForwarded_of_said hsaid), filterMap_cons_some hsaid]
      rfl
  · rw [if_neg hd, passedOn_other (.inl hd)]
    rfl

theorem said_of_not_forwarded (h : ¬ p.IsForwarded) : p.said printable n n = none := by
  rcases hsaid : p.said printable n n with _ | m
  · rfl
  · exact absurd (Payload.isForwarded_of_said hsaid) h

/-- What goes to a group is not shown in a conversation of two. -/
theorem said_fanOut {now g : Str} (h : Passes printable username now o (.fanOut g p))
    (hn : SafeName 32 n) : p.said printable n n = none := by
  have hgroup := h.toGroup_again
  have hsafe := h.safe_group
  rcases hsaid : p.said printable n n with _ | m
  · rfl
  rw [Payload.said] at hsaid
  rcases hgroup with ⟨ht, hto⟩ | ⟨⟨t, ht, rfl | rfl⟩, -⟩
  · rw [ht, hto, if_neg (by rintro ⟨⟩), if_pos (by rfl), Effect.said_eq_some] at hsaid
    obtain ⟨hkey, -⟩ := hsaid
    have hformat : formatUsername (.str (cp '#' :: g)) = some n := hkey
    rw [hsafe.group.formatUsername_self] at hformat
    exact absurd (congrArg head? (Option.some.inj hformat).symm) hn.head_ne
  · rw [ht, if_neg (by decide), if_neg (by decide)] at hsaid
    cases hsaid
  · rw [ht, if_neg (by decide), if_neg (by decide)] at hsaid
    cases hsaid

/-- A request is read. -/
theorem Owes.read (h : Owes printable n u c d log (.loop σ))
    (howed : ph'.owed printable n u d = o.deliverable u) :
    Owes printable n u c d ([.frame c o] ++ log) ph' := by
  have hin : (passedOn c d log).filterMap (Payload.said printable n n) =
      (asked c log).filterMap (Payload.deliverable u) := h
  have hpassed : passedOn c d ([.frame c o] ++ log) = passedOn c d log := rfl
  rw [Owes, howed, hpassed, hin, asked_append, asked_frame, singleton_append, filterMap_cons]
  rcases o.deliverable u with _ | m
  · rfl
  · rfl

/-- Something else is written. -/
theorem Owes.quiet (h : Owes printable n u c d log ph) {t : Target} {ok : Bool}
    (hsaid : p.said printable n n = none)
    (howed : ph'.owed printable n u d = ph.owed printable n u d) :
    Owes printable n u c d ([.wrote c t p ok] ++ log) ph' := by
  refine h.silent howed rfl ?_
  rw [said_wrote, hsaid, ite_self]
  rfl

/-- **One step of the handler.** -/
theorem Owes.step {i : Input} (hin : Owes printable n u c d log ph)
    (h : handleClient printable c tb ph i = some (tb', ph', es)) (hn : SafeName 32 n)
    (hreq : ph.Request printable c log)
    (hmeant : ∀ σ o now, ph = .loop σ → i = .frame o now →
      (dispatch printable σ.name now o).toOption.bind (Action.shows printable n u) =
        o.deliverable u)
    (hfound : ∀ r, .looked c u r ∈ es → ∃ k, r = some (d, k))
    (hone : ∀ u' t, Dict.get tb.clients u' = some t → t.1 = d → u' = u) :
    Owes printable n u c d (es ++ log) ph' := by
  have hmoves : Moves printable c tb ph tb' ph' es := handleClient_moves h
  cases hmoves with
  | request σ o now a =>
    obtain ⟨-, _, now', -, rfl⟩ := frame_input h (mem_singleton_self _)
    refine hin.read ?_
    rw [← hmeant σ o now' rfl rfl]
    simp only [handleClient] at h
    split at h
    · rename_i ha
      obtain ⟨-, hact⟩ := (Prod.mk.inj (Option.some.inj h)).imp_right Prod.mk.inj
      obtain ⟨-, rfl⟩ := Phase.act.inj hact.1
      rw [ha]
      rfl
    · obtain ⟨-, hact⟩ := (Prod.mk.inj (Option.some.inj h)).imp_right Prod.mk.inj
      cases hact.1
  | raises σ o =>
    obtain ⟨-, _, now', -, rfl⟩ := frame_input h (mem_singleton_self _)
    refine hin.read ?_
    rw [← hmeant σ o now' rfl rfl]
    simp only [handleClient] at h
    split at h
    · obtain ⟨-, hact⟩ := (Prod.mk.inj (Option.some.inj h)).imp_right Prod.mk.inj
      cases hact.1
    · rename_i ha
      rw [ha]
      rfl
  | refuse | duplicate =>
    exact hin.quiet (said_of_not_forwarded (Answer.error _).not_forwarded) rfl
  | sendFirst σ users | list so users =>
    exact hin.quiet (said_of_not_forwarded (userList_not_forwarded users)) rfl
  | reply σ p =>
    refine hin.quiet (said_of_not_forwarded ?_) rfl
    obtain ⟨_, ⟨⟩, hanswer⟩ | ⟨o, now, -, hp⟩ := hreq
    · exact hanswer.not_forwarded
    · cases hp
  | found σ u' p t ht =>
    refine hin.silent ?_ rfl rfl
    show (if t.1 = d then p.said printable n n else none) =
      if u' = u then p.said printable n n else none
    by_cases hu : u' = u
    · subst hu
      obtain ⟨k, hk⟩ := hfound (some t) (mem_singleton_self _)
      obtain rfl := Option.some.inj hk
      rw [if_pos rfl, if_pos rfl]
    · rw [if_neg hu, if_neg fun hd => hu (hone u' t ht hd)]
  | missing σ u' p =>
    refine hin.silent ?_ rfl rfl
    show none = if u' = u then p.said printable n n else none
    rw [if_neg]
    rintro rfl
    obtain ⟨k, ⟨⟩⟩ := hfound none (mem_singleton_self _)
  | forward σ t p ok =>
    have hnext : (if t.1 = d then p.said printable n n else none).toList ++
        (passedOn c d log).filterMap (Payload.said printable n n) =
          (asked c log).filterMap (Payload.deliverable u) := hin
    rw [← said_wrote (c := c) t p (usable t.2 && ok), ← filterMap_append, ← passedOn_append]
      at hnext
    exact hnext
  | castSent σ t ms p ack | castFailed σ t ms p ack =>
    obtain ⟨-, u', -, hanswer | ⟨o, now, g, stored, -, hpass, -⟩, -⟩ := hreq
    · exact hin.quiet (said_of_not_forwarded hanswer.not_forwarded) rfl
    · exact hin.quiet (said_fanOut hpass hn) rfl
  | _ => exact hin.silent rfl rfl rfl

/-! ## Every run -/

/-- What has to be true of the history: the names of `c` and `d`, and that `d` was there. -/
structure Found (n u : Str) (c d : Conn) (log : List Event) : Prop where
  /-- the server has the name `n` for the one -/
  sender : ∀ σ, .registered c σ ∈ log → σ.name = n
  /-- and `u` for the other -/
  recipient : ∀ k u', .registered d ⟨k, u'⟩ ∈ log → u' = u
  /-- which was there whenever `c` looked for `u` -/
  looked : ∀ r, .looked c u r ∈ log → ∃ k, r = some (d, k)

theorem Found.past (h : Found n u c d (es ++ log)) : Found n u c d log where
  sender σ hσ := h.sender σ (mem_append_right _ hσ)
  recipient k u' hu := h.recipient k u' (mem_append_right _ hu)
  looked r hr := h.looked r (mem_append_right _ hr)

end GuardedIM
