import GuardedIM.Attribution
import GuardedIM.Relay

/-!
# The limit on texts

`MAX_MESSAGE_SIZE` is checked by both methods of the client that send a text, on the JSON of the
whole request, and by the server's branch for `message`, on the text. The branch for
`group_message` does not check it.

* `message_limited`: the branch for `message`.
* `texts_limited`: in every run, the texts to one user are within the limit, whatever their sender
  has checked, and a text to a group is when it would have passed the check that is missing.
-/

namespace GuardedIM

open Interleave Interleave.Program

/-- The text has at most `MAX_MESSAGE_SIZE` bytes in UTF-8. -/
def WithinLimit (s : Str) : Prop := ∃ b, encode s = some b ∧ b.length ≤ maxMessageSize

/-- A payload of this type with a text has one within the limit. -/
def Limited (type : String) (p : Payload) : Prop :=
  p.find (str "type") = .str (str type) →
    ∀ s, p.find (str "payload") = .str s → WithinLimit s

/-- No text to a group that the server accepts would fail `check_message_size`. -/
def GroupTextsChecked (printable : CodePoint → Bool) (x : Config Conn Tables Phase Event)
    (a : Conn × Input) : Prop :=
  ∀ σ o now g p, x.thread a.1 = .loop σ → a.2 = .frame o now →
    dispatch printable σ.name now o = .ok (.fanOut g p) →
    o.find (str "type") = .str (str "group_message") →
    ∀ s, o.find (str "payload") = .str s → checkMessageSize s = .ok true

variable {printable : CodePoint → Bool} {username now : Str} {o p : Payload} {s : Str}

theorem checkMessageSize_iff : checkMessageSize s = .ok true ↔ WithinLimit s := by
  rw [checkMessageSize, WithinLimit]
  rcases encode s with _ | b
  · simp
  · simp

/-- The server's check of a text to one user. -/
theorem message_limited {u : Str} (ht : o.find (str "type") = .str (str "message"))
    (h : dispatch printable username now o = .ok (.forward u p))
    (hs : o.find (str "payload") = .str s) : WithinLimit s := by
  have hbranch : dispatch printable username now o =
      message printable now (bindSender username o) := by
    simp only [dispatch]
    rw [find_bindSender username o (by decide), ht]
    rfl
  have htext : ((Dict.get (bindSender username o) (str "payload")).getD (.str [])).toStr printable =
      s := by
    rw [get_bindSender username o (by decide)]
    rw [Payload.find] at hs
    rcases hget : Dict.get o (str "payload") with _ | v
    · rw [hget] at hs
      cases hs
    · rw [hget, Option.getD_some] at hs
      rw [hs, Option.getD_some, Json.toStr_str]
  rw [hbranch, message] at h
  obtain ⟨-, h⟩ := require_pass h (by rintro _ ⟨⟩)
  obtain ⟨hsize, -⟩ := require_pass h (by rintro _ ⟨⟩)
  rw [htext] at hsize
  exact checkMessageSize_iff.mp hsize

/-- Only texts to groups and files are fanned out. -/
theorem Passes.not_message {g : Str} (h : Passes printable username now o (.fanOut g p)) :
    o.find (str "type") ≠ .str (str "message") := by
  intro ht
  rcases h.toGroup with ⟨hg, -⟩ | ⟨hfile, -⟩
  · rw [ht] at hg
    exact absurd (Json.str.inj hg) (by decide)
  · exact Payload.IsText.not_file (.inl ht) hfile

/-- Texts to groups are not forwarded to one user. -/
theorem Passes.not_groupMessage {u : Str} (h : Passes printable username now o (.forward u p)) :
    o.find (str "type") ≠ .str (str "group_message") := by
  intro ht
  rcases h.toUser with ⟨hg, -⟩ | ⟨hfile, -⟩
  · rw [ht] at hg
    exact absurd (Json.str.inj hg) (by decide)
  · exact Payload.IsText.not_file (.inr ht) hfile

/-- What the server says itself is no text. -/
theorem limited_of_type {t : Str} {type : String} (hp : p.find (str "type") = .str t)
    (hne : t ≠ str type) : Limited type p := by
  intro ht
  rw [hp] at ht
  exact absurd (Json.str.inj ht) hne

/-- **In every run**: the texts of this type are within the limit, if those that are accepted
are. -/
theorem limited_reach {C : Config Conn Tables Phase Event → Conn × Input → Prop}
    {x : Config Conn Tables Phase Event} (h : (server printable).Reach C x) {type : String}
    (htype : str type ∈ [str "message", str "group_message"])
    (hrequest : ∀ z c o now σ a, C z (c, .frame o now) → z.thread c = .loop σ →
      dispatch printable σ.name now o = .ok a →
      ((∃ g p, a = .fanOut g p) ∨ ∃ u p, a = .forward u p) → Limited type o) :
    ∀ c t p ok, .wrote c t p ok ∈ x.log → Limited type p := by
  have hother : ∀ t ∈ [str "error", str "user_list", str "group_invite", str "group_created"],
      t ≠ str type := by
    rintro t ht rfl
    exact absurd htype ((by decide : ∀ t ∈ [str "error", str "user_list", str "group_invite",
      str "group_created"], t ∉ [str "message", str "group_message"]) _ ht)
  have hmeets : (∀ c, (x.thread c).Meets (Limited type) (Limited type)) ∧
      ∀ e ∈ x.log, e.Meets (Limited type) (Limited type) := meets_reach h
    (fun msg _ => limited_of_type rfl (hother (str "error") (by decide)))
    (fun us _ => limited_of_type rfl (hother (str "user_list") (by decide)))
    (fun z c o now σ a hC hloop hname hd ha => by
      have hpass := dispatch_passes hd ha
      have hkept : ∀ {p}, ((∃ g, a = .fanOut g p) ∨ ∃ u, a = .forward u p) → Limited type o →
          Limited type p := by
        intro p hp ho ht s hs
        rw [(hpass.type_kept hp).1] at ht
        rw [hpass.payload_kept hp] at hs
        exact ho ht s hs
      cases a with
      | ignore => trivial
      | reply q => exact absurd rfl (ha q)
      | create g ms =>
        exact ⟨limited_of_type rfl (hother (str "group_invite") (by decide)),
          limited_of_type rfl (hother (str "group_created") (by decide))⟩
      | fanOut g p =>
        exact hkept (.inl ⟨g, rfl⟩) (hrequest z c o now σ _ hC hloop hd (.inl ⟨g, p, rfl⟩))
      | forward u p =>
        exact hkept (.inr ⟨u, rfl⟩) (hrequest z c o now σ _ hC hloop hd (.inr ⟨u, p, rfl⟩)))
  intro c t p ok he
  exact (hmeets.2 _ he).elim And.right id

/-- **Who keeps to the limit.** Every text in a `message` is within it. A text in a `group_message`
is the sender's, and within it exactly when `check_message_size` would have accepted it; so all
texts are in the runs where every text to a group would have been accepted. -/
theorem texts_limited (printable : CodePoint → Bool) :
    (∀ x, (server printable).Reach Any x → ∀ later past c t p ok s,
      x.log = later ++ .wrote c t p ok :: past → Payload.IsText p →
      p.find (str "payload") = .str s →
      ∃ o, current past c = some o ∧ o.find (str "type") = p.find (str "type") ∧
        o.find (str "payload") = .str s ∧
        (WithinLimit s ↔ (o.find (str "type") = .str (str "group_message") →
          checkMessageSize s = .ok true))) ∧
    ∀ x, (server printable).Reach (GroupTextsChecked printable) x → ∀ c t p ok s,
      .wrote c t p ok ∈ x.log → Payload.IsText p → p.find (str "payload") = .str s →
      WithinLimit s := by
  have hmessage : ∀ {C x}, (server printable).Reach C x → ∀ c t p ok, .wrote c t p ok ∈ x.log →
      Limited "message" p := by
    intro C x hx
    refine limited_reach hx (by decide) ?_
    rintro z c o now σ a - - hd hpassed ht s hs
    rcases hpassed with ⟨g, p, rfl⟩ | ⟨u, p, rfl⟩
    · exact absurd ht (dispatch_passes hd (by rintro _ ⟨⟩)).not_message
    · exact message_limited ht hd hs
  refine ⟨fun x hx later past c t p ok s hlog htext hs => ?_, fun x hx c t p ok s he htext hs => ?_⟩
  · have hp : p.IsForwarded := by
      rcases htext with ht | ht
      · exact ⟨_, ht, .message⟩
      · exact ⟨_, ht, .groupMessage⟩
    have hjustified := authorised_log hx
    rw [hlog] at hjustified
    obtain ⟨σ, o, u, hauth⟩ := hjustified.at c t p ok rfl hp
    obtain ⟨now, a, hpass, ha⟩ := hauth.passed
    have htype := (hpass.type_kept ha).1
    refine ⟨o, hauth.request, htype.symm, by rw [← hpass.payload_kept ha, hs], ?_⟩
    rw [← htype, checkMessageSize_iff]
    have hmem : .wrote c t p ok ∈ x.log := by
      rw [hlog]
      exact List.mem_append_right _ (List.mem_cons_self ..)
    refine ⟨fun h _ => h, fun h => ?_⟩
    rcases htext with ht | ht
    · exact hmessage hx c t p ok hmem ht s hs
    · exact h ht
  · rcases htext with ht | ht
    · exact hmessage hx c t p ok he ht s hs
    · refine limited_reach hx (by decide) ?_ c t p ok he ht s hs
      rintro z c o now σ a hC hloop hd (⟨g, p, rfl⟩ | ⟨u, p, rfl⟩) hgroup s hs
      · exact checkMessageSize_iff.mp (hC σ o now g p hloop rfl hd hgroup s hs)
      · exact absurd hgroup (dispatch_passes hd (by rintro _ ⟨⟩)).not_groupMessage

/-! ## A short text to a group -/

/-- The text of the request, if it has one, passes `check_message_size`. -/
def isTextChecked (_ : Config Conn Tables Phase Event) (a : Conn × Input) : Bool :=
  match a.2 with
  | .frame o _ =>
    match o.find (str "payload") with
    | .str s => decide (checkMessageSize s = .ok true)
    | _ => true
  | _ => true

theorem groupTextsChecked_of_isTextChecked (x : Config Conn Tables Phase Event) (a : Conn × Input)
    (h : isTextChecked x a = true) : GroupTextsChecked printable x a := by
  intro σ o now g p _ ha _ _ s hs
  simp only [isTextChecked, ha, hs, decide_eq_true_eq] at h
  exact h

/-- A text `hi` to a group goes from Alice to Bob. -/
def Event.isHi : Event → Bool
  | .wrote c t p ok => decide (c = 0) && decide (t = (1, demoKey)) && ok &&
    (p.find (str "type")).isStr (str "group_message") && (p.find (str "payload")).isStr (str "hi")
  | _ => false

/-- Alice writes to her group, and her text is within the limit. -/
theorem texts_limited_team : ∃ (x : Config Conn Tables Phase Event) (p : Payload),
    (server fun _ => true).Reach (GroupTextsChecked fun _ => true) x ∧
      .wrote 0 (1, demoKey) p true ∈ x.log ∧
      p.find (str "type") = .str (str "group_message") ∧
      p.find (str "payload") = .str (str "hi") ∧ WithinLimit (str "hi") := by
  obtain ⟨x, hx, hp⟩ := exists_run_of_execIf (P := server fun _ => true)
    groupTextsChecked_of_isTextChecked
    (join 0 (str "alice") 0 ++ join 1 (str "bob") 1 ++
      [(0, .frame (newGroup [str "bob"]) []), (0, .run), (0, .run), (0, .run), (0, .sent true),
        (0, .run), (0, .sent true), (0, .frame (teamText (str "hi")) []), (0, .run), (0, .run),
        (0, .run), (0, .sent true)])
    (p := fun x => x.log.any Event.isHi) (by decide +kernel)
  obtain ⟨e, he, hhi⟩ := List.any_eq_true.mp hp
  cases e with
  | wrote c t p ok =>
    simp only [Event.isHi, Bool.and_eq_true, decide_eq_true_eq] at hhi
    obtain ⟨⟨⟨⟨rfl, rfl⟩, rfl⟩, htype⟩, hpayload⟩ := hhi
    have htype := Json.isStr_iff.mp htype
    have hpayload := Json.isStr_iff.mp hpayload
    exact ⟨x, p, ⟨_, hx⟩, he, htype, hpayload,
      (texts_limited _).2 x ⟨_, hx⟩ 0 _ p true _ he (.inr htype) hpayload⟩
  | _ => cases hhi

/-! ## A long text to a group -/

/-- One byte more than the limit. -/
def longText : Str := List.replicate (maxMessageSize + 1) (cp 'a')

theorem longText_not_within : ¬ WithinLimit longText := by
  have hascii : ∀ c ∈ longText, c.val < 0x80 := by
    intro c hc
    rw [List.eq_of_mem_replicate hc]
    decide
  rintro ⟨b, hb, hlen⟩
  rw [encode_ascii hascii] at hb
  obtain rfl := Option.some.inj hb
  rw [List.length_map, longText, List.length_replicate] at hlen
  exact absurd hlen (Nat.not_succ_le_self _)

/-- Bob is sent a text of that length. -/
theorem long_text_forwarded : ¬ ∀ (printable : CodePoint → Bool)
    (x : Config Conn Tables Phase Event), (server printable).Reach Any x → ∀ c t p ok s,
      .wrote c t p ok ∈ x.log → Payload.IsText p → p.find (str "payload") = .str s →
      WithinLimit s := by
  intro hall
  obtain ⟨x, hx, hloop, hbob, hteam⟩ := exists_team
  obtain ⟨z, hz, hsent⟩ := exists_fanOut hx hloop (dispatch_teamText [] longText)
    hteam (by decide) hbob (by decide)
  refine longText_not_within (hall _ z hz _ _ _ _ _ hsent ?_ ?_)
  · refine .inr ?_
    rw [find_groupText _ _ _ _ (by decide), find_bindSender _ _ (by decide)]
    rfl
  · rw [groupText_payload]

end GuardedIM
