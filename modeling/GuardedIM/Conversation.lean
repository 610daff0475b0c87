import GuardedIM.Attribution
import GuardedIM.Relay

/-!
# The conversation a payload is shown in

The server routes a file on `str(to)` without its leading `#`, and on `to_type`; it passes `to` on
as it came. The recipient makes the name of the conversation out of what it receives: `#` and `to`
for a group, otherwise the sender.

* `ByFanOut` and `Directly`: how the server came to write a payload.
* `Agrees`: the conversation is that of the group, or of the sender, accordingly.
* `conversation_agrees_iff`: for every payload written in any run, it does unless the payload is a
  file for a group whose `to` begins with `#`.
-/

namespace GuardedIM

open Interleave Interleave.Program

section Routes

variable (printable : CodePoint → Bool) (past : List Event) (c : Conn) (σ : Session) (p : Payload)

/-- The request of `c` passed its checks, asked for `p` to go to the members of `g`, and the sender
is one of them. -/
def ByFanOut (g : Str) : Prop :=
  ∃ o now ms, current past c = some o ∧ Passes printable σ.name now o (.fanOut g p) ∧
    Stored past g ms ∧ σ.name ∈ ms

/-- The request of `c` passed its checks and asked for `p` to go to one user. -/
def Directly : Prop :=
  ∃ o now u, current past c = some o ∧ Passes printable σ.name now o (.forward u p)

/-- The conversation `chat` names the group exactly when `p` was sent to its members, and the sender
exactly when it was sent to one user. -/
def Agrees (chat : Json) : Prop :=
  (∀ g, chat = .str (cp '#' :: g) ↔ ByFanOut printable past c σ p g) ∧
    (chat = .str σ.name ↔ Directly printable past c σ p)

end Routes

/-- `str(payload.get("to", ""))` -/
def toText (printable : CodePoint → Bool) (o : Payload) : Str :=
  ((Dict.get o (str "to")).getD (.str [])).toStr printable

/-- A file for a group is addressed without a `#` in front. -/
def PlainAddress (printable : CodePoint → Bool) (o : Payload) : Prop :=
  o.IsFile → (o.find (str "to_type")).isStr (str "group") = true →
    (toText printable o).head? ≠ some (cp '#')

variable {printable : CodePoint → Bool} {past : List Event} {c : Conn} {σ : Session}
  {o p : Payload} {g u now : Str} {chat : Json}

theorem fileTo_eq_toText_iff :
    fileTo printable o = toText printable o ↔ (toText printable o).head? ≠ some (cp '#') := by
  rw [fileTo, ← toText, lstripHash]
  rcases toText printable o with _ | ⟨d, s⟩
  · simp
  · by_cases hd : d = cp '#'
    · subst hd
      refine iff_of_false (fun he => ?_) fun hne => hne rfl
      have hle := List.length_dropWhile_le (· = cp '#') s
      rw [List.dropWhile_cons_of_pos (by simp)] at he
      have hlen := congrArg List.length he
      rw [List.length_cons] at hlen
      omega
    · rw [List.dropWhile_cons_of_neg (by simpa using hd)]
      exact iff_of_true rfl fun he => hd (Option.some.inj he)

/-! ## One route for each request -/

theorem ToUser.not_toGroup (h : ToUser printable o u) : ¬ ToGroup printable o g := by
  intro hg
  rcases h with ⟨ht, -⟩ | ⟨hfile, hnot, -⟩
  · rcases hg with ⟨ht', -⟩ | ⟨hfile, -⟩
    · rw [ht] at ht'
      exact absurd (Json.str.inj ht') (by decide)
    · exact Payload.IsText.not_file (.inl ht) hfile
  · rcases hg with ⟨ht, -⟩ | ⟨-, hgroup, -⟩
    · exact Payload.IsText.not_file (.inr ht) hfile
    · exact hnot hgroup

theorem ToGroup.unique {g' : Str} (h : ToGroup printable o g) (h' : ToGroup printable o g') :
    g = g' := by
  rcases h with ⟨ht, hg⟩ | ⟨hfile, -, rfl⟩
  · rcases h' with ⟨-, hg'⟩ | ⟨hfile, -⟩
    · rw [hg] at hg'
      exact Json.str.inj hg'
    · exact absurd hfile (Payload.IsText.not_file (.inr ht))
  · rcases h' with ⟨ht, -⟩ | ⟨-, -, rfl⟩
    · exact absurd hfile (Payload.IsText.not_file (.inr ht))
    · rfl

/-- No username begins with `#`. -/
theorem hash_ne {n : Str} (h : SafeName 32 n) (s : Str) : Json.str (cp '#' :: s) ≠ .str n := by
  intro he
  have hhash : safeChar (cp '#') = true := h.2.2 _ (Json.str.inj he ▸ List.mem_cons_self ..)
  exact absurd hhash (by decide)

/-- What agreement means for a payload that was fanned out. -/
theorem agrees_fanOut_iff {ms : List Str} (ho : current past c = some o)
    (hpass : Passes printable σ.name now o (.fanOut g p)) (hg : Stored past g ms)
    (hσ : σ.name ∈ ms) (hne : chat ≠ .str σ.name) :
    Agrees printable past c σ p chat ↔ ∀ g', chat = .str (cp '#' :: g') ↔ g' = g := by
  have hfan : ∀ g', ByFanOut printable past c σ p g' ↔ g' = g := by
    intro g'
    constructor
    · rintro ⟨o', now', ms', ho', hpass', -⟩
      rw [ho] at ho'
      obtain rfl := Option.some.inj ho'
      exact hpass'.toGroup.unique hpass.toGroup
    · rintro rfl
      exact ⟨o, now, ms, ho, hpass, hg, hσ⟩
  have hdirect : ¬ Directly printable past c σ p := by
    rintro ⟨o', now', u, ho', hpass'⟩
    rw [ho] at ho'
    obtain rfl := Option.some.inj ho'
    exact hpass'.toUser.not_toGroup hpass.toGroup
  rw [Agrees, and_iff_left (iff_of_false hne hdirect)]
  exact forall_congr' fun g' => by rw [hfan]

/-- A payload that was sent to one user agrees when it is shown as the sender's. -/
theorem agrees_forward (ho : current past c = some o)
    (hpass : Passes printable σ.name now o (.forward u p)) (hσ : SafeName 32 σ.name) :
    Agrees printable past c σ p (.str σ.name) := by
  refine ⟨fun g => iff_of_false (fun he => hash_ne hσ g he.symm) ?_,
    iff_of_true rfl ⟨o, now, u, ho, hpass⟩⟩
  rintro ⟨o', now', ms, ho', hpass', -⟩
  rw [ho] at ho'
  obtain rfl := Option.some.inj ho'
  exact hpass.toUser.not_toGroup hpass'.toGroup

/-! ## What the recipient makes of it -/

variable {root : MediaRoot} {username n : Str} {disk : Disk} {message sender : Json}

/-- `f"#{to}"`, for a `to` that the server could make a name of. -/
theorem hashed_to (h : fileTo printable o ≠ []) :
    hashed printable (o.find (str "to")) = .str (cp '#' :: toText printable o) := by
  rw [fileTo, ← toText] at h
  rw [hashed, toText, Payload.find]
  rcases hget : Dict.get o (str "to") with _ | v
  · rw [toText, hget] at h
    exact absurd rfl h
  · rw [Option.getD_some, Option.getD_some]

/-- A file is shown in the conversation that the raw fields name. -/
theorem conversation_file {t : Str} (ht : o.find (str "type") = .str t)
    (htype : t = str "message_file" ∨ t = str "group_file") (hchecks : FileChecks printable o)
    (hto : fileTo printable o ≠ [])
    (hr : .received chat message sender ∈ (receive printable root username disk
      (.obj (fileOut now (bindSender n o)))).effects) :
    chat = if (o.find (str "to_type")).isStr (str "group") then
      .str (cp '#' :: toText printable o) else .str n := by
  have hkept : (fileOut now (bindSender n o)).find (str "type") = .str t := by
    rw [find_outgoing_file _ _ _ (by decide), ht]
  obtain ⟨filedata, -, hround⟩ := receiveFile_checked root username disk (hchecks.outgoing n now)
  rw [receive_file hkept htype, hround] at hr
  split at hr
  · cases hr
  · rcases List.mem_cons.mp hr with hr | hr
    · cases hr
    · rw [(Effect.received.inj (List.mem_singleton.mp hr)).1,
        find_outgoing_file _ _ _ (by decide), find_outgoing_file _ _ _ (by decide), hashed_to hto,
        find_fileOut _ _ (by decide), bindSender_from]

/-- A payload for the members of a group, one of which is the sender. -/
theorem fanOut_agrees_iff {ms : List Str} (ho : current past c = some o)
    (hpass : Passes printable σ.name now o (.fanOut g p)) (hg : Stored past g ms)
    (hσ : σ.name ∈ ms) (hname : SafeName 32 σ.name)
    (hr : .received chat message sender ∈
      (receive printable root username disk (.obj p)).effects) :
    Agrees printable past c σ p chat ↔ PlainAddress printable o := by
  cases id hpass with
  | groupMessage ht hto =>
    have htype : (groupText now (bindSender σ.name o) (.str g)
        (o.find (str "payload"))).find (str "type") = .str (str "group_message") := by
      rw [find_groupText _ _ _ _ (by decide), find_bindSender _ _ (by decide), ht]
    rw [receive_groupMessage htype, groupText_to] at hr
    obtain ⟨rfl, -, -⟩ := Effect.received.inj (List.mem_singleton.mp hr)
    rw [hashed, Json.toStr_str, agrees_fanOut_iff ho hpass hg hσ (hash_ne hname g)]
    refine iff_of_true (fun g' => ?_) fun hfile =>
      absurd hfile (Payload.IsText.not_file (.inr ht))
    simp only [Json.str.injEq, List.cons.injEq, true_and]
    exact eq_comm
  | groupFile ht htype hchecks hgroup hto =>
    have hne : fileTo printable o ≠ [] := List.ne_nil_of_length_pos hto.1
    have hchat := conversation_file ht htype hchecks hne hr
    rw [if_pos hgroup] at hchat
    subst hchat
    have hplain : PlainAddress printable o ↔ fileTo printable o = toText printable o := by
      rw [fileTo_eq_toText_iff]
      exact ⟨fun h => h ⟨_, ht, htype⟩ hgroup, fun h _ _ => h⟩
    rw [agrees_fanOut_iff ho hpass hg hσ (hash_ne hname _), hplain]
    simp only [Json.str.injEq, List.cons.injEq, true_and]
    constructor
    · intro hall
      exact ((hall _).mpr rfl).symm
    · intro heq g'
      rw [heq]
      exact eq_comm

/-- A file for one user. -/
theorem forward_agrees_iff (ho : current past c = some o)
    (hpass : Passes printable σ.name now o (.forward u p)) (hname : SafeName 32 σ.name)
    (hp : p.find (str "type") = .str (str "group_message") ∨ p.IsFile)
    (hr : .received chat message sender ∈
      (receive printable root username disk (.obj p)).effects) :
    Agrees printable past c σ p chat ↔ PlainAddress printable o := by
  cases id hpass with
  | message ht hu hsafe =>
    have htype := (hpass.type_kept (.inr ⟨u, rfl⟩)).1
    rw [ht] at htype
    rcases hp with hp | hfile
    · rw [htype] at hp
      exact absurd (Json.str.inj hp) (by decide)
    · exact absurd hfile (Payload.IsText.not_file (.inl htype))
  | userFile ht htype hchecks hgroup hto =>
    have hchat := conversation_file ht htype hchecks (List.ne_nil_of_length_pos hto.1) hr
    rw [if_neg hgroup] at hchat
    subst hchat
    exact iff_of_true (agrees_forward ho hpass hname) fun _ hto => absurd hto hgroup

/-- **When the conversation agrees with the route**: for every text to a group and every file
that the server writes in any run, wherever it is received, the conversation is the group it was
fanned out to or the sender of what came directly, exactly when a file for a group was addressed
without a leading `#`. -/
theorem conversation_agrees_iff {x : Config Conn Tables Phase Event}
    (h : (server printable).Reach Any x) {later past : List Event} {t : Target} {ok : Bool}
    (hlog : x.log = later ++ .wrote c t p ok :: past)
    (hp : p.find (str "type") = .str (str "group_message") ∨ p.IsFile) :
    ∃ σ o, .registered c σ ∈ past ∧ (∀ σ', .registered c σ' ∈ past → σ' = σ) ∧
      current past c = some o ∧
      ∀ root username disk chat message sender,
        .received chat message sender ∈
          (receive printable root username disk (.obj p)).effects →
        (Agrees printable past c σ p chat ↔ PlainAddress printable o) := by
  have hforwarded : p.IsForwarded := by
    rcases hp with ht | ⟨t, ht, rfl | rfl⟩
    · exact ⟨_, ht, .groupMessage⟩
    · exact ⟨_, ht, .messageFile⟩
    · exact ⟨_, ht, .groupFile⟩
  have hjustified := authorised_log h
  rw [hlog] at hjustified
  obtain ⟨σ, o, u, hauth⟩ := hjustified.at c t p ok rfl hforwarded
  have hname : SafeName 32 σ.name := by
    refine (names_reach h).1 c σ ?_
    rw [hlog]
    exact List.mem_append_right _ (List.mem_cons_of_mem _ hauth.session)
  obtain ⟨now, a, hpass, ha⟩ := hauth.passed
  refine ⟨σ, o, hauth.session, hauth.oneSession, hauth.request,
    fun root username disk chat message sender hr => ?_⟩
  rcases ha with ⟨g, rfl⟩ | ⟨v, rfl⟩
  · obtain ⟨ms, hg, hσ⟩ : ∃ ms, Stored past g ms ∧ σ.name ∈ ms := by
      rcases hauth.addressed with hu | ⟨g', ms, hg', hstored, -, hσ, -⟩
      · exact absurd hpass.toGroup hu.not_toGroup
      · obtain rfl := hg'.unique hpass.toGroup
        exact ⟨ms, hstored, hσ⟩
    exact fanOut_agrees_iff hauth.request hpass hg hσ hname hr
  · exact forward_agrees_iff hauth.request hpass hname hp hr

/-- Bob receives Alice's text to their group as the theorem says. -/
theorem conversation_agrees_team : ∃ x : Config Conn Tables Phase Event,
    (server fun _ => true).Reach Any x ∧ ∃ (later past : List Event) (p : Payload),
      x.log = later ++ .wrote 0 (1, demoKey) p true :: past ∧
      p.find (str "type") = .str (str "group_message") ∧ ∃ σ o, .registered 0 σ ∈ past ∧
        (∀ σ', .registered 0 σ' ∈ past → σ' = σ) ∧ current past 0 = some o ∧
        ∀ root username disk chat message sender,
          .received chat message sender ∈
            (receive (fun _ => true) root username disk (.obj p)).effects →
          (Agrees (fun _ => true) past 0 σ p chat ↔ PlainAddress (fun _ => true) o) := by
  obtain ⟨x, hx, hloop, hbob, hteam⟩ := exists_team
  obtain ⟨z, hz, hsent⟩ := exists_fanOut hx hloop (dispatch_teamText [] (str "hi")) hteam
    (by decide) hbob (by decide)
  obtain ⟨later, past, hlog⟩ := List.append_of_mem hsent
  have htype : (groupText [] (bindSender (str "alice") (teamText (str "hi"))) (.str (str "team"))
      (.str (str "hi"))).find (str "type") = .str (str "group_message") := rfl
  exact ⟨z, hz, later, past, _, hlog, htype, conversation_agrees_iff hz hlog (.inl htype)⟩

/-! ## A file for a group, addressed as the group is displayed -/

theorem Passes.safe_group (h : Passes printable n now o (.fanOut g p)) : SafeName 48 g := by
  cases h with
  | groupMessage _ _ hg => exact hg
  | groupFile _ _ _ _ hg => exact hg

/-- Two bytes for the group of Alice and Bob. -/
def teamFile : Payload :=
  [(str "type", .str (str "group_file")), (str "to", .str (str "#team")),
    (str "to_type", .str (str "group")), (str "filename", .str (str "a.txt")),
    (str "payload", .str (str "aGk="))]

/-- The server delivers it to the members of `team`, and Bob is shown it in the conversation of a
group `#team`. -/
theorem hash_kept : ¬ ∀ (printable : CodePoint → Bool) (x : Config Conn Tables Phase Event),
    (server printable).Reach Any x → ∀ later past c t p ok σ,
      x.log = later ++ .wrote c t p ok :: past → .registered c σ ∈ past →
      (p.find (str "type") = .str (str "group_message") ∨ Payload.IsFile p) →
      ∀ root username disk chat message sender, .received chat message sender ∈
          (receive printable root username disk (.obj p)).effects →
        Agrees printable past c σ p chat := by
  intro hall
  obtain ⟨x, hx, hloop, hbob, hteam⟩ := exists_team
  have hd : dispatch (fun _ => true) (str "alice") [] teamFile =
      .ok (.fanOut (str "team") (fileOut [] (bindSender (str "alice") teamFile))) := rfl
  obtain ⟨z, hz, hsent⟩ := exists_fanOut hx hloop hd hteam (by decide) hbob (by decide)
  obtain ⟨later, past, hlog⟩ := List.append_of_mem hsent
  have hjustified := authorised_log hz
  rw [hlog] at hjustified
  have htype : (fileOut [] (bindSender (str "alice") teamFile)).find (str "type") =
      .str (str "group_file") := rfl
  obtain ⟨σ, o, u, hauth⟩ := hjustified.at _ _ _ _ rfl ⟨_, htype, .groupFile⟩
  have hchecks : FileChecks (fun _ => true) (fileOut [] (bindSender (str "alice") teamFile)) :=
    ⟨by decide, by decide, by decide⟩
  obtain ⟨filedata, -, hround⟩ := receiveFile_checked demoRoot (str "bob") ⟨true, true⟩ hchecks
  have hagrees := hall _ z hz later past _ _ _ _ σ hlog hauth.session
    (.inr ⟨_, htype, .inr rfl⟩) demoRoot (str "bob") ⟨true, true⟩
    (.str (cp '#' :: str "#team")) _ _ (by
      rw [receive_file htype (.inr rfl), hround]
      exact List.mem_cons_of_mem _ (List.mem_singleton_self _))
  obtain ⟨o', now', ms, -, hpass, -⟩ := (hagrees.1 (str "#team")).mp rfl
  exact absurd hpass.safe_group (by decide)

end GuardedIM
