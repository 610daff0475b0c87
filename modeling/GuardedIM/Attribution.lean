import GuardedIM.Client
import GuardedIM.Routing

/-!
# Whose message it is, end to end

The server writes the sender's registered name into `from`. What the recipient shows is
up to `receive`: text to a group and the notice about a file read `from`, a file's
directory is named after the sanitised `from`, and text to a user prefers a field
`sender` that the server never looks at.

* `Credits`: every identity a recipient hands on for a payload is the given name.
* `Genuine`: the condition on the request, and on the name, under which that is so.
* `credits_iff_genuine`: for every payload written in any run, the two are the same.
-/

namespace GuardedIM

open Interleave Interleave.Program

/-- A text to a user or a group. -/
def Payload.IsText (p : Payload) : Prop :=
  p.find (str "type") = .str (str "message") ∨ p.find (str "type") = .str (str "group_message")

/-- A file. -/
def Payload.IsFile (p : Payload) : Prop :=
  ∃ t, p.find (str "type") = .str t ∧ (t = str "message_file" ∨ t = str "group_file")

theorem not_isFile {p : Payload} {s : Str} (hp : p.find (str "type") = .str s)
    (h₁ : s ≠ str "message_file") (h₂ : s ≠ str "group_file") : ¬ p.IsFile := by
  rintro ⟨t, ht, htype⟩
  rw [hp] at ht
  obtain rfl := Json.str.inj ht
  exact htype.elim h₁ h₂

/-- A text is no file. -/
theorem Payload.IsText.not_file {p : Payload} (h : p.IsText) : ¬ p.IsFile := by
  rcases h with ht | ht
  · exact not_isFile ht (by decide) (by decide)
  · exact not_isFile ht (by decide) (by decide)

/-- Whoever receives `p`, every identity `receive_loop` hands on is `n`. -/
structure Credits (printable : CodePoint → Bool) (root : MediaRoot) (n : Str) (p : Payload) :
    Prop where
  /-- the sender of a text -/
  text : p.IsText → ∀ username disk chat message sender,
    .received chat message sender ∈ (receive printable root username disk (.obj p)).effects →
    sender = .str n
  /-- the directory of a file -/
  directory : ∀ username disk path filedata,
    .saved path filedata ∈ (receive printable root username disk (.obj p)).effects →
    ∃ user file, path = root.parts ++ [user, str "from_" ++ n, file]
  /-- the text about a file -/
  fileNotice : p.IsFile → ∀ username disk chat message sender,
    .received chat message sender ∈ (receive printable root username disk (.obj p)).effects →
    message = notice printable (p.find (str "filename")) (.str n)

/-- The request `o` of the user `n` does not claim another sender, and if it is a file the
name is one the path sanitiser leaves alone. -/
def Genuine (o : Payload) (n : Str) : Prop :=
  (o.find (str "type") = .str (str "message") →
    ∀ v, Dict.get o (str "sender") = some v → v = .str n) ∧
  (o.IsFile → PlainEnds n)

variable {printable : CodePoint → Bool} {root : MediaRoot} {username now n : Str} {disk : Disk}
  {o p : Payload}

theorem get_userText {k : Str} (hk : k ∉ [str "payload_type", str "to_type", str "timestamp"]) :
    Dict.get (userText now p) k = Dict.get p k :=
  Dict.get_write p [(str "payload_type", .str (str "text")), (str "to_type", .str (str "user")),
    (str "timestamp", .str (now ++ str "Z"))] hk

/-! ## The branches -/

/-- Text to a user: the recipient believes the field `sender` when there is one. -/
theorem credits_message (ht : o.find (str "type") = .str (str "message")) :
    Credits printable root n (userText now (bindSender n o)) ↔
      ∀ v, Dict.get o (str "sender") = some v → v = .str n := by
  have htype : (userText now (bindSender n o)).find (str "type") = .str (str "message") := by
    rw [find_userText _ _ (by decide), find_bindSender _ _ (by decide), ht]
  have hsender : Dict.get (userText now (bindSender n o)) (str "sender") =
      Dict.get o (str "sender") := by
    rw [get_userText (by decide), get_bindSender _ _ (by decide)]
  have hfrom : (userText now (bindSender n o)).find (str "from") = .str n := by
    rw [find_userText _ _ (by decide), bindSender_from]
  have hround : ∀ username disk, receive printable root username disk
      (.obj (userText now (bindSender n o))) = ⟨[.received (.str n)
        ((userText now (bindSender n o)).find (str "payload"))
        ((Dict.get o (str "sender")).getD (.str n))], true⟩ := by
    intro username disk
    rw [receive_message htype, hsender, hfrom]
  refine ⟨fun h v hv => ?_, fun h => ⟨?_, ?_, ?_⟩⟩
  · refine h.text (.inl htype) [] ⟨true, true⟩ (.str n)
      ((userText now (bindSender n o)).find (str "payload")) v ?_
    rw [hround, hv]
    exact List.mem_singleton_self _
  · intro _ username disk chat message sender hr
    rw [hround] at hr
    obtain ⟨-, -, rfl⟩ := Effect.received.inj (List.mem_singleton.mp hr)
    rcases hs : Dict.get o (str "sender") with _ | v
    · rfl
    · exact h v hs
  · intro username disk path filedata hr
    rw [hround] at hr
    cases List.mem_singleton.mp hr
  · rintro ⟨t, htf, hfile⟩
    rw [htype] at htf
    obtain rfl := Json.str.inj htf
    exact absurd hfile (by decide)

/-- Text to a group: the sender is `from`. -/
theorem credits_groupMessage {g m : Json} (ht : o.find (str "type") = .str (str "group_message")) :
    Credits printable root n (groupText now (bindSender n o) g m) := by
  have htype : (groupText now (bindSender n o) g m).find (str "type") =
      .str (str "group_message") := by
    rw [find_groupText _ _ _ _ (by decide), find_bindSender _ _ (by decide), ht]
  have hfrom : (groupText now (bindSender n o) g m).find (str "from") = .str n := by
    rw [find_groupText _ _ _ _ (by decide), bindSender_from]
  refine ⟨?_, ?_, ?_⟩
  · intro _ username disk chat message sender hr
    rw [receive_groupMessage htype, hfrom] at hr
    exact (Effect.received.inj (List.mem_singleton.mp hr)).2.2
  · intro username disk path filedata hr
    rw [receive_groupMessage htype] at hr
    cases List.mem_singleton.mp hr
  · rintro ⟨t, htf, hfile⟩
    rw [htype] at htf
    obtain rfl := Json.str.inj htf
    exact absurd hfile (by decide)

/-- A file whose checks passed is stored when the disk allows it. -/
theorem receiveFile_checked (root : MediaRoot) (username : Str)
    (disk : Disk)
    (h : FileChecks printable p) : ∃ filedata, decodeFile (p.find (str "payload")) = some filedata ∧
    receiveFile printable root username disk p =
      if !disk.makedirs || !disk.write then ⟨[], false⟩
      else ⟨[.saved (root.parts ++
          [str "user_" ++ safePathPart printable (.str username) (str "unknown_user"),
            str "from_" ++ safePathPart printable (p.find (str "from")) (str "unknown_sender"),
            safeFilename printable (p.find (str "filename"))]) filedata,
        .received (if (p.find (str "to_type")).isStr (str "group") then
            hashed printable (p.find (str "to")) else p.find (str "from"))
          (notice printable (p.find (str "filename")) (p.find (str "from")))
          (.str (str "System"))], true⟩ := by
  obtain ⟨s, raw, hs, hne, hraw, -⟩ := checkFileSize_iff.mp h.data
  have htruthy : (p.find (str "payload")).truthy = true := by
    rw [hs]
    simp [Json.truthy, hne]
  have hdecode : decodeFile (p.find (str "payload")) = some raw := by
    rw [hs]
    exact hraw
  refine ⟨raw, hdecode, ?_⟩
  simp only [receiveFile, h.named, htruthy, Bool.not_true, Bool.or_self, Bool.false_eq_true,
    if_false]
  rw [hdecode]
  simp only [buildReceivePath_eq]

/-- A file: its directory is named after the sanitised name of the sender. -/
theorem credits_file {t : Str} (ht : o.find (str "type") = .str t)
    (hfile : t = str "message_file" ∨ t = str "group_file") (hchecks : FileChecks printable o)
    (hn : SafeName 32 n) :
    Credits printable root n (fileOut now (bindSender n o)) ↔ PlainEnds n := by
  have htype : (fileOut now (bindSender n o)).find (str "type") = .str t := by
    rw [find_outgoing_file _ _ _ (by decide), ht]
  have hfrom : (fileOut now (bindSender n o)).find (str "from") = .str n := by
    rw [find_fileOut _ _ (by decide), bindSender_from]
  have hchecks' := hchecks.outgoing n now
  have hpart : safePathPart printable (.str n) (str "unknown_sender") = n ↔ PlainEnds n := by
    rw [safePathPart, Json.orEmpty_str]
    refine safePathText_eq_self_iff hn (by decide) ⟨?_, ?_⟩
    · rintro c hc
      obtain rfl := Option.some.inj hc
      decide
    · rintro c hc
      obtain rfl := Option.some.inj hc
      decide
  refine ⟨fun h => ?_, fun h => ⟨?_, ?_, ?_⟩⟩
  · obtain ⟨filedata, -, hround⟩ := receiveFile_checked root [] ⟨true, true⟩ hchecks'
    have hsaved := h.directory [] ⟨true, true⟩ (root.parts ++
      [str "user_" ++ safePathPart printable (.str []) (str "unknown_user"),
        str "from_" ++ safePathPart printable (.str n) (str "unknown_sender"),
        safeFilename printable ((fileOut now (bindSender n o)).find (str "filename"))]) filedata
    rw [receive_file htype hfile, hround, hfrom] at hsaved
    obtain ⟨user, file, hpath⟩ := hsaved (List.mem_cons_self ..)
    simp only [List.append_cancel_left_eq, List.cons.injEq, List.append_cancel_left_eq] at hpath
    exact hpart.mp hpath.2.1
  · rintro (htext | htext)
    all_goals
      rw [htype] at htext
      obtain rfl := Json.str.inj htext
      exact absurd hfile (by decide)
  · intro username disk path filedata hr
    obtain ⟨raw, -, hround⟩ := receiveFile_checked root username disk hchecks'
    rw [receive_file htype hfile, hround, hfrom, hpart.mpr h] at hr
    split at hr
    · cases hr
    · rcases List.mem_cons.mp hr with hr | hr
      · exact ⟨_, _, (Effect.saved.inj hr).1⟩
      · cases List.mem_singleton.mp hr
  · intro _ username disk chat message sender hr
    obtain ⟨raw, -, hround⟩ := receiveFile_checked root username disk hchecks'
    rw [receive_file htype hfile, hround, hfrom] at hr
    split at hr
    · cases hr
    · rcases List.mem_cons.mp hr with hr | hr
      · cases hr
      · exact (Effect.received.inj (List.mem_singleton.mp hr)).2.1

/-- Whatever passes the server's checks is credited to its sender exactly when the
request is genuine. -/
theorem Passes.credits_iff {a : Action} (h : Passes printable n now o a)
    (ha : (∃ g, a = .fanOut g p) ∨ ∃ u, a = .forward u p) (hn : SafeName 32 n) :
    Credits printable root n p ↔ Genuine o n := by
  have htext : ∀ {t}, o.find (str "type") = .str t → t ≠ str "message" →
      (o.find (str "type") = .str (str "message") →
        ∀ v, Dict.get o (str "sender") = some v → v = .str n) := by
    intro t ht hne hm
    rw [ht] at hm
    exact absurd (Json.str.inj hm) hne
  cases h with
  | message ht _ _ =>
    obtain ⟨_, ⟨⟩⟩ | ⟨_, ⟨⟩⟩ := ha
    rw [credits_message ht]
    exact ⟨fun h => ⟨fun _ => h, fun hf => absurd hf (Payload.IsText.not_file (.inl ht))⟩,
      fun h => h.1 ht⟩
  | groupMessage ht _ _ =>
    obtain ⟨_, ⟨⟩⟩ | ⟨_, ⟨⟩⟩ := ha
    exact ⟨fun _ => ⟨htext ht (by decide),
      fun hf => absurd hf (Payload.IsText.not_file (.inr ht))⟩, fun _ => credits_groupMessage ht⟩
  | groupFile ht htype hchecks _ _ | userFile ht htype hchecks _ _ =>
    obtain ⟨_, ⟨⟩⟩ | ⟨_, ⟨⟩⟩ := ha
    rw [credits_file ht htype hchecks hn]
    refine ⟨fun h => ⟨htext ht ?_, fun _ => h⟩, fun h => h.2 ⟨_, ht, htype⟩⟩
    rcases htype with rfl | rfl <;> decide
  | ignore | create => obtain ⟨_, ⟨⟩⟩ | ⟨_, ⟨⟩⟩ := ha

/-- **When recipients credit the right user**: for every text and file the server writes in
any run, all that a recipient hands on names the writing connection's user if and only if
the request is genuine. -/
theorem credits_iff_genuine {x : Config Conn Tables Phase Event}
    (h : (server printable).Reach Any x) {later past : List Event} {c : Conn} {t : Target}
    {p : Payload} {ok : Bool} (hlog : x.log = later ++ .wrote c t p ok :: past)
    (hp : p.IsForwarded) : ∃ σ o, .registered c σ ∈ past ∧
      (∀ σ', .registered c σ' ∈ past → σ' = σ) ∧ current past c = some o ∧
      ∀ root, Credits printable root σ.name p ↔ Genuine o σ.name := by
  have hj := authorised_log h
  rw [hlog] at hj
  obtain ⟨σ, o, u, hauth⟩ := hj.at c t p ok rfl hp
  have hmem : .registered c σ ∈ x.log := by
    rw [hlog]
    exact List.mem_append_right _ (List.mem_cons_of_mem _ hauth.session)
  have hname : SafeName 32 σ.name := (names_reach h).1 c σ hmem
  obtain ⟨now, a, hpass, ha⟩ := hauth.passed
  exact ⟨σ, o, hauth.session, hauth.oneSession, hauth.request,
    fun root => hpass.credits_iff ha hname⟩

/-- Alice's text to Bob is credited as the theorem says. -/
theorem credits_iff_genuine_alice : ∃ x : Config Conn Tables Phase Event,
    (server fun _ => true).Reach Any x ∧ ∃ past p,
      x.log = .wrote 0 (1, demoKey) p true :: past ∧ ∃ σ o, .registered 0 σ ∈ past ∧
        (∀ σ', .registered 0 σ' ∈ past → σ' = σ) ∧ current past 0 = some o ∧
        ∀ root, Credits (fun _ => true) root σ.name p ↔ Genuine o σ.name := by
  obtain ⟨x, hx, hp⟩ := exists_reach_of_exec (P := server fun _ => true)
    (join 0 (str "alice") 0 ++ join 1 (str "bob") 1 ++
      [(0, .frame (textTo (str "bob")) []), (0, .run), (0, .sent true)])
    (p := sentByAlice) (by decide +kernel)
  obtain ⟨past, p, hlog, htype, -⟩ := sentByAlice_log hp
  have hsplit : x.log = [] ++ .wrote 0 (1, demoKey) p true :: past := hlog
  exact ⟨x, hx, past, p, hlog, credits_iff_genuine hx hsplit ⟨_, htype, .message⟩⟩

/-- Alice's text to Bob, with a field that names Carol. -/
def forged : Payload := textTo (str "bob") ++ [(str "sender", .str (str "carol"))]

/-- Carol is the sender of the payload that was sent last. -/
def namesCarol : List Event → Bool
  | .wrote _ _ p _ :: _ => (p.find (str "sender")).isStr (str "carol")
  | _ => false

/-- Bob's client hands on Carol as the sender of Alice's text. -/
theorem forged_credits_carol : ∃ x : Config Conn Tables Phase Event,
    (server fun _ => true).Reach Any x ∧ ∃ past p,
      x.log = .wrote 0 (1, demoKey) p true :: past ∧ p.IsForwarded ∧
      .registered 0 ⟨demoKey, str "alice"⟩ ∈ past ∧
      ∀ root disk, ¬ Credits (fun _ => true) root (str "alice") p ∧
        (receive (fun _ => true) root (str "bob") disk (.obj p)).effects =
          [.received (.str (str "alice")) (p.find (str "payload")) (.str (str "carol"))] := by
  obtain ⟨x, hx, hp⟩ := exists_reach_of_exec (P := server fun _ => true)
    (join 0 (str "alice") 0 ++ join 1 (str "bob") 1 ++
      [(0, .frame forged []), (0, .run), (0, .sent true)])
    (p := fun x => sentByAlice x &&
      decide (Dict.get x.memory.clients (str "alice") = some (0, demoKey)) &&
      namesCarol x.log) (by decide +kernel)
  rw [Bool.and_eq_true, Bool.and_eq_true] at hp
  obtain ⟨⟨hp, hget⟩, hsender⟩ := hp
  have hreg := ((sessions_reach hx).table _ _ _).mp (of_decide_eq_true hget) |>.1
  obtain ⟨past, p, hlog, htype, hfrom⟩ := sentByAlice_log hp
  have hcarol : (Dict.get p (str "sender")).getD (.str (str "alice")) = .str (str "carol") := by
    rw [hlog] at hsender
    have hs : (Dict.get p (str "sender")).getD .null = .str (str "carol") :=
      Json.isStr_iff.mp hsender
    rcases hg : Dict.get p (str "sender") with _ | v
    · rw [hg] at hs
      cases hs
    · rw [hg] at hs
      exact hs
  have hround : ∀ root disk, receive (fun _ => true) root (str "bob") disk (.obj p) =
      ⟨[.received (.str (str "alice")) (p.find (str "payload")) (.str (str "carol"))], true⟩ := by
    intro root disk
    rw [receive_message htype, hfrom, hcarol]
  rw [hlog] at hreg
  refine ⟨x, hx, past, p, hlog, ⟨_, htype, .message⟩, ?_, fun root disk => ⟨fun h => ?_, ?_⟩⟩
  · exact (List.mem_cons.mp hreg).resolve_left nofun
  · have hsame := h.text (.inl htype) (str "bob") disk _ _ _
      (by rw [hround]; exact List.mem_singleton_self _)
    exact absurd (Json.str.inj hsame) (by decide)
  · rw [hround]

end GuardedIM
