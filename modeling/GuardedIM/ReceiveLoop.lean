import GuardedIM.Attribution
import GuardedIM.Outgoing

/-!
# What others can do to a client's `receive_loop`

The client leaves its loop on an `error`, and on a file it cannot store. Neither reaches it
through another client's handler.

* `Harmless`: what a payload has to be like, whoever receives it.
* `Passes.harmless`: the server's checks on a request imply the client's on what is passed on.
* `others_harmless`: every payload that one client's handler writes to another client is harmless,
  so that the recipient's loop reads its frame and goes on to the next one.
-/

namespace GuardedIM

open Interleave Interleave.Program

/-- The file branch of the client goes through: both fields are there, the data decodes, the path
is built, and the file is stored there. -/
structure Stores (printable : CodePoint → Bool) (root : MediaRoot) (username : Str) (p : Payload) :
    Prop where
  /-- `filename` is not empty -/
  named : (p.find (str "filename")).truthy = true
  /-- nor is `payload` -/
  present : (p.find (str "payload")).truthy = true
  /-- what is left of the branch -/
  stored : ∃ filedata path, decodeFile (p.find (str "payload")) = some filedata ∧
    buildReceivePath printable root (.str username) (p.find (str "from"))
      (p.find (str "filename")) = .ok path ∧
    .saved path filedata ∈ (receive printable root username ⟨true, true⟩ (.obj p)).effects

/-- Whoever receives the payload goes on, as long as the disk does what it should. -/
structure Harmless (F : Json.Interpreter) (printable : CodePoint → Bool) (p : Payload) : Prop where
  /-- the recipient's `json.loads` gives it back -/
  canonical : Json.Canonical F (.obj p)
  /-- the recipient's round ends without `break` and `return` -/
  continues : ∀ root username,
    (receive printable root username ⟨true, true⟩ (.obj p)).continues = true
  /-- and stores the file, if it is one -/
  stores : p.IsFile → ∀ root username, Stores printable root username p

variable {printable : CodePoint → Bool} {A : Aead} {F : Json.Interpreter} {username now : Str}
  {o p : Payload} {C : Config Conn Tables Phase Event → Conn × Input → Prop}
  {x : Config Conn Tables Phase Event} {c : Conn}

/-! ## The payloads -/

/-- A payload of another type is harmless if the client goes on after it. -/
theorem harmless_of_type {s : Str} (hp : p.find (str "type") = .str s)
    (h₁ : s ≠ str "message_file") (h₂ : s ≠ str "group_file") (hc : Json.Canonical F (.obj p))
    (hr : ∀ root username,
      (receive printable root username ⟨true, true⟩ (.obj p)).continues = true) :
    Harmless F printable p :=
  ⟨hc, hr, fun hf => absurd hf (not_isFile hp h₁ h₂)⟩

theorem harmless_userList {us : List Str} (h : ∀ u ∈ us, SafeName 32 u) :
    Harmless F printable (userList us) :=
  harmless_of_type (s := str "user_list") rfl (by decide) (by decide) (canonical_userList h)
    fun _ _ => rfl

theorem harmless_groupInvite {g : Str} {ms : List Str} (hg : SafeName 48 g)
    (h : ∀ m ∈ ms, SafeName 32 m) : Harmless F printable (groupInvite g ms) :=
  harmless_of_type (s := str "group_invite") rfl (by decide) (by decide)
    (canonical_groupInvite hg h) fun _ _ => rfl

theorem harmless_groupCreated {g : Str} (hg : SafeName 48 g) :
    Harmless F printable (groupCreated g) :=
  harmless_of_type (s := str "group_created") rfl (by decide) (by decide)
    (canonical_groupCreated hg) fun _ _ => rfl

/-- The client stores whatever file the server has checked. -/
theorem harmless_file (hp : p.IsFile) (h : FileChecks printable p)
    (hc : Json.Canonical F (.obj p)) : Harmless F printable p := by
  obtain ⟨t, ht, htype⟩ := hp
  -- the checks on the name and the data are the server's, the path never fails
  have hround : ∀ root username, ∃ filedata path chat message sender,
      decodeFile (p.find (str "payload")) = some filedata ∧
      buildReceivePath printable root (.str username) (p.find (str "from"))
        (p.find (str "filename")) = .ok path ∧
      receive printable root username ⟨true, true⟩ (.obj p) =
        ⟨[.saved path filedata, .received chat message sender], true⟩ := by
    intro root username
    obtain ⟨filedata, hdecode, hfile⟩ := receiveFile_checked root username ⟨true, true⟩ h
    rw [receive_file ht htype, hfile]
    exact ⟨filedata, _, _, _, _, hdecode, buildReceivePath_eq .., rfl⟩
  refine ⟨hc, fun root username => ?_, fun _ root username => ⟨h.named, ?_, ?_⟩⟩
  · obtain ⟨_, _, _, _, _, -, -, hr⟩ := hround root username
    rw [hr]
  · obtain ⟨s, -, hs, hne, -, -⟩ := checkFileSize_iff.mp h.data
    rw [hs]
    simp [Json.truthy, hne]
  · obtain ⟨filedata, path, _, _, _, hdecode, hpath, hr⟩ := hround root username
    refine ⟨filedata, path, hdecode, hpath, ?_⟩
    rw [hr]
    exact List.mem_cons_self ..

/-- **The server's checks imply the client's**, for every request that is passed on. -/
theorem Passes.harmless {a : Action} (h : Passes printable username now o a)
    (ho : Json.Canonical F (.obj o)) (hname : SafeName 32 username)
    (hnow : ∀ d ∈ now, d.val < 0x80) (ha : (∃ g, a = .fanOut g p) ∨ ∃ u, a = .forward u p) :
    Harmless F printable p := by
  have hc := h.canonical ho hname hnow ha
  obtain ⟨htype, -⟩ := h.type_kept ha
  cases h with
  | groupMessage ht =>
    have hp := htype.trans ht
    refine harmless_of_type hp (by decide) (by decide) hc fun root username => ?_
    rw [receive_groupMessage hp]
  | message ht =>
    have hp := htype.trans ht
    refine harmless_of_type hp (by decide) (by decide) hc fun root username => ?_
    rw [receive_message hp]
  | groupFile ht hfile hchecks | userFile ht hfile hchecks =>
    obtain ⟨_, ⟨⟩⟩ | ⟨_, ⟨⟩⟩ := ha
    exact harmless_file ⟨_, htype.trans ht, hfile⟩ (hchecks.outgoing username now) hc
  | ignore | create => obtain ⟨_, ⟨⟩⟩ | ⟨_, ⟨⟩⟩ := ha

/-- An error is not. -/
theorem Harmless.not_error (h : Harmless F printable p) :
    p.find (str "type") ≠ .str (str "error") := by
  intro hp
  have hgoes := h.continues ⟨[], nofun⟩ []
  simp only [receive, receiveObject, hp] at hgoes
  cases hgoes

/-! ## The runs -/

/-- What a request that is not answered at once leads to. -/
theorem dispatch_harmless {a : Action} (hd : dispatch printable username now o = .ok a)
    (hreply : ∀ q, a ≠ .reply q) (ho : Json.Canonical F (.obj o)) (hname : SafeName 32 username)
    (hnow : ∀ d ∈ now, d.val < 0x80) :
    a.Meets (Harmless F printable) (Harmless F printable) := by
  have hpass := dispatch_passes hd hreply
  cases a with
  | ignore => trivial
  | reply q => exact absurd rfl (hreply q)
  | create g ms =>
    obtain ⟨hg, hms⟩ := hpass.names hname
    exact ⟨harmless_groupInvite hg hms, harmless_groupCreated hg⟩
  | fanOut g p => exact hpass.harmless ho hname hnow (.inl ⟨g, rfl⟩)
  | forward u p => exact hpass.harmless ho hname hnow (.inr ⟨u, rfl⟩)

/-- **Everything in hand is harmless**, and everything written, the answers to the requester
aside. -/
theorem harmless_reach (h : (server printable).Reach (FromWire A F) x) :
    (∀ c, (x.thread c).Meets (fun _ => True) (Harmless F printable)) ∧
      ∀ e ∈ x.log, e.Meets (fun _ => True) (Harmless F printable) := by
  refine meets_reach h (fun _ _ => trivial) (fun us hus => harmless_userList hus) ?_
  intro z c o now σ a hC hloop hname hd hreply
  obtain ⟨⟨data, -, hdata⟩, hnow⟩ := hC σ o now hloop rfl
  exact (dispatch_harmless hd hreply (opened_canonical hdata) hname hnow).mono fun _ _ => trivial

/-- The client's loop reads the frame of a harmless payload and goes on. -/
theorem Harmless.next (h : Harmless F printable p) (root : MediaRoot) (username : Str)
    {key : Key} (nonce : Nonce) {body : Bytes} (hbody : sealPayload A key p nonce.1 = some body)
    (hlen : body.length ≤ maxFrameSize) {disk : ℕ → Disk} {k : ℕ} (hdisk : disk k = ⟨true, true⟩)
    {s : List Bytes} {rest : Bytes} (hs : s.flatten = frame body ++ rest) :
    ∃ s', s'.flatten = rest ∧ ∀ fuel,
      frameLoop clientTurn (clientGoesOn A F printable root username key disk) (fuel + 1) k s =
        (frameLoop clientTurn (clientGoesOn A F printable root username key disk) fuel (k + 1)
          s').map (body :: ·) := by
  obtain ⟨s', hturn, hs'⟩ := clientTurn_framed.frame hlen hs
  have hopened : opened A F key body = some (.obj p) :=
    opened_sent (x := .payload p nonce) hbody h.canonical
  have hgoes : clientGoesOn A F printable root username key disk k body = true := by
    rw [clientGoesOn, clientRound, hopened, hdisk]
    exact h.continues root username
  refine ⟨s', hs', fun fuel => ?_⟩
  rw [frameLoop, hturn]
  simp only [hgoes, if_true]

/-- **A peer cannot stop another client's receive loop.** In any run of the server on frames, every
payload that the handler of one connection writes to another, if its frame is within the limit,
makes the client there read the frame and go on to the next one; a file passes the checks there and
is stored. An error only goes to the connection whose handler writes it. -/
theorem others_harmless (h : (server printable).Reach (FromWire A F) x) {t : Target} {ok : Bool}
    (hw : .wrote c t p ok ∈ x.log) :
    (t.1 ≠ c → ∀ root username, (p.IsFile → Stores printable root username p) ∧
      ∀ (nonce : Nonce) body, sealPayload A t.2 p nonce.1 = some body →
        body.length ≤ maxFrameSize → ∀ disk k, disk k = ⟨true, true⟩ → ∀ s rest,
        s.flatten = frame body ++ rest → ∃ s', s'.flatten = rest ∧ ∀ fuel,
          frameLoop clientTurn (clientGoesOn A F printable root username t.2 disk) (fuel + 1) k s =
            (frameLoop clientTurn (clientGoesOn A F printable root username t.2 disk) fuel (k + 1)
              s').map (body :: ·)) ∧
    (p.find (str "type") = .str (str "error") → t.1 = c) := by
  refine ⟨fun ht root username => ?_, fun herror => ?_⟩
  · have hp : Harmless F printable p := by
      rcases (harmless_reach h).2 _ hw with ⟨hself, -⟩ | hp
      · exact absurd hself ht
      · exact hp
    exact ⟨fun hf => hp.stores hf root username, fun nonce body hbody hlen disk k hdisk s rest hs =>
      hp.next root username nonce hbody hlen hdisk hs⟩
  · rcases (harmless_reach h).2 _ hw with ⟨hself, -⟩ | hp
    · exact hself
    · exact absurd herror hp.not_error

/-- Alice's file for Bob. -/
def fileRequest : Payload :=
  [(str "type", .str (str "message_file")), (str "to", .str (str "bob")),
    (str "filename", .str (str "a.txt")), (str "payload", .str (str "aGk="))]

/-- Bob's client stores it. -/
theorem others_harmless_file : ∃ (x : Config Conn Tables Phase Event) (p : Payload),
    (server fun _ => true).Reach (FromWire demoAead demoInterpreter) x ∧
      .wrote 0 (1, demoKey) p true ∈ x.log ∧ p.IsFile ∧
      Stores (fun _ => true) demoRoot (str "bob") p := by
  obtain ⟨x, hx, hloop, hbob⟩ := exists_joined (C := FromWire demoAead demoInterpreter)
    fromWire_quiet
  have hsealed : (sealPayload demoAead demoKey fileRequest demoNonce.1).any
      (fun b => decide (b.length ≤ maxFrameSize)) = true := by decide
  obtain ⟨data, hdata, hlen⟩ := Option.any_eq_true _ _ |>.mp hsealed
  have hliteral : ∀ {d : Payload}, Json.Canonical demoInterpreter (.obj d) → ∀ k v : String,
      Json.Canonical demoInterpreter (.obj (Dict.set d (str k) (.str (str v)))) :=
    fun hd k v => hd.field k (Json.canonical_literal v)
  have hcanonical : Json.Canonical demoInterpreter (.obj fileRequest) :=
    hliteral (hliteral (hliteral (hliteral Json.canonical_empty "type" "message_file") "to" "bob")
      "filename" "a.txt") "payload" "aGk="
  have hdispatch : dispatch (fun _ => true) (str "alice") [] fileRequest =
      .ok (.forward (str "bob") (fileOut [] (bindSender (str "alice") fileRequest))) := rfl
  obtain ⟨z, hz, hlog⟩ := exists_forward hx hloop hdispatch hbob rfl
    (fromWire_sealed hloop demoNonce hdata (of_decide_eq_true hlen) hcanonical nofun)
    fromWire_quiet
  have hw : .wrote 0 (1, demoKey) (fileOut [] (bindSender (str "alice") fileRequest)) true ∈
      z.log := by
    rw [hlog]
    exact List.mem_cons_self ..
  have hfile : (fileOut [] (bindSender (str "alice") fileRequest)).IsFile :=
    ⟨str "message_file", rfl, .inl rfl⟩
  exact ⟨z, _, hz, hw, hfile, ((others_harmless hz hw).1 nofun demoRoot (str "bob")).1 hfile⟩

end GuardedIM
