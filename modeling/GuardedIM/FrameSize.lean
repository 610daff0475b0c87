import Mathlib.Algebra.BigOperators.Group.Finset.Basic
import GuardedIM.DumpSize
import GuardedIM.Fanout
import GuardedIM.Outgoing
import GuardedIM.UserList

/-!
# How large the server's frames are

`read_frame` and `receive_loop` refuse frames over `MAX_FRAME_SIZE`; `send_payload` writes frames of
any size. What it writes for a request is the request with some fields overwritten, escaped once
more, or an invitation that lists the members.

* `FitsFrame`: every frame of a payload is within the limit.
* `Roomy`: the condition on a request, in terms of what its members take once they are escaped.
  `roomy_iff`: it is exactly that what the request leads to fits.
* `frames_fit`: in a run whose requests are roomy, every frame the server writes for one fits.
* `frame_too_large`: a request within the limit whose frame to the recipient is not.
-/

namespace GuardedIM

open Interleave Interleave.Program Chunked

/-- Every body that `encrypt_message` makes of the payload is within the limit. -/
def FitsFrame (A : Aead) (p : Payload) : Prop :=
  ∀ (key : Key) (nonce : Nonce) (body : Bytes),
    encryptMessage A nonce.1 (Json.dumps (.obj p)) key = .ok body → body.length ≤ maxFrameSize

/-- What an action sends. -/
def Action.payloads : Action → List Payload
  | .ignore => []
  | .reply p => [p]
  | .create g ms => [groupInvite g ms, groupCreated g]
  | .fanOut _ p => [p]
  | .forward _ p => [p]

/-- The fields the server writes into a request that it passes on. -/
def stamps (username now : Str) (o : Payload) : Payload :=
  let sender := (str "from", Json.str username)
  let clock := (str "timestamp", Json.str (now ++ str "Z"))
  let type := o.find (str "type")
  if type.isStr (str "group_message") then
    -- both fields are written back; one that was missing becomes `None`
    [sender, (str "to", o.find (str "to")), (str "payload", o.find (str "payload")),
      (str "payload_type", .str (str "text")), (str "to_type", .str (str "group")), clock]
  else if type.isStr (str "message") then
    [sender, (str "payload_type", .str (str "text")), (str "to_type", .str (str "user")), clock]
  else [sender, (str "payload_type", .str (str "file")), clock]

/-- What a request takes once it is passed on: the members that are kept, and these fields. -/
def passedOnSize (username now : Str) (o : Payload) : ℕ :=
  Json.membersSize (Dict.without o (Dict.keys (stamps username now o))) +
    Json.membersSize (stamps username now o)

/-- What the invitations to a new group take: 55 characters, the name, and each member once. -/
def inviteSize (username : Str) (o : Payload) : ℕ :=
  let members := ((Dict.get o (str "members")).getD (.arr [])).texts ++ [username]
  55 + (o.find (str "group_name")).text.length + ∑ m ∈ members.toFinset, (m.length + 4)

/-- There is room in a frame, with the nonce and the tag, for what the request leads to. -/
def Roomy (printable : CodePoint → Bool) (username now : Str) (o : Payload) : Prop :=
  match dispatch printable username now o with
  | .ok (.fanOut _ _) | .ok (.forward _ _) => passedOnSize username now o + 28 ≤ maxFrameSize
  | .ok (.create _ _) => inviteSize username o + 28 ≤ maxFrameSize
  | _ => True

/-- The handlers that are at their frame loop are given roomy requests. -/
def Room (printable : CodePoint → Bool) (x : Config Conn Tables Phase Event)
    (a : Conn × Input) : Prop :=
  ∀ σ o now, x.thread a.1 = .loop σ → a.2 = .frame o now → Roomy printable σ.name now o

variable {printable : CodePoint → Bool} {A : Aead} {F : Json.Interpreter} {username now : Str}
  {o p : Payload} {x : Config Conn Tables Phase Event} {c : Conn}

/-! ## From payloads to frames -/

/-- A body, and its length. -/
theorem exists_encrypted (hp : Json.Canonical F (.obj p)) (key : Key) (hkey : usable key = true)
    (nonce : Nonce) : ∃ body, encryptMessage A nonce.1 (Json.dumps (.obj p)) key = .ok body ∧
      body.length = (Json.dumps (.obj p)).length + 28 := by
  have hascii := Json.dumps_ascii hp
  have hbody : encryptMessage A nonce.1 (Json.dumps (.obj p)) key = .ok (nonce.1 ++
      A.encrypt key nonce.1 ((Json.dumps (.obj p)).map fun c => UInt8.ofNat c.val)) := by
    rw [encryptMessage, if_pos hkey, encode_ascii hascii]
  exact ⟨_, hbody, length_encryptMessage A nonce.2 hascii hbody⟩

/-- Sealing it does not raise, unless it is too long for a header. -/
theorem exists_sealed (hp : Json.Canonical F (.obj p)) (key : Key) (hkey : usable key = true)
    (nonce : Nonce) (hlen : (Json.dumps (.obj p)).length + 28 < 4294967296) :
    ∃ body, sealPayload A key p nonce.1 = some body ∧
      body.length = (Json.dumps (.obj p)).length + 28 := by
  obtain ⟨body, hbody, hbodyLen⟩ := exists_encrypted (A := A) hp key hkey nonce
  refine ⟨body, ?_, hbodyLen⟩
  rw [sealPayload, hbody]
  exact if_pos (hbodyLen ▸ hlen)

theorem fitsFrame_iff (hp : Json.Canonical F (.obj p)) :
    FitsFrame A p ↔ (Json.dumps (.obj p)).length + 28 ≤ maxFrameSize := by
  refine ⟨fun h => ?_, fun h key nonce body hbody => ?_⟩
  · -- one key and one nonce are enough: the length does not depend on them
    obtain ⟨body, hbody, hlen⟩ := exists_encrypted (A := A) hp demoKey rfl demoNonce
    rw [← hlen]
    exact h demoKey demoNonce body hbody
  · rw [length_encryptMessage A nonce.2 (Json.dumps_ascii hp) hbody]
    exact h

/-- A client reads the frame of a payload that fits. -/
theorem FitsFrame.read (h : FitsFrame A p) {key : Key} (nonce : Nonce) {body : Bytes}
    (hbody : sealPayload A key p nonce.1 = some body) {s : List Bytes} {rest : Bytes}
    (hs : s.flatten = frame body ++ rest) :
    ∃ s', clientTurn s = (.body body, s') ∧ s'.flatten = rest := by
  refine clientTurn_framed.frame ?_ hs
  rw [sealPayload] at hbody
  split at hbody
  · rename_i encrypted hencrypted
    split_ifs at hbody
    obtain rfl := Option.some.inj hbody
    exact h key nonce _ hencrypted
  · cases hbody

/-- And leaves its loop for the frame of one that does not. -/
theorem clientTurn_oversized {s : List Bytes} {body rest : Bytes} (hfit : Fits body)
    (hover : maxFrameSize < body.length) (hs : s.flatten = frame body ++ rest) :
    (clientTurn s).1 = .stop := by
  have hframe := readFrame_frame hfit hs
  rw [if_neg (Nat.not_le.mpr hover)] at hframe
  have hheader : (read 4 s).1 = pack body.length := by
    rw [frame, List.append_assoc] at hs
    exact (read_pack hs).1
  rcases hread : readFrame s with ⟨r, s'⟩
  rw [hread] at hframe
  obtain rfl : r = .error := hframe
  rw [clientTurn_eq, hread, hheader, unpack_pack hfit]
  rfl

/-! ## What the server says in its own name -/

theorem fitsFrame_error {msg : Str} (h : msg ∈ requestErrors ++ handlerErrors) :
    FitsFrame A (errorPayload msg) := by
  have hshort : (requestErrors ++ handlerErrors).all (fun msg => msg.all (·.val < 0x80) &&
      decide ((Json.dumps (.obj (errorPayload msg))).length + 28 ≤ maxFrameSize)) = true := by
    decide +kernel
  obtain ⟨hascii, hlen⟩ := Bool.and_eq_true_iff.mp (List.all_eq_true.mp hshort msg h)
  have hcanonical : Json.Canonical demoInterpreter (.obj (errorPayload msg)) :=
    canonical_errorPayload msg (Json.scalar_ascii (Json.ascii_of_all hascii)).joined
  exact (fitsFrame_iff hcanonical).mpr (of_decide_eq_true hlen)

theorem length_dumps_name {n : ℕ} {s : Str} (h : SafeName n s) :
    (Json.dumps (.str s)).length = s.length + 2 := by
  rw [Json.dumps]
  refine Json.length_dumpStr_plain fun d hd => ?_
  have hsafe := h.2.2 d hd
  refine Json.dumpChar_plain ?_ ?_ ?_ ?_
  · simp [safeChar] at hsafe
    omega
  · simp [safeChar] at hsafe
    omega
  · rintro rfl
    exact absurd hsafe (by decide)
  · rintro rfl
    exact absurd hsafe (by decide)

/-- What a literal takes as a member, by computation. -/
theorem memberSize_literal {k v : Str} {n : ℕ}
    (h : (Json.dumpStr k).length + (Json.dumpStr v).length + 4 = n) :
    Json.memberSize (k, .str v) = n := by
  rw [Json.memberSize, Json.dumps, h]

theorem length_dumps_groupCreated {g : Str} (hg : SafeName 48 g) :
    (Json.dumps (.obj (groupCreated g))).length = g.length + 43 := by
  have htype : Json.memberSize (str "type", .str (str "group_created")) = 25 :=
    memberSize_literal (by decide)
  have hname : (Json.dumpStr (str "group_name")).length = 12 := by decide
  have hlen := length_dumps_name hg
  have hobj : groupCreated g ≠ [] := nofun
  rw [Json.length_dumps_obj hobj, groupCreated, Json.membersSize]
  simp only [List.map_cons, List.map_nil, List.sum_cons, List.sum_nil, htype,
    Json.memberSize_mk (str "group_name"), hname, hlen]
  omega

theorem length_dumps_groupInvite {g : Str} {ms : List Str} (hg : SafeName 48 g)
    (hms : ∀ m ∈ ms, SafeName 32 m) (hne : ms ≠ []) :
    (Json.dumps (.obj (groupInvite g ms))).length =
      55 + g.length + (ms.map fun m => m.length + 4).sum := by
  have htype : Json.memberSize (str "type", .str (str "group_invite")) = 24 :=
    memberSize_literal (by decide)
  have hname : (Json.dumpStr (str "group_name")).length = 12 := by decide
  have hmembers : (Json.dumpStr (str "members")).length = 9 := by decide
  have hlen := length_dumps_name hg
  have hlist : (Json.dumps (.arr (ms.map .str))).length = (ms.map fun m => m.length + 4).sum := by
    rw [Json.length_dumps_arr (by simpa using hne), List.map_map]
    refine congrArg List.sum (List.map_congr_left fun m hm => ?_)
    rw [Function.comp_apply, length_dumps_name (hms m hm)]
  have hobj : groupInvite g ms ≠ [] := nofun
  rw [Json.length_dumps_obj hobj, groupInvite, Json.membersSize]
  simp only [List.map_cons, List.map_nil, List.sum_cons, List.sum_nil, htype,
    Json.memberSize_mk (str "group_name"), Json.memberSize_mk (str "members"), hname, hlen,
    hmembers, hlist]
  omega

/-! ## What a request leads to -/

/-- The payload that is passed on is the request with the fields of the server. -/
theorem Passes.stamped {a : Action} (h : Passes printable username now o a)
    (ha : (∃ g, a = .fanOut g p) ∨ ∃ u, a = .forward u p) :
    p = Dict.write o (stamps username now o) ∧ (Dict.keys (stamps username now o)).Nodup := by
  cases h with
  | groupMessage ht hg =>
    obtain ⟨_, ⟨⟩⟩ | ⟨_, ⟨⟩⟩ := ha
    have hstamps : stamps username now o = [(str "from", .str username),
        (str "to", o.find (str "to")), (str "payload", o.find (str "payload")),
        (str "payload_type", .str (str "text")), (str "to_type", .str (str "group")),
        (str "timestamp", .str (now ++ str "Z"))] := by
      simp only [stamps, ht]
      rfl
    rw [hstamps, hg]
    exact ⟨rfl, (by decide : [str "from", str "to", str "payload", str "payload_type",
      str "to_type", str "timestamp"].Nodup)⟩
  | message ht =>
    obtain ⟨_, ⟨⟩⟩ | ⟨_, ⟨⟩⟩ := ha
    have hstamps : stamps username now o = [(str "from", .str username),
        (str "payload_type", .str (str "text")), (str "to_type", .str (str "user")),
        (str "timestamp", .str (now ++ str "Z"))] := by
      simp only [stamps, ht]
      rfl
    rw [hstamps]
    exact ⟨rfl, (by decide : [str "from", str "payload_type", str "to_type",
      str "timestamp"].Nodup)⟩
  | groupFile ht htype | userFile ht htype =>
    obtain ⟨_, ⟨⟩⟩ | ⟨_, ⟨⟩⟩ := ha
    have hstamps : stamps username now o = [(str "from", .str username),
        (str "payload_type", .str (str "file")), (str "timestamp", .str (now ++ str "Z"))] := by
      rcases htype with rfl | rfl
      · simp only [stamps, ht]
        rfl
      · simp only [stamps, ht]
        rfl
    rw [hstamps]
    exact ⟨rfl, (by decide : [str "from", str "payload_type", str "timestamp"].Nodup)⟩
  | ignore | create => obtain ⟨_, ⟨⟩⟩ | ⟨_, ⟨⟩⟩ := ha

/-- Its size. -/
theorem Passes.length_dumps {a : Action} (h : Passes printable username now o a)
    (ha : (∃ g, a = .fanOut g p) ∨ ∃ u, a = .forward u p) (ho : Json.Canonical F (.obj o)) :
    (Json.dumps (.obj p)).length = passedOnSize username now o := by
  obtain ⟨hp, hkeys⟩ := h.stamped ha
  have hne : p ≠ [] := by
    rintro rfl
    have hfrom := h.sender_bound ha
    cases hfrom
  rw [Json.length_dumps_obj hne, hp]
  cases ho with
  | obj _ hnodup => exact Json.membersSize_write hnodup hkeys

/-- The size of the invitations to a new group. -/
theorem Passes.length_dumps_invite {g : Str} {ms : List Str}
    (h : Passes printable username now o (.create g ms)) (hname : SafeName 32 username) :
    (Json.dumps (.obj (groupInvite g ms))).length = inviteSize username o := by
  obtain ⟨hsafe, hall⟩ := h.names hname
  cases h with
  | @create g ms _ hg _ _ hmembers =>
    have hne : sortedSet (ms ++ [username]) ≠ [] :=
      List.ne_nil_of_mem (mem_sortedSet.mpr (List.mem_append_right _ (List.mem_singleton_self _)))
    -- the invitation names everybody once, the requester among them
    have hset : (sortedSet (ms ++ [username])).toFinset = (ms ++ [username]).toFinset := by
      ext m
      rw [List.mem_toFinset, List.mem_toFinset, mem_sortedSet]
    have hnodup : (sortedSet (ms ++ [username])).Nodup :=
      (sortedSet_sorted _).imp fun hlt => ne_of_lt hlt
    have htexts : (Json.arr (ms.map .str)).texts = ms := by
      simp [Json.texts, Json.text, Function.comp_def]
    rw [length_dumps_groupInvite hsafe hall hne, ← List.sum_toFinset _ hnodup, hset, inviteSize,
      hmembers, htexts, hg]
    rfl

/-- **Exactly the roomy requests lead to payloads that fit.** -/
theorem roomy_iff {a : Action} (ho : Json.Canonical F (.obj o)) (hname : SafeName 32 username)
    (hnow : ∀ d ∈ now, d.val < 0x80) (h : dispatch printable username now o = .ok a) :
    Roomy printable username now o ↔ ∀ p ∈ a.payloads, FitsFrame A p := by
  rw [Roomy, h]
  have hpassed : ∀ {p}, Passes printable username now o a →
      ((∃ g, a = .fanOut g p) ∨ ∃ u, a = .forward u p) →
      (passedOnSize username now o + 28 ≤ maxFrameSize ↔ FitsFrame A p) := by
    intro p hpass ha
    rw [fitsFrame_iff (hpass.canonical ho hname hnow ha), hpass.length_dumps ha ho]
  cases a with
  | ignore => simp [Action.payloads]
  | reply q =>
    have hq := dispatch_replies (Q := FitsFrame A)
      (fun msg hmsg => fitsFrame_error (List.mem_append_left _ hmsg)) q h
    simpa [Action.payloads] using hq
  | create g ms =>
    have hpass := dispatch_passes h (by rintro _ ⟨⟩)
    obtain ⟨hg, hms⟩ := hpass.names hname
    have hlen := hpass.length_dumps_invite hname
    have hinvite : Json.Canonical F (.obj (groupInvite g ms)) := canonical_groupInvite hg hms
    have hcreated : FitsFrame A (groupCreated g) := by
      rw [fitsFrame_iff (canonical_groupCreated (F := F) hg), length_dumps_groupCreated hg]
      have hshort := hg.2.1
      simp only [maxFrameSize]
      omega
    simp only [Action.payloads, List.forall_mem_cons, List.not_mem_nil, false_implies,
      implies_true, and_true, hcreated, fitsFrame_iff hinvite, hlen]
  | fanOut g p =>
    have hpass := dispatch_passes h (by rintro _ ⟨⟩)
    simpa [Action.payloads] using hpassed hpass (.inl ⟨g, rfl⟩)
  | forward u p =>
    have hpass := dispatch_passes h (by rintro _ ⟨⟩)
    simpa [Action.payloads] using hpassed hpass (.inr ⟨u, rfl⟩)

/-! ## The runs -/

theorem fits_reach (h : (server printable).Reach
      (fun z a => FromWire A F z a ∧ Room printable z a) x) {t : Target} {ok : Bool}
    (hw : .wrote c t p ok ∈ x.log) (hp : p.isUserList = false) : FitsFrame A p := by
  have hmeets : ∀ e ∈ x.log,
      e.Meets (FitsFrame A) fun p => FitsFrame A p ∨ p.isUserList = true := by
    refine (meets_reach h (fun msg hmsg => fitsFrame_error hmsg)
      (fun us _ => .inr (isUserList_userList us)) ?_).2
    rintro z c o now σ a ⟨hwire, hroom⟩ hloop hname hd -
    obtain ⟨⟨data, -, hdata⟩, hnow⟩ := hwire σ o now hloop rfl
    have hfits := (roomy_iff (A := A) (opened_canonical hdata) hname hnow hd).mp
      (hroom σ o now hloop rfl)
    cases a with
    | ignore => trivial
    | reply q => exact hfits q (List.mem_cons_self ..)
    | create g ms =>
      exact ⟨.inl (hfits _ (List.mem_cons_self ..)),
        hfits _ (List.mem_cons_of_mem _ (List.mem_cons_self ..))⟩
    | fanOut g p => exact .inl (hfits p (List.mem_cons_self ..))
    | forward u p => exact .inl (hfits p (List.mem_cons_self ..))
  rcases hmeets _ hw with ⟨-, hfits⟩ | hfits | hlist
  · exact hfits
  · exact hfits
  · rw [hp] at hlist
    cases hlist

/-- **When the frames stay within the limit.** In every run whose requests are roomy, each frame
that the server writes for one is within the limit, and the recipient reads it. No weaker condition
on a request that came from a frame would do for what it leads to. -/
theorem frames_fit (A : Aead) (F : Json.Interpreter) (printable : CodePoint → Bool) :
    (∀ x, (server printable).Reach (fun z a => FromWire A F z a ∧ Room printable z a) x →
      ∀ c t p ok, .wrote c t p ok ∈ x.log → p.isUserList = false → FitsFrame A p ∧
        ∀ (nonce : Nonce) body, sealPayload A t.2 p nonce.1 = some body →
          ∀ s rest, s.flatten = frame body ++ rest →
          ∃ s', clientTurn s = (.body body, s') ∧ s'.flatten = rest) ∧
    ∀ username now o a key data, SafeName 32 username → (∀ d ∈ now, d.val < 0x80) →
      opened A F key data = some (.obj o) → dispatch printable username now o = .ok a →
      (Roomy printable username now o ↔ ∀ p ∈ a.payloads, FitsFrame A p) := by
  refine ⟨fun x hx c t p ok hw hp => ?_, fun username now o a key data hname hnow hdata hd => ?_⟩
  · have hfits := fits_reach hx hw hp
    exact ⟨hfits, fun nonce body hbody s rest hs => hfits.read nonce hbody hs⟩
  · exact roomy_iff (opened_canonical hdata) hname hnow hd

/-- Alice's text to Bob, with a field nobody reads. -/
def padded (pad : Str) : Payload := textTo (str "bob") ++ [(str "pad", .str pad)]

/-- What `isoformat` may give. -/
def demoClock : Str := str "2026-01-01T00:00:00+00:00"

/-- What is passed on to Bob. -/
def paddedOut (pad : Str) : Payload :=
  userText demoClock (bindSender (str "alice") (padded pad))

section Padded

variable {pad : Str} (hpad : ∀ d ∈ pad, Json.dumpChar d = [d])

include hpad

theorem length_dumps_padded : (Json.dumps (.obj (padded pad))).length = pad.length + 60 := by
  have hname : (Json.dumpStr (str "pad")).length = 5 := by decide
  have hne : padded pad ≠ [] := nofun
  rw [Json.length_dumps_obj hne, padded, textTo, Json.membersSize]
  simp only [List.cons_append, List.nil_append, List.map_cons, List.map_nil, List.sum_cons,
    List.sum_nil]
  rw [memberSize_literal (by decide : _ = 19), memberSize_literal (by decide : _ = 13),
    memberSize_literal (by decide : _ = 17), Json.memberSize_mk, hname, Json.dumps,
    Json.length_dumpStr_plain hpad]
  omega

theorem length_dumps_paddedOut :
    (Json.dumps (.obj (paddedOut pad))).length = pad.length + 163 := by
  have hout : paddedOut pad = padded pad ++ [(str "from", .str (str "alice")),
      (str "payload_type", .str (str "text")), (str "to_type", .str (str "user")),
      (str "timestamp", .str (demoClock ++ str "Z"))] := rfl
  have hne : padded pad ≠ [] := nofun
  have hlen := length_dumps_padded hpad
  rw [Json.length_dumps_obj hne] at hlen
  rw [hout, Json.length_dumps_obj (by simp [padded]), Json.membersSize, List.map_append,
    List.sum_append]
  simp only [List.map_cons, List.map_nil, List.sum_cons, List.sum_nil]
  rw [memberSize_literal (by decide : _ = 17), memberSize_literal (by decide : _ = 24),
    memberSize_literal (by decide : _ = 19), memberSize_literal (by decide : _ = 43)]
  rw [Json.membersSize] at hlen
  omega

theorem canonical_padded : Json.Canonical demoInterpreter (.obj (padded pad)) := by
  have hascii : ∀ d ∈ pad, d.val < 0x80 := by
    intro d hd
    refine Json.ascii_dumpChar d d ?_
    rw [hpad d hd]
    exact List.mem_singleton_self d
  have htype := Json.canonical_empty.field "type"
    (Json.canonical_literal (F := demoInterpreter) "message")
  have hto := htype.field "to" (Json.canonical_literal "bob")
  exact (hto.field "payload" (Json.canonical_literal "hi")).field "pad" (Json.canonical_str hascii)

/-- What `send_payload` makes of what is passed on. -/
theorem exists_body (hlen : pad.length + 88 ≤ maxFrameSize) : ∃ body,
    sealPayload demoAead demoKey (paddedOut pad) demoNonce.1 = some body ∧
      body.length = pad.length + 191 := by
  have hsize := length_dumps_paddedOut hpad
  have hmax : maxFrameSize + 103 < 4294967296 := by decide
  have hclock : ∀ d ∈ demoClock, d.val < 0x80 := Json.ascii_of_all (by decide)
  have hname : SafeName 32 (str "alice") := by decide
  have hpass : Passes (fun _ => true) (str "alice") demoClock (padded pad)
      (.forward (str "bob") (paddedOut pad)) := .message rfl rfl (by decide)
  obtain ⟨body, hbody, hbodyLen⟩ := exists_sealed (A := demoAead)
    (hpass.canonical (canonical_padded hpad) hname hclock (.inr ⟨_, rfl⟩)) demoKey rfl demoNonce
    (by omega)
  exact ⟨body, hbody, hbodyLen.trans (by omega)⟩

/-- A request that fits into a frame gets to Bob. -/
theorem exists_paddedOut (hlen : pad.length + 88 ≤ maxFrameSize)
    {C : Config Conn Tables Phase Event → Conn × Input → Prop}
    (hquiet : ∀ y a, (∀ o now, a.2 ≠ Input.frame o now) → C y a)
    (hC : ∀ y, y.thread 0 = .loop ⟨demoKey, str "alice"⟩ →
      FromWire demoAead demoInterpreter y (0, .frame (padded pad) demoClock) →
      C y (0, .frame (padded pad) demoClock)) :
    ∃ x, (server fun _ => true).Reach C x ∧
      .wrote 0 (1, demoKey) (paddedOut pad) true ∈ x.log := by
  obtain ⟨y, hy, hloop, hbob⟩ := exists_joined hquiet
  have hsize := length_dumps_padded hpad
  have hmax : maxFrameSize < 4294967296 := by decide
  obtain ⟨data, hdata, hdataLen⟩ := exists_sealed (A := demoAead) (canonical_padded hpad)
    demoKey rfl demoNonce (by omega)
  have hclock : ∀ d ∈ demoClock, d.val < 0x80 := Json.ascii_of_all (by decide)
  have hwire := fromWire_sealed hloop demoNonce hdata (by omega) (canonical_padded hpad) hclock
  have hdispatch : dispatch (fun _ => true) (str "alice") demoClock (padded pad) =
      .ok (.forward (str "bob") (paddedOut pad)) := rfl
  obtain ⟨x, hx, hlog⟩ := exists_forward hy hloop hdispatch hbob rfl (hC y hloop hwire) hquiet
  refine ⟨x, hx, ?_⟩
  rw [hlog]
  exact List.mem_cons_self ..

end Padded

/-- Without the pad it is roomy, and Bob's client reads it. -/
theorem frames_fit_unpadded : ∃ (x : Config Conn Tables Phase Event) (body : Bytes),
    (server fun _ => true).Reach (fun z a => FromWire demoAead demoInterpreter z a ∧
      Room (fun _ => true) z a) x ∧
      .wrote 0 (1, demoKey) (paddedOut []) true ∈ x.log ∧
      sealPayload demoAead demoKey (paddedOut []) demoNonce.1 = some body ∧
      ∃ s', clientTurn [frame body] = (.body body, s') ∧ s'.flatten = [] := by
  have hroomy : Roomy (fun _ => true) (str "alice") demoClock (padded []) := by
    have hfits : passedOnSize (str "alice") demoClock (padded []) + 28 ≤ maxFrameSize := by
      decide
    exact hfits
  have hplain : ∀ d ∈ ([] : Str), Json.dumpChar d = [d] := nofun
  have hlen : ([] : Str).length + 88 ≤ maxFrameSize := by decide
  obtain ⟨x, hx, hw⟩ := exists_paddedOut hplain hlen
    (C := fun z a => FromWire demoAead demoInterpreter z a ∧ Room (fun _ => true) z a)
    (fun y a h => ⟨fromWire_quiet y a h, fun σ o now _ heq => absurd heq (h o now)⟩)
    (fun y hloop hwire => ⟨hwire, fun σ o now hloop' heq => by
      obtain rfl := Phase.loop.inj (hloop.symm.trans hloop')
      obtain ⟨rfl, rfl⟩ := Input.frame.inj heq
      exact hroomy⟩)
  obtain ⟨body, hbody, -⟩ := exists_body hplain hlen
  obtain ⟨-, hread⟩ := (frames_fit demoAead demoInterpreter fun _ => true).1 x hx 0 (1, demoKey)
    _ true hw rfl
  have hflat : [frame body].flatten = frame body ++ [] := by simp
  exact ⟨x, body, hx, hw, hbody, hread demoNonce body hbody [frame body] [] hflat⟩

/-- With the longest pad the server accepts, the frame for Bob is over the limit, and his client
leaves its loop. -/
theorem frame_too_large : ∃ (x : Config Conn Tables Phase Event) (pad : Str) (body : Bytes),
    (server fun _ => true).Reach (FromWire demoAead demoInterpreter) x ∧
      pad = List.replicate 8388520 (cp 'a') ∧
      .wrote 0 (1, demoKey) (paddedOut pad) true ∈ x.log ∧
      sealPayload demoAead demoKey (paddedOut pad) demoNonce.1 = some body ∧
      maxFrameSize < body.length ∧ (clientTurn [frame body]).1 = .stop := by
  -- a name for the pad, so that nothing computes with it
  obtain ⟨pad, hpad⟩ : ∃ pad, pad = List.replicate 8388520 (cp 'a') := ⟨_, rfl⟩
  have hplain : ∀ d ∈ pad, Json.dumpChar d = [d] := by
    intro d hd
    rw [hpad] at hd
    rw [List.eq_of_mem_replicate hd]
    rfl
  have hlen : pad.length = 8388520 := by rw [hpad, List.length_replicate]
  have hmax : maxFrameSize = 8388608 := rfl
  have hfit : pad.length + 88 ≤ maxFrameSize := by omega
  obtain ⟨x, hx, hw⟩ := exists_paddedOut hplain hfit (C := FromWire demoAead demoInterpreter)
    fromWire_quiet fun _ _ hwire => hwire
  obtain ⟨body, hbody, hbodyLen⟩ := exists_body hplain hfit
  have hover : maxFrameSize < body.length := by omega
  have hfits : Fits body := by
    rw [Fits]
    omega
  have hflat : [frame body].flatten = frame body ++ [] := by simp
  exact ⟨x, pad, body, hx, hpad, hw, hbody, hover, clientTurn_oversized hfits hover hflat⟩

end GuardedIM
