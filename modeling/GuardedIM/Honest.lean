import GuardedIM.FileDelivery
import GuardedIM.TextDelivery

/-!
# What an honest client asks for

Whatever its five methods give to `send_encrypted` is an object that `json.loads` gives back, and
that passes all of the server's checks on a request before the tables. Any text may be in it: what
`json.dumps` makes of two halves of a surrogate pair is what it makes of the character.

* `Json.dumpStr_rejoined`: every text is dumped like one that comes back.
* `Honest`: the object in a frame of the client.
* `Method.honest`: there always is one, and only `create_group` can make a frame that is too large.
-/

namespace GuardedIM

namespace Json

/-! ## Texts with surrogates -/

/-- A surrogate is escaped as it is. -/
theorem dumpChar_surrogate {c : CodePoint} (h : Surrogate c) :
    dumpChar c = GuardedIM.str "\\u" ++ hex 4 c.val := by
  obtain ⟨hlow, hhigh⟩ := h
  rw [dumpChar_escaped (by omega), if_pos (by omega)]

/-- A character beyond the first plane is escaped as a pair. -/
theorem dumpChar_supplementary {c : CodePoint} (h : 0x10000 ≤ c.val) : dumpChar c =
    GuardedIM.str "\\u" ++ hex 4 (0xD800 + (c.val - 0x10000) / 0x400) ++
      (GuardedIM.str "\\u" ++ hex 4 (0xDC00 + (c.val - 0x10000) % 0x400)) := by
  rw [dumpChar_escaped (by omega), if_neg (by omega)]

/-- A pair is dumped like the character it stands for. -/
theorem dumpChar_joinPair {c d : CodePoint} (hc : IsHigh c) (hd : IsLow d) :
    dumpChar (joinPair c d) = dumpChar c ++ dumpChar d := by
  obtain ⟨hc₁, hc₂⟩ := hc
  obtain ⟨hd₁, hd₂⟩ := hd
  have hval : (joinPair c d).val = 0x10000 + (c.val - 0xD800) * 0x400 + (d.val - 0xDC00) := by
    simp only [joinPair, Fin.ofNat]
    omega
  rw [dumpChar_supplementary (by omega), dumpChar_surrogate ⟨hc₁, by omega⟩,
    dumpChar_surrogate ⟨by omega, hd₂⟩, hval]
  have hhigh : 0xD800 + (0x10000 + (c.val - 0xD800) * 0x400 + (d.val - 0xDC00) - 0x10000) / 0x400 =
      c.val := by omega
  have hlow : 0xDC00 + (0x10000 + (c.val - 0xD800) * 0x400 + (d.val - 0xDC00) - 0x10000) % 0x400 =
      d.val := by omega
  rw [hhigh, hlow]

theorem flatMap_marked (c : CodePoint) :
    (marked c).flatMap (fun x => dumpChar x.1) = dumpChar c := by
  have hc : c.val < 0x110000 := c.isLt
  rw [marked]
  split_ifs with h
  · simp
  · have hhigh : (Fin.ofNat 0x110000 (0xD800 + (c.val - 0x10000) / 0x400)).val =
        0xD800 + (c.val - 0x10000) / 0x400 := by
      simp only [Fin.ofNat]
      omega
    have hlow : (Fin.ofNat 0x110000 (0xDC00 + (c.val - 0x10000) % 0x400)).val =
        0xDC00 + (c.val - 0x10000) % 0x400 := by
      simp only [Fin.ofNat]
      omega
    rw [dumpChar_supplementary (by omega), List.flatMap_cons, List.flatMap_cons, List.flatMap_nil,
      List.append_nil, dumpChar_surrogate (by rw [Surrogate, hhigh]; omega),
      dumpChar_surrogate (by rw [Surrogate, hlow]; omega), hhigh, hlow]

/-- So joining pairs does not change what is written. -/
theorem flatMap_joinPairs (l : List (CodePoint × Bool)) :
    (joinPairs l).flatMap dumpChar = l.flatMap fun x => dumpChar x.1 := by
  induction l using joinPairs.induct with
  | case1 => rfl
  | case2 => simp [joinPairs]
  | case3 c e d f l hpair ih =>
    obtain ⟨-, -, hhigh, hlow⟩ := id hpair
    rw [joinPairs, if_pos hpair, List.flatMap_cons, ih, dumpChar_joinPair hhigh hlow,
      List.append_assoc]
    rfl
  | case4 c e d f l hpair ih =>
    rw [joinPairs, if_neg hpair, List.flatMap_cons, ih]
    rfl

/-- What `json.loads` gives back for a text. -/
def rejoined (s : Str) : Str := joinPairs (s.flatMap marked)

theorem joined_rejoined (s : Str) : Joined (rejoined s) := by
  refine joined_joinPairs fun e he hmark hsurrogate => ?_
  obtain ⟨c, -, hc⟩ := List.mem_flatMap.mp he
  rw [marked] at hc
  obtain ⟨hlow, hhigh⟩ := hsurrogate
  split_ifs at hc with hplane
  · -- a surrogate has no short form
    obtain rfl := List.mem_singleton.mp hc
    have hshort : isShort c = false := by
      have hne : ∀ d : CodePoint, d.val < 0x80 → c ≠ d := by
        rintro d hd rfl
        simp only at hlow
        omega
      simp only at hlow hhigh
      simp [isShort, hne (cp '\n') (by decide), hne (cp '\r') (by decide),
        hne (cp '\t') (by decide)]
      omega
    simp [hshort] at hmark
  · simp only [List.mem_cons, List.not_mem_nil, or_false] at hc
    rcases hc with rfl | rfl
    · cases hmark
    · cases hmark

/-- **Every text is dumped like one that comes back.** -/
theorem dumpStr_rejoined (s : Str) : dumpStr (rejoined s) = dumpStr s := by
  have hflat : (s.flatMap marked).flatMap (fun x => dumpChar x.1) = s.flatMap dumpChar := by
    rw [List.flatMap_assoc]
    simp only [flatMap_marked]
  rw [dumpStr, dumpStr, rejoined, flatMap_joinPairs, hflat]

end Json

namespace ChatClient

/-! ## The calls -/

/-- A call of one of the five methods. -/
inductive Method where
  /-- `send_message(to_user, message)` -/
  | sendMessage (toUser message : Str)
  /-- `send_group_message(to_group, message)` -/
  | sendGroupMessage (toGroup message : Str)
  /-- `create_group(group_name, members)` -/
  | createGroup (groupName : Str) (members : List Str)
  /-- `send_file(to_user, file_path)`, and what is read from the file -/
  | sendFile (toUser filePath : Str) (contents : Except Str Bytes)
  /-- `send_group_file(to_group, file_path)`, and what is read from the file -/
  | sendGroupFile (toGroup filePath : Str) (contents : Except Str Bytes)

/-- What it comes to. -/
def Method.call (printable : CodePoint → Bool) (send : Str → Option Str) (username : Str)
    (now : UtcTime) : Method → Call
  | .sendMessage u m => ChatClient.sendMessage send username now u m
  | .sendGroupMessage g m => ChatClient.sendGroupMessage send username now g m
  | .createGroup g ms => ChatClient.createGroup send username now g ms
  | .sendFile u path contents => ChatClient.sendFile printable send username now u path contents
  | .sendGroupFile g path contents =>
    ChatClient.sendGroupFile printable send username now g path contents

/-- The text is an object that comes back, and that gets past all checks that the server makes
before it consults its tables: none of them answers. -/
structure Honest (F : Json.Interpreter) (printable : CodePoint → Bool) (username text : Str)
    (o : Payload) : Prop where
  /-- it is what `json.dumps` makes of the object -/
  dumped : text = Json.dumps (.obj o)
  /-- `json.loads` gives that back -/
  canonical : Json.Canonical F (.obj o)
  /-- and no check is answered with an error -/
  passes : ∀ (readAt : UtcTime) q, dispatch printable username readAt.isoformat o ≠ .ok (.reply q)

variable {F : Json.Interpreter} {printable : CodePoint → Bool} {send : Str → Option Str}
  {username text : Str} {now : UtcTime} {note : Option Str} {r : Method}

/-- On the wire, two halves of a pair next to each other are one character. -/
theorem dumps_textPayload (type recipient toType message clock : Str) :
    Json.dumps (.obj (textPayload type username recipient toType message clock)) =
      Json.dumps (.obj (textPayload type username recipient toType (Json.rejoined message)
        clock)) := by
  simp only [textPayload, Json.dumps, Json.dumpEntries, Json.dumpStr_rejoined]

/-- A new group is a value of JSON. -/
theorem canonical_groupPayload {g : Str} {ms : List Str} (t : UtcTime)
    (hname : SafeName 32 username) (hg : SafeName 48 g) (hms : ∀ m ∈ ms, SafeName 32 m) :
    Json.Canonical F (.obj (groupPayload username g ms t.isoformat)) := by
  have htype := Json.canonical_empty.field "type" (Json.canonical_literal (F := F) "create_group")
  have hgroup := (htype.field "from" (Json.canonical_str hname.ascii)).field "group_name"
    (Json.canonical_str hg.ascii)
  have hmembers := hgroup.field "members"
    (Json.canonical_names F.inside_pos fun m hm => (hms m hm).ascii)
  have hstamp : Json.Ascii (t.isoformat ++ str "Z") :=
    Json.ascii_append t.ascii_isoformat (Json.ascii_of_all rfl)
  exact hmembers.field "timestamp" (Json.canonical_str hstamp)

/-- The server makes the group that the client asks for. -/
theorem dispatch_groupPayload {g : Str} {ms : List Str} (t readAt : UtcTime)
    (hg : SafeName 48 g) (hms : ∀ m ∈ ms, SafeName 32 m) :
    dispatch printable username readAt.isoformat (groupPayload username g ms t.isoformat) =
      .ok (.create g (sortedSet (ms ++ [username]))) := by
  have hname : isSafeGroupName (.str g) = .ok true := isSafeGroupName_iff.mpr ⟨_, rfl, hg⟩
  have hnames : allSafeUsernames (ms.map .str) = .ok true :=
    allSafeUsernames_iff.mpr ⟨ms, rfl, hms⟩
  have htexts : (Json.arr (ms.map .str)).texts = ms := by
    simp [Json.texts, Json.text, Function.comp_def]
  have hbranch : dispatch printable username readAt.isoformat
      (groupPayload username g ms t.isoformat) = require (isSafeGroupName (.str g))
        (str "Invalid group name.") (require (allSafeUsernames (ms.map .str))
          (str "Invalid group members.") (.ok (.create g (sortedSet
            ((Json.arr (ms.map .str)).texts ++ [username]))))) := rfl
  rw [hbranch, hname, hnames, htexts]
  rfl

/-- A call that sends has passed the checks of the client. -/
theorem createGroup_sent {g : Str} {ms : List Str}
    (h : createGroup send username now g ms = .sent text note) :
    SafeName 48 g ∧ (∀ m ∈ ms, SafeName 32 m) ∧
      text = Json.dumps (.obj (groupPayload username g ms now.isoformat)) := by
  obtain ⟨hg, h⟩ := checked_eq_sent.mp h
  obtain ⟨hms, h⟩ := checked_eq_sent.mp h
  obtain ⟨g', hg', hsafe⟩ := isSafeGroupName_iff.mp hg
  obtain rfl := Json.str.inj hg'
  obtain ⟨ms', hms', hall⟩ := allSafeUsernames_iff.mp hms
  obtain rfl := List.map_injective_iff.mpr (fun _ _ => Json.str.inj) hms'
  dsimp only at h
  split at h
  · obtain ⟨rfl, -⟩ := Call.sent.inj h
    exact ⟨hsafe, hall, rfl⟩
  · cases h

/-- What a text of the client asks for, and how long it is. -/
theorem honest_text {type toType recipient message : Str} {literal literal' : String}
    (htype : type = str literal) (htoType : toType = str literal') (hname : SafeName 32 username)
    (hto : ∀ c ∈ recipient, c.val < 0x80)
    (htext : text = Json.dumps (.obj (textPayload type username recipient toType message
      now.isoformat)))
    (hsize : checkMessageSize text = .ok true)
    (hpasses : ∀ message, checkMessageSize message ≠ .ok false → ∀ (readAt : UtcTime) q,
      dispatch printable username readAt.isoformat (textPayload type username recipient toType
        message now.isoformat) ≠ .ok (.reply q)) :
    (∃ o, Honest F printable username text o) ∧ text.length + 28 ≤ maxFrameSize := by
  subst htype htoType
  rw [dumps_textPayload] at htext
  subst htext
  have hmessage := Json.joined_rejoined message
  obtain ⟨hlen, -, hserver⟩ := textPayload_fits hname hto hmessage hsize now
  exact ⟨⟨_, rfl, canonical_textPayload literal literal' hname hto hmessage,
    hpasses _ hserver⟩, hlen⟩

/-- And a file. -/
theorem honest_file {type toType recipient target filePath : Str} {contents : Except Str Bytes}
    {literal literal' : String} (htype : type = str literal) (htoType : toType = str literal')
    (hshort : (Json.dumps (.str type)).length ≤ 14)
    (hshort' : (Json.dumps (.str toType)).length ≤ 7) (hname : SafeName 32 username)
    (hto : SafeName 48 recipient)
    (h : sendTransfer printable send username now type recipient toType target filePath contents =
      .sent text note)
    (hpasses : ∀ {name : Str} {file : Bytes}, isSafeTransferFilename printable (.str name) = true →
      0 < file.length → file.length ≤ maxFileSize → ∀ (readAt : UtcTime) q,
      dispatch printable username readAt.isoformat (filePayload type username recipient toType
        (b64encode file) name now.isoformat) ≠ .ok (.reply q)) :
    (∃ o, Honest F printable username text o) ∧ text.length + 28 ≤ maxFrameSize := by
  cases contents with
  | error e =>
    rw [sendTransfer] at h
    split_ifs at h
  | ok file =>
    obtain ⟨⟨hcheck, hne, hsize⟩, -, rfl, -⟩ := sendTransfer_sent.mp h
    have hsafe := (transferFilename_kept hcheck).2
    subst htype htoType
    exact ⟨⟨_, rfl, canonical_filePayload literal literal' file now hname hto hsafe,
      hpasses hcheck hne hsize⟩, filePayload_fits _ _ hshort hshort' hname hto hsafe hsize now⟩

theorem require_passes {check : Except Exc Bool} {msg : Str} {a : Action}
    (hcheck : check ≠ .ok false) (ha : ∀ q, a ≠ .reply q) (q : Payload) :
    require check msg (.ok a) ≠ .ok (.reply q) := by
  rcases check with e | _ | _
  · exact nofun
  · exact absurd rfl hcheck
  · exact fun h => ha q (Except.ok.inj h)

/-- **Every frame of an honest client** has an object that is not answered with an error before the
tables are consulted. -/
theorem Method.honest (hname : SafeName 32 username)
    (h : r.call printable send username now = .sent text note) :
    (∃ o, Honest F printable username text o) ∧
      ((∀ g ms, r ≠ .createGroup g ms) → text.length + 28 ≤ maxFrameSize) := by
  have hfits : (∃ o, Honest F printable username text o) ∧ text.length + 28 ≤ maxFrameSize →
      (∃ o, Honest F printable username text o) ∧
        ((∀ g ms, r ≠ .createGroup g ms) → text.length + 28 ≤ maxFrameSize) :=
    fun h => ⟨h.1, fun _ => h.2⟩
  cases r with
  | sendMessage u m =>
    obtain ⟨hto, htext, hsize⟩ := sendMessage_sent h
    refine hfits (honest_text rfl rfl hname hto.ascii htext hsize fun m hm readAt q => ?_)
    rw [dispatch_message printable username m now readAt hto]
    refine require_passes hm ?_ q
    exact nofun
  | sendGroupMessage g m =>
    obtain ⟨hto, htext, hsize⟩ := sendGroupMessage_sent h
    refine hfits (honest_text rfl rfl hname hto.ascii htext hsize fun m _ readAt q => ?_)
    rw [dispatch_groupMessage hto]
    exact nofun
  | createGroup g ms =>
    obtain ⟨hg, hms, rfl⟩ := createGroup_sent h
    refine ⟨⟨_, rfl, canonical_groupPayload now hname hg hms, fun readAt q => ?_⟩,
      fun hne => absurd rfl (hne g ms)⟩
    rw [dispatch_groupPayload now readAt hg hms]
    exact nofun
  | sendFile u path contents =>
    obtain ⟨hu, h⟩ := checked_eq_sent.mp h
    obtain ⟨u, hu, hto⟩ := isSafeUsername_iff.mp hu
    obtain rfl := Json.str.inj hu
    have hlong : SafeName 48 u := ⟨hto.1, hto.2.1.trans (by decide), hto.2.2⟩
    refine hfits (honest_file rfl rfl (by decide) (by decide) hname hlong h
      fun hcheck hne hsize readAt q => ?_)
    rw [dispatch_messageFile username now readAt hto hcheck hne hsize]
    exact nofun
  | sendGroupFile g path contents =>
    obtain ⟨hg, h⟩ := checked_eq_sent.mp h
    obtain ⟨g, hg, hto⟩ := isSafeGroupName_iff.mp hg
    obtain rfl := Json.str.inj hg
    refine hfits (honest_file rfl rfl (by decide) (by decide) hname hto h
      fun hcheck hne hsize readAt q => ?_)
    rw [dispatch_groupFile username now readAt hto hcheck hne hsize]
    exact nofun

end ChatClient

end GuardedIM
