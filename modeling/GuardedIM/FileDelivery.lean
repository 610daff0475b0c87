import GuardedIM.Attribution
import GuardedIM.ReceivePath
import GuardedIM.Relay

/-!
# The delivery of a file

A file is measured as bytes, by both sides, and travels as base64 inside JSON inside an envelope
inside a frame. Its name is checked by both sides and sanitised by the recipient.

* `length_filePayload_le`: the frames leave room for the largest file with the longest names.
* `file_delivered`: what the recipients write.
-/

namespace GuardedIM

open Interleave Interleave.Program

variable {A : Aead} {F : Json.Interpreter} {printable : CodePoint → Bool} {root : MediaRoot}
  {username recipient name : Str} {file : Bytes} {t : UtcTime}

/-- A name that passes the check is what the sanitiser makes of it. -/
theorem transferFilename_kept (h : isSafeTransferFilename printable (.str name) = true) :
    safeFilename printable (.str name) = name ∧ SafeName 120 name := by
  have hkept : safeFileText name = name := by
    by_contra hne
    simp [isSafeTransferFilename, hne] at h
  have hname : safeFilename printable (.str name) = name := by
    rw [safeFilename, Json.orEmpty_str, hkept]
  refine ⟨hname, ?_⟩
  have hsafe := safeFilename_safeName printable (.str name)
  rwa [hname] at hsafe

/-- A valid name has no hash in front. -/
theorem lstripHash_safeName {n : ℕ} {s : Str} (h : SafeName n s) : lstripHash s = s := by
  cases s with
  | nil => rfl
  | cons c s =>
    have hc : c ≠ cp '#' := by
      rintro rfl
      exact absurd (h.2.2 _ (List.mem_cons_self ..)) (by decide)
    rw [lstripHash, List.dropWhile_cons_of_neg (by simpa using hc)]

/-! ## The object -/

/-- The base64 text is written as it is. -/
theorem length_dumps_b64encode (file : Bytes) :
    (Json.dumps (.str (b64encode file))).length = (file.length + 2) / 3 * 4 + 2 := by
  rw [Json.dumps, Json.length_dumpStr_plain fun c hc => ?_, length_b64encode]
  obtain ⟨hlow, hhigh, hquote, hslash⟩ := b64encode_plain c hc
  exact Json.dumpChar_plain hlow (Nat.le_of_lt_succ hhigh) hquote hslash

theorem canonical_filePayload (type toType : String) (file : Bytes) (t : UtcTime)
    (hname : SafeName 32 username)
    (hrecipient : SafeName 48 recipient) (hfile : SafeName 120 name) :
    Json.Canonical F (.obj (ChatClient.filePayload (str type) username recipient (str toType)
      (b64encode file) name t.isoformat)) := by
  have htype := Json.canonical_empty.field "type" (Json.canonical_literal (F := F) type)
  have hto := (htype.field "from" (Json.canonical_str hname.ascii)).field "to"
    (Json.canonical_str hrecipient.ascii)
  have hascii : Json.Ascii (b64encode file) :=
    fun c hc => (b64encode_plain c hc).2.1.trans (by decide)
  have hdata := (hto.field "to_type" (Json.canonical_literal toType)).field "payload"
    (Json.canonical_str hascii)
  have hnamed := (hdata.field "payload_type" (Json.canonical_literal "file")).field "filename"
    (Json.canonical_str hfile.ascii)
  have hstamp : Json.Ascii (t.isoformat ++ str "Z") :=
    Json.ascii_append t.ascii_isoformat (Json.ascii_of_all rfl)
  exact (hnamed.field "payload_id" .null).field "timestamp" (Json.canonical_str hstamp)

/-- **The object is a third longer than the file**, and a little. -/
theorem length_filePayload_le (type toType : Str) (file : Bytes) (t : UtcTime)
    (htype : (Json.dumps (.str type)).length ≤ 14)
    (htoType : (Json.dumps (.str toType)).length ≤ 7) (hname : SafeName 32 username)
    (hrecipient : SafeName 48 recipient) (hfile : SafeName 120 name) :
    (Json.dumps (.obj (ChatClient.filePayload type username recipient toType (b64encode file) name
      t.isoformat))).length ≤ (file.length + 2) / 3 * 4 + 450 := by
  have hkeys : (Json.dumpStr (str "type")).length = 6 ∧ (Json.dumpStr (str "from")).length = 6 ∧
      (Json.dumpStr (str "to")).length = 4 ∧ (Json.dumpStr (str "to_type")).length = 9 ∧
      (Json.dumpStr (str "payload")).length = 9 ∧ (Json.dumpStr (str "filename")).length = 10 := by
    decide
  obtain ⟨htypeKey, hfrom, hto, htoTypeKey, hpayload, hfilename⟩ := hkeys
  have hkind : Json.memberSize (str "payload_type", .str (str "file")) = 24 :=
    memberSize_literal (by decide)
  have hid : Json.memberSize (str "payload_id", .null) = 20 := by decide
  have hobj : ChatClient.filePayload type username recipient toType (b64encode file) name
      t.isoformat ≠ [] := nofun
  have hclock := t.length_isoformat
  have hlong := hname.2.1
  have hlong' := hrecipient.2.1
  have hlong'' := hfile.2.1
  rw [Json.length_dumps_obj hobj, ChatClient.filePayload, Json.membersSize]
  simp only [List.map_cons, List.map_nil, List.sum_cons, List.sum_nil, hkind, hid,
    memberSize_timestamp, Json.memberSize_mk (str "type"), Json.memberSize_mk (str "from"),
    Json.memberSize_mk (str "to"), Json.memberSize_mk (str "to_type"),
    Json.memberSize_mk (str "payload"), Json.memberSize_mk (str "filename"), htypeKey, hfrom, hto,
    htoTypeKey, hpayload, hfilename, length_dumps_name hname, length_dumps_name hrecipient,
    length_dumps_name hfile, length_dumps_b64encode]
  omega

/-- Both frames of a file that passed the client's check. -/
theorem filePayload_fits (type toType : Str) (htype : (Json.dumps (.str type)).length ≤ 14)
    (htoType : (Json.dumps (.str toType)).length ≤ 7) (hname : SafeName 32 username)
    (hrecipient : SafeName 48 recipient) (hfile : SafeName 120 name)
    (hsize : file.length ≤ maxFileSize) (t : UtcTime) :
    (Json.dumps (.obj (ChatClient.filePayload type username recipient toType (b64encode file) name
      t.isoformat))).length + 28 ≤ maxFrameSize := by
  have hlen := length_filePayload_le type toType file t htype htoType hname hrecipient hfile
  have hmax : maxFileSize = 5242880 ∧ maxFrameSize = 8388608 := ⟨rfl, rfl⟩
  omega

/-- The server's checks on a file that passed the client's. -/
theorem checks_passed (hcheck : isSafeTransferFilename printable (.str name) = true)
    (hne : 0 < file.length) (hsize : file.length ≤ maxFileSize) :
    (Json.str (b64encode file)).truthy = true ∧ (Json.str name).truthy = true ∧
      checkFileSize (.str (b64encode file)) = true := by
  have hdata : b64encode file ≠ [] := by
    rw [ne_eq, b64encode_eq_nil, ← ne_eq, ← List.length_pos_iff]
    exact hne
  have hnamed : name ≠ [] := by
    rintro rfl
    cases hcheck
  refine ⟨?_, ?_, (checkFileSize_b64encode file).mpr ⟨hne, hsize⟩⟩
  · simp [Json.truthy, hdata]
  · simp [Json.truthy, hnamed]

/-- What is passed on to a user. -/
theorem dispatch_messageFile (username : Str) (t readAt : UtcTime) (hto : SafeName 32 recipient)
    (hcheck : isSafeTransferFilename printable (.str name) = true) (hne : 0 < file.length)
    (hsize : file.length ≤ maxFileSize) :
    dispatch printable username readAt.isoformat (ChatClient.filePayload (str "message_file")
      username recipient (str "user") (b64encode file) name t.isoformat) =
        .ok (.forward recipient (ChatClient.filePayload (str "message_file") username recipient
          (str "user") (b64encode file) name readAt.isoformat)) := by
  obtain ⟨hdata, hnamed, hlimit⟩ := checks_passed hcheck hne hsize
  have hname : isSafeUsername (.str recipient) = .ok true := isSafeUsername_iff.mpr ⟨_, rfl, hto⟩
  have hbranch : dispatch printable username readAt.isoformat
      (ChatClient.filePayload (str "message_file") username recipient (str "user")
        (b64encode file) name t.isoformat) =
      if !(Json.str (b64encode file)).truthy || !(Json.str name).truthy then .error .valueError
      else require (.ok (isSafeTransferFilename printable (.str name)))
        (str "Blocked dangerous filename.") (require (.ok (checkFileSize (.str (b64encode file))))
          (str "Message dropped. Exceeds limit of " ++ Json.decimal maxFileSize ++ str " bytes.")
          (require (isSafeUsername (.str (lstripHash recipient)))
            (str "Invalid recipient username.") (.ok (.forward (lstripHash recipient)
              (ChatClient.filePayload (str "message_file") username recipient (str "user")
                (b64encode file) name readAt.isoformat))))) := rfl
  rw [hbranch, hdata, hnamed, hcheck, hlimit, lstripHash_safeName hto, hname]
  rfl

/-- And to a group. -/
theorem dispatch_groupFile (username : Str) (t readAt : UtcTime) (hto : SafeName 48 recipient)
    (hcheck : isSafeTransferFilename printable (.str name) = true) (hne : 0 < file.length)
    (hsize : file.length ≤ maxFileSize) :
    dispatch printable username readAt.isoformat (ChatClient.filePayload (str "group_file")
      username recipient (str "group") (b64encode file) name t.isoformat) =
        .ok (.fanOut recipient (ChatClient.filePayload (str "group_file") username recipient
          (str "group") (b64encode file) name readAt.isoformat)) := by
  obtain ⟨hdata, hnamed, hlimit⟩ := checks_passed hcheck hne hsize
  have hname : isSafeGroupName (.str recipient) = .ok true :=
    isSafeGroupName_iff.mpr ⟨_, rfl, hto⟩
  have hbranch : dispatch printable username readAt.isoformat
      (ChatClient.filePayload (str "group_file") username recipient (str "group")
        (b64encode file) name t.isoformat) =
      if !(Json.str (b64encode file)).truthy || !(Json.str name).truthy then .error .valueError
      else require (.ok (isSafeTransferFilename printable (.str name)))
        (str "Blocked dangerous filename.") (require (.ok (checkFileSize (.str (b64encode file))))
          (str "Message dropped. Exceeds limit of " ++ Json.decimal maxFileSize ++ str " bytes.")
          (require (isSafeGroupName (.str (lstripHash recipient))) (str "Invalid group name.")
            (.ok (.fanOut (lstripHash recipient) (ChatClient.filePayload (str "group_file")
              username recipient (str "group") (b64encode file) name readAt.isoformat))))) := rfl
  rw [hbranch, hdata, hnamed, hcheck, hlimit, lstripHash_safeName hto, hname]
  rfl

/-- What a recipient with a working disk does with the file. -/
theorem receive_filePayload (root : MediaRoot) (username username' recipient : Str)
    (t : UtcTime) {type : Str} (toType : Str)
    (htype : type = str "message_file" ∨ type = str "group_file")
    (hcheck : isSafeTransferFilename printable (.str name) = true) (hne : 0 < file.length)
    (hsize : file.length ≤ maxFileSize) :
    ∃ path, buildReceivePath printable root (.str username') (.str username) (.str name) =
        .ok path ∧ path.getLast? = some name ∧
      receive printable root username' ⟨true, true⟩ (.obj (ChatClient.filePayload type username
        recipient toType (b64encode file) name t.isoformat)) =
      ⟨[.saved path file, .received
        (if toType = str "group" then .str (cp '#' :: recipient) else .str username)
        (notice printable (.str name) (.str username)) (.str (str "System"))], true⟩ := by
  obtain ⟨hdata, hnamed, hlimit⟩ := checks_passed hcheck hne hsize
  have hchecks : FileChecks printable (ChatClient.filePayload type username recipient toType
      (b64encode file) name t.isoformat) := ⟨hnamed, hcheck, hlimit⟩
  obtain ⟨filedata, hfile, hround⟩ := receiveFile_checked root username' ⟨true, true⟩ hchecks
  obtain rfl : filedata = file := by
    have hdecode := b64decode_b64encode file
    exact Option.some.inj (hfile.symm.trans hdecode)
  refine ⟨_, buildReceivePath_eq .., ?_, ?_⟩
  · rw [List.getLast?_append, (transferFilename_kept hcheck).1]
    rfl
  · have htoType : (ChatClient.filePayload type username recipient toType (b64encode filedata)
        name t.isoformat).find (str "to_type") = .str toType := rfl
    rw [receive_file rfl htype, hround, htoType, Json.isStr_str]
    by_cases hgroup : toType = str "group"
    · rw [decide_eq_true hgroup, if_pos hgroup]
      rfl
    · rw [decide_eq_false hgroup, if_neg hgroup]
      rfl

/-! ## Both hops -/

variable {x : Config Conn Tables Phase Event} {c : Conn} {σ : Session}

/-- **File transfer.** `send_file` and `send_group_file` get past their checks of the name and the
size exactly for the names that `is_safe_transfer_filename` accepts and the files of one byte to
5 MiB. When one of them returns `True` its frame is within the limit, the server's checks pass,
membership aside, and everybody the file is for writes what was read, under the name it had. -/
theorem file_delivered (A : Aead) (F : Json.Interpreter) (printable : CodePoint → Bool)
    (root : MediaRoot) (hx : (server printable).Reach Any x) (hloop : x.thread c = .loop σ)
    (send : Str → Option Str) (sentAt readAt : UtcTime) (nonce : Nonce) (file : Bytes)
    (filePath : Str) :
    b64decode (b64encode file ++ str "===") = some file ∧
    (∀ toUser, SafeName 32 toUser →
      ((∃ text note, ChatClient.sendFile printable (fun _ => none) σ.name sentAt toUser filePath
          (.ok file) = .sent text note) ↔
        isSafeTransferFilename printable (.str (basename filePath)) = true ∧ 0 < file.length ∧
          file.length ≤ maxFileSize)) ∧
    (∀ toGroup, SafeName 48 (lstripHash toGroup) →
      ((∃ text note, ChatClient.sendGroupFile printable (fun _ => none) σ.name sentAt toGroup
          filePath (.ok file) = .sent text note) ↔
        isSafeTransferFilename printable (.str (basename filePath)) = true ∧ 0 < file.length ∧
          file.length ≤ maxFileSize)) ∧
    (∀ toUser text note body,
      ChatClient.sendFile printable send σ.name sentAt toUser filePath (.ok file) =
        .sent text note →
      sendEncrypted A σ.key text nonce.1 = some body →
      ∃ p, Relayed A F printable x c σ body readAt.isoformat p (· = toUser) ∧
        ∀ t : Target, usable t.2 = true → ∃ path,
          buildReceivePath printable root (.str toUser) (.str σ.name) (.str (basename filePath)) =
            .ok path ∧ path.getLast? = some (basename filePath) ∧
          Arrives A F printable root ⟨true, true⟩ t toUser p [.saved path file,
            .received (.str σ.name)
              (notice printable (.str (basename filePath)) (.str σ.name))
              (.str (str "System"))]) ∧
    ∀ toGroup text note body,
      ChatClient.sendGroupFile printable send σ.name sentAt toGroup filePath (.ok file) =
        .sent text note →
      sendEncrypted A σ.key text nonce.1 = some body →
      body.length ≤ maxFrameSize ∧
      ∃ p y, (server printable).next x (c, received A F σ.key body readAt.isoformat) = some y ∧
        y.thread c = .act σ (.fanOut (lstripHash toGroup) p) ∧
        (∀ ms, Dict.get x.memory.groups (lstripHash toGroup) = some ms → σ.name ∈ ms →
          Relayed A F printable x c σ body readAt.isoformat p fun m => m ∈ ms ∧ m ≠ σ.name) ∧
        ∀ (t : Target) (username : Str), usable t.2 = true → ∃ path,
          buildReceivePath printable root (.str username) (.str σ.name)
            (.str (basename filePath)) = .ok path ∧ path.getLast? = some (basename filePath) ∧
          Arrives A F printable root ⟨true, true⟩ t username p [.saved path file,
            .received (.str (cp '#' :: lstripHash toGroup))
              (notice printable (.str (basename filePath)) (.str σ.name))
              (.str (str "System"))] := by
  have hname := session_name hx hloop
  refine ⟨b64decode_b64encode file, fun toUser hto => ?_, fun toGroup hto => ?_,
    fun toUser text note body hsent hbody => ?_, fun toGroup text note body hsent hbody => ?_⟩
  · have hcheck : isSafeUsername (.str toUser) = .ok true := isSafeUsername_iff.mpr ⟨_, rfl, hto⟩
    simp [ChatClient.sendFile, ChatClient.checked_eq_sent, ChatClient.sendTransfer_sent, hcheck]
  · have hcheck : isSafeGroupName (.str (lstripHash toGroup)) = .ok true :=
      isSafeGroupName_iff.mpr ⟨_, rfl, hto⟩
    simp [ChatClient.sendGroupFile, ChatClient.checked_eq_sent, ChatClient.sendTransfer_sent,
      hcheck]
  · obtain ⟨hcheck, hsent⟩ := ChatClient.checked_eq_sent.mp hsent
    obtain ⟨u, hu, hto⟩ := isSafeUsername_iff.mp hcheck
    obtain rfl := Json.str.inj hu
    obtain ⟨⟨hfile, hne, hsize⟩, -, rfl, -⟩ := ChatClient.sendTransfer_sent.mp hsent
    have hto' : SafeName 48 toUser := ⟨hto.1, hto.2.1.trans (by decide), hto.2.2⟩
    have hkept := (transferFilename_kept hfile).2
    have ho := canonical_filePayload (F := F) "message_file" "user" file sentAt hname hto' hkept
    have hp := canonical_filePayload (F := F) "message_file" "user" file readAt hname hto' hkept
    have hfits := filePayload_fits (str "message_file") (str "user") (by decide) (by decide) hname
      hto' hkept hsize
    refine ⟨_, relayed_forward hloop ?_ (received_sent ho nonce hbody _)
      (dispatch_messageFile σ.name sentAt readAt hto hfile hne hsize), fun t hkey => ?_⟩
    · rw [length_sent ho nonce hbody]
      exact hfits sentAt
    · obtain ⟨path, hpath, hlast, hround⟩ := receive_filePayload root σ.name toUser toUser readAt
        (str "user") (.inl rfl) hfile hne hsize
      exact ⟨path, hpath, hlast, arrives_of hp hkey (hfits readAt) hround⟩
  · obtain ⟨hcheck, hsent⟩ := ChatClient.checked_eq_sent.mp hsent
    obtain ⟨g, hg, hto⟩ := isSafeGroupName_iff.mp hcheck
    obtain rfl := Json.str.inj hg
    obtain ⟨⟨hfile, hne, hsize⟩, -, rfl, -⟩ := ChatClient.sendTransfer_sent.mp hsent
    have hkept := (transferFilename_kept hfile).2
    have ho := canonical_filePayload (F := F) "group_file" "group" file sentAt hname hto hkept
    have hp := canonical_filePayload (F := F) "group_file" "group" file readAt hname hto hkept
    have hfits := filePayload_fits (str "group_file") (str "group") (by decide) (by decide) hname
      hto hkept hsize
    have hreceived := received_sent ho nonce hbody readAt.isoformat
    have hd := dispatch_groupFile σ.name sentAt readAt hto hfile hne hsize
    have hfirst : body.length ≤ maxFrameSize := by
      rw [length_sent ho nonce hbody]
      exact hfits sentAt
    refine ⟨hfirst, _, _, next_received hloop hreceived hd, after_thread_self ..,
      fun ms hms hσ => relayed_fanOut hx hloop hfirst hreceived hd hms hσ,
      fun t username hkey => ?_⟩
    obtain ⟨path, hpath, hlast, hround⟩ := receive_filePayload root σ.name username
      (lstripHash toGroup) readAt (str "group") (.inr rfl) hfile hne hsize
    exact ⟨path, hpath, hlast, arrives_of hp hkey (hfits readAt) hround⟩

/-- Alice sends two bytes to Bob, and to the group. -/
theorem file_delivered_txt : ∃ (x : Config Conn Tables Phase Event) (p q : Payload)
    (body body' : Bytes) (path : List Str), (server fun _ => true).Reach Any x ∧
      isSafeTransferFilename (fun _ => true) (.str (basename (str "/tmp/a.txt"))) = true ∧
      Relayed demoAead demoInterpreter (fun _ => true) x 0 ⟨demoKey, str "alice"⟩ body
        demoTime.isoformat p (· = str "bob") ∧
      path.getLast? = some (str "a.txt") ∧
      Arrives demoAead demoInterpreter (fun _ => true) demoRoot ⟨true, true⟩ (1, demoKey)
        (str "bob") p [.saved path [104, 105], .received (.str (str "alice"))
          (notice (fun _ => true) (.str (str "a.txt")) (.str (str "alice")))
          (.str (str "System"))] ∧
      Relayed demoAead demoInterpreter (fun _ => true) x 0 ⟨demoKey, str "alice"⟩ body'
        demoTime.isoformat q (fun m => m ∈ [str "alice", str "bob"] ∧ m ≠ str "alice") := by
  obtain ⟨x, hx, hloop, -, hteam⟩ := exists_team
  obtain ⟨-, hpast, -, huser, hgroup⟩ := file_delivered demoAead demoInterpreter (fun _ => true)
    demoRoot hx hloop (fun _ => none) demoTime demoTime demoNonce [104, 105] (str "/tmp/a.txt")
  obtain ⟨text, note, body, hcall, hbody⟩ := exists_sent (ChatClient.sendFile (fun _ => true)
    (fun _ => none) (str "alice") demoTime (str "bob") (str "/tmp/a.txt") (.ok [104, 105]))
    (by decide +kernel)
  obtain ⟨text', note', body', hcall', hbody'⟩ := exists_sent (ChatClient.sendGroupFile
    (fun _ => true) (fun _ => none) (str "alice") demoTime (str "#team") (str "/tmp/a.txt")
    (.ok [104, 105])) (by decide +kernel)
  obtain ⟨p, hp, harrives⟩ := huser _ _ _ _ hcall hbody
  obtain ⟨-, q, y, -, -, hq, -⟩ := hgroup _ _ _ _ hcall' hbody'
  obtain ⟨path, -, hlast, hsaved⟩ := harrives (1, demoKey) rfl
  have hname := ((hpast (str "bob") (by decide)).mp ⟨text, note, hcall⟩).1
  exact ⟨x, p, q, body, body', path, hx, hname, hp, hlast, hsaved,
    hq _ hteam (List.mem_cons_self ..)⟩

end GuardedIM
