import GuardedIM.ReceivePath

/-!
# The name a received file is written under

The two senders of a file check its name with `is_safe_transfer_filename`. `receive_loop` only
sanitises the name it is given, whoever it comes from.

* `isSafeTransferFilename_safeFilename`: when a sanitised name passes the check. The cut to 120
  characters is the last thing the sanitiser does, and it can leave a dot at the end, or end the
  name behind an extension.
* `written_name_iff`: the same for every file that the loop writes.
-/

namespace GuardedIM

/-- What `safe_filename` cuts: the base name in safe characters, stripped of dots and
underscores. -/
def sanitised (s : Str) : Str := clean (basename (forwardSlashes s))

/-- The first 120 characters of the sanitised base name do not end within a run of dots and
underscores, and they have no blocked extension. -/
structure WellCut (s : Str) : Prop where
  /-- a name that is cut has no dot or underscore in front of the cut -/
  plain : 120 < (sanitised s).length →
    ∀ c, (sanitised s)[119]? = some c → isDotUnderscore c = false
  /-- the extension of what is left -/
  allowed : extension (lower ((sanitised s).take 120)) ∉ blockedFileExtensions

variable {printable : CodePoint → Bool} {root : MediaRoot} {username : Str} {disk : Disk} {s : Str}

/-! ## Sanitised names -/

/-- A text of safe characters has no directory part. -/
theorem basename_safe (h : ∀ c ∈ s, safeChar c = true) : basename (forwardSlashes s) = s := by
  have hne : ∀ c ∈ s, c ≠ cp '\\' ∧ c ≠ cp '/' := by
    intro c hc
    refine ⟨?_, ?_⟩
    all_goals
      rintro rfl
      exact absurd (h _ hc) (by decide)
  have hslashes : forwardSlashes s = s := by
    rw [forwardSlashes, List.map_congr_left (g := id), List.map_id]
    exact fun c hc => if_neg (hne c hc).1
  rw [hslashes, basename, List.rtakeWhile_eq_self_iff]
  exact fun c hc => decide_eq_true (hne c hc).2

/-- A sanitised name is sanitised once more without a change exactly when it has plain ends. -/
theorem safeFileText_eq_self_iff (h : SafeName 120 s) : safeFileText s = s ↔ PlainEnds s := by
  have hclean : clean s = stripBy isDotUnderscore s := by
    rw [clean, collapse_eq_self h.2.2]
  have hlen : (stripBy isDotUnderscore s).length ≤ 120 := (length_stripBy_le _ s).trans h.2.1
  rw [safeFileText, basename_safe h.2.2, hclean, List.take_of_length_le hlen, orElse]
  split_ifs with hnil
  · -- nothing but dots and underscores, so it is not the fallback either
    constructor
    · rintro rfl
      exact absurd hnil (by decide)
    · intro hp
      rw [stripBy_eq_self_iff.mpr hp] at hnil
      exact absurd h.1 (by simp [hnil])
  · exact stripBy_eq_self_iff

/-- What `strip("._")` leaves ends plainly. -/
theorem clean_getLast {c : CodePoint} (h : (clean s).getLast? = some c) :
    isDotUnderscore c = false := by
  have hne : clean s ≠ [] := by
    rintro hnil
    rw [hnil] at h
    cases h
  rw [List.getLast?_eq_some_getLast hne] at h
  obtain rfl := Option.some.inj h
  exact Bool.eq_false_iff.mpr (List.rdropWhile_last_not _ _ hne)

/-- The cut leaves plain ends when there is none in front of it. -/
theorem plainEnds_take_iff {n : ℕ} (hn : 0 < n) : PlainEnds ((clean s).take n) ↔
    (n < (clean s).length → ∀ c, (clean s)[n - 1]? = some c → isDotUnderscore c = false) := by
  have hhead : ∀ c, ((clean s).take n).head? = some c → isDotUnderscore c = false := by
    intro c hc
    rw [List.head?_take, if_neg hn.ne'] at hc
    exact clean_head hc
  rw [PlainEnds, and_iff_right hhead, List.getLast?_take, if_neg hn.ne']
  rcases Nat.lt_or_ge n (clean s).length with hlong | hshort
  · have hcut : (clean s)[n - 1]? = some (clean s)[n - 1] :=
      List.getElem?_eq_getElem (by omega)
    simp only [hlong, true_imp_iff, hcut, Option.some_or]
  · -- the text is not cut: its last character is the last of the stripped one
    refine iff_of_true (fun c hc => ?_) fun hlong => absurd hlong (Nat.not_lt.mpr hshort)
    rcases Nat.lt_or_ge (n - 1) (clean s).length with hlen | hlen
    · have hlast : (clean s).getLast? = (clean s)[n - 1]? := by
        rw [List.getLast?_eq_getElem?]
        congr 1
        omega
      rw [← hlast, Option.or_self] at hc
      exact clean_getLast hc
    · rw [List.getElem?_eq_none hlen, Option.none_or] at hc
      exact clean_getLast hc

/-- What the check for transfers asks of a safe name. -/
theorem SafeName.isSafeTransferFilename_iff {n : Str} (h : SafeName 120 n) :
    isSafeTransferFilename printable (.str n) = true ↔
      PlainEnds n ∧ extension (lower n) ∉ blockedFileExtensions := by
  have hne : n ≠ [] := List.ne_nil_of_length_pos h.1
  have htruthy : (Json.str n).truthy = true := by
    simp [Json.truthy, hne]
  have hname : safeFilename printable (.str n) = safeFileText n := by
    rw [safeFilename, Json.orEmpty_str]
  have htext : (Json.str n).toStr printable = n := rfl
  rw [← safeFileText_eq_self_iff h, isSafeTransferFilename, if_pos htruthy, hname, htext]
  by_cases hsame : safeFileText n = n
  · rw [if_neg (not_not_intro hsame), decide_eq_true_iff, hsame, and_iff_right rfl]
  · rw [if_pos hsame]
    refine iff_of_false Bool.false_ne_true ?_
    rintro ⟨heq, -⟩
    exact hsame heq

/-- **The sanitised names that the check for transfers accepts.** -/
theorem isSafeTransferFilename_safeFilename (printable : CodePoint → Bool) (value : Json) :
    isSafeTransferFilename printable (.str (safeFilename printable value)) = true ↔
      WellCut (value.orEmpty printable) := by
  rw [(safeFilename_safeName printable value).isSafeTransferFilename_iff, safeFilename,
    safeFileText, ← sanitised]
  generalize value.orEmpty printable = s
  rw [orElse]
  split_ifs with hnil
  · -- nothing is left, and the fallback passes
    have hempty : sanitised s = [] := by
      simpa using hnil
    refine iff_of_true ⟨(safeFileText_eq_self_iff (by decide)).mp (by decide), by decide⟩
      ⟨fun hlong => ?_, ?_⟩
    · rw [hempty] at hlong
      exact absurd hlong (by simp)
    · rw [hnil]
      decide
  · rw [sanitised, plainEnds_take_iff (by decide), ← sanitised]
    constructor
    · rintro ⟨hplain, hext⟩
      exact ⟨hplain, hext⟩
    · rintro ⟨hplain, hext⟩
      exact ⟨hplain, hext⟩

/-! ## Written files -/

theorem receiveFile_saved {p : Payload} {path : List Str} {filedata : Bytes}
    (h : .saved path filedata ∈ (receiveFile printable root username disk p).effects) :
    (p.find (str "filename")).truthy = true ∧
      path.getLast? = some (safeFilename printable (p.find (str "filename"))) := by
  simp only [receiveFile, buildReceivePath_eq] at h
  split at h
  · cases h
  · rename_i hpresent
    have hnamed : (p.find (str "filename")).truthy = true := by
      simp only [Bool.or_eq_true, Bool.not_eq_true', not_or, Bool.not_eq_false] at hpresent
      exact hpresent.1
    refine ⟨hnamed, ?_⟩
    split at h
    · cases h
    · split at h
      · cases h
      · rcases List.mem_cons.mp h with h | h
        · rw [(Effect.saved.inj h).1, List.getLast?_append]
          rfl
        · cases List.mem_singleton.mp h

/-- A file that is written comes from an object, and has its sanitised name. -/
theorem receive_saved {v : Json} {path : List Str} {filedata : Bytes}
    (h : .saved path filedata ∈ (receive printable root username disk v).effects) :
    ∃ p : Payload, v = .obj p ∧ (p.find (str "filename")).truthy = true ∧
      path.getLast? = some (safeFilename printable (p.find (str "filename"))) := by
  cases v with
  | obj p =>
    refine ⟨p, rfl, ?_⟩
    simp only [receive, receiveObject] at h
    split_ifs at h
    all_goals
      first
      | exact receiveFile_saved h
      | cases List.mem_singleton.mp h
      | cases h
  | _ => cases h

/-- **When a file is written under a name that the check for transfers accepts**: whoever the
payload comes from, exactly when the name in it, sanitised, is well cut. -/
theorem written_name_iff {v : Json} {path : List Str} {filedata : Bytes}
    (h : .saved path filedata ∈ (receive printable root username disk v).effects) :
    ∃ (p : Payload) (name : Str), v = .obj p ∧ path.getLast? = some name ∧
      (isSafeTransferFilename printable (.str name) = true ↔
        WellCut ((p.find (str "filename")).toStr printable)) := by
  obtain ⟨p, rfl, hnamed, hlast⟩ := receive_saved h
  refine ⟨p, _, rfl, hlast, ?_⟩
  rw [isSafeTransferFilename_safeFilename, Json.orEmpty, if_pos hnamed]

/-- Two bytes with a name, as the server of `receive_loop` may send them. -/
def namedFile (filename : Str) : Payload :=
  [(str "type", .str (str "message_file")), (str "from", .str (str "eve")),
    (str "filename", .str filename), (str "payload", .str (str "aGk="))]

/-- It is written. -/
theorem namedFile_saved (filename : Str) (hname : filename ≠ []) : ∃ path,
    .saved path [104, 105] ∈
      (receive (fun _ => true) demoRoot (str "bob") ⟨true, true⟩
        (.obj (namedFile filename))).effects ∧
      path.getLast? = some (safeFilename (fun _ => true) (.str filename)) := by
  have hname' : (Json.str filename).truthy = true := by
    simp [Json.truthy, hname]
  have hround : (receive (fun _ => true) demoRoot (str "bob") ⟨true, true⟩
      (.obj (namedFile filename))).effects = [.saved (demoRoot.parts ++
        [str "user_bob", str "from_eve", safeFilename (fun _ => true) (.str filename)]) [104, 105],
      .received (.str (str "eve")) (notice (fun _ => true) (.str filename) (.str (str "eve")))
        (.str (str "System"))] := by
    have hfind : (namedFile filename).find (str "filename") = .str filename := rfl
    have hdata : (namedFile filename).find (str "payload") = .str (str "aGk=") := rfl
    have hdecode : decodeFile (.str (str "aGk=")) = some [104, 105] := by decide
    rw [receive_file (t := str "message_file") rfl (.inl rfl), receiveFile]
    simp only [hfind, hdata, hname', hdecode, buildReceivePath_eq]
    rfl
  rw [hround]
  exact ⟨_, List.mem_cons_self .., by rw [List.getLast?_append]; rfl⟩

/-- `a.txt` is well cut. -/
theorem written_name_iff_txt : ∃ path filedata name,
    .saved path filedata ∈ (receive (fun _ => true) demoRoot (str "bob") ⟨true, true⟩
        (.obj (namedFile (str "a.txt")))).effects ∧ path.getLast? = some name ∧
      isSafeTransferFilename (fun _ => true) (.str name) = true := by
  obtain ⟨path, hsaved, -⟩ := namedFile_saved (str "a.txt") (by decide)
  obtain ⟨p, name, hp, hlast, hiff⟩ := written_name_iff hsaved
  obtain rfl := Json.obj.inj hp
  refine ⟨path, _, name, hsaved, hlast, hiff.mpr ⟨?_, ?_⟩⟩
  · intro hlong
    exact absurd hlong (by decide)
  · decide

/-- A name whose first 120 characters end in `.exe`, and which as a whole ends in `.txt`. -/
def cutName : Str := List.replicate 116 (cp 'a') ++ str ".exe.txt"

/-- A file of that name is written, and it is an executable on the disk. -/
theorem exe_written : ¬ ∀ (printable : CodePoint → Bool) (root : MediaRoot) (username : Str)
    (disk : Disk) (v : Json) (path : List Str) (filedata : Bytes) (name : Str),
    .saved path filedata ∈ (receive printable root username disk v).effects →
      path.getLast? = some name → isSafeTransferFilename printable (.str name) = true := by
  intro hall
  obtain ⟨path, hsaved, hlast⟩ := namedFile_saved cutName (by decide)
  have hcheck := hall _ _ _ _ _ _ _ _ hsaved hlast
  exact absurd hcheck (by decide +kernel)

end GuardedIM
