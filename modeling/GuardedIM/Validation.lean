import GuardedIM.Json

/-!
# `common/validation.py`

The name and file-name checks both ends share. The regular expressions are all over
the class `[A-Za-z0-9._-]` (`safeChar`); a validator takes whatever JSON value the
request holds, so it answers, or raises `TypeError` where `fullmatch` is handed
something that is not a string.

* `isSafeUsername_iff`, `isSafeGroupName_iff`: what is accepted, exactly.
* `safePathText_eq_self_iff`: the names the path sanitiser leaves alone.
* `PlainPart`: what sanitised names are good for, whatever they were made of.
-/

namespace GuardedIM

/-- The class `[A-Za-z0-9._-]`. -/
def safeChar (c : CodePoint) : Bool :=
  (48 ≤ c.val && c.val ≤ 57) || (65 ≤ c.val && c.val ≤ 90) || (97 ≤ c.val && c.val ≤ 122) ||
    c.val = 46 || c.val = 95 || c.val = 45

/-- `^[A-Za-z0-9._-]{1,n}$` under `fullmatch`. -/
def SafeName (n : ℕ) (s : Str) : Prop :=
  1 ≤ s.length ∧ s.length ≤ n ∧ ∀ c ∈ s, safeChar c = true

-- over the list: the instance on `Fin` would try every code point
instance (n : ℕ) (s : Str) : Decidable (SafeName n s) :=
  decidable_of_iff (1 ≤ s.length ∧ s.length ≤ n ∧ s.all safeChar = true) (by simp [SafeName])

/-- `bool(value and RE.fullmatch(value))` for the pattern of length at most `n`. -/
def isSafeName (n : ℕ) (value : Json) : Except Exc Bool :=
  if value.truthy then
    match value with
    | .str s => .ok (decide (SafeName n s))
    | _ => .error .typeError
  else .ok false

/-- `is_safe_username` -/
def isSafeUsername (value : Json) : Except Exc Bool := isSafeName 32 value

/-- `is_safe_group_name` -/
def isSafeGroupName (value : Json) : Except Exc Bool := isSafeName 48 value

theorem safeChar_ascii {c : CodePoint} (h : safeChar c = true) : c.val < 0x80 := by
  simp [safeChar] at h
  omega

theorem safeChar_not_space {c : CodePoint} (h : safeChar c = true) : isSpace c = false := by
  simp [safeChar] at h
  simp [isSpace]
  omega

theorem isSafeName_iff {n : ℕ} {value : Json} :
    isSafeName n value = .ok true ↔ ∃ s, value = .str s ∧ SafeName n s := by
  constructor
  · intro h
    unfold isSafeName at h
    split_ifs at h with ht
    · cases value with
      | str s => exact ⟨s, rfl, by simpa using h⟩
      | _ => cases h
    · cases h
  · rintro ⟨s, rfl, hs⟩
    have ht : (Json.str s).truthy = true := by
      have hne : s ≠ [] := List.ne_nil_of_length_pos hs.1
      simp [Json.truthy, hne]
    simp [isSafeName, ht, hs]

theorem isSafeUsername_iff {value : Json} :
    isSafeUsername value = .ok true ↔ ∃ s, value = .str s ∧ SafeName 32 s := isSafeName_iff

theorem isSafeGroupName_iff {value : Json} :
    isSafeGroupName value = .ok true ↔ ∃ s, value = .str s ∧ SafeName 48 s := isSafeName_iff

/-- A valid name has nothing to strip. -/
theorem SafeName.strip {n : ℕ} {s : Str} (h : SafeName n s) : strip s = s :=
  stripBy_eq_self fun c hc => safeChar_not_space (h.2.2 c hc)

theorem SafeName.ascii {n : ℕ} {s : Str} (h : SafeName n s) : ∀ c ∈ s, c.val < 0x80 :=
  fun c hc => safeChar_ascii (h.2.2 c hc)

/-! ## Path parts and file names -/

/-- `SAFE_PATH_PART_RE.sub("_", s)`: each maximal run outside the class becomes one
`_`; `inRun` says that the run being read already has its `_`. -/
def collapse (inRun : Bool) : Str → Str
  | [] => []
  | c :: s =>
    if safeChar c then c :: collapse false s
    else if inRun then collapse true s
    else cp '_' :: collapse true s

/-- The characters of `strip("._")`. -/
def isDotUnderscore (c : CodePoint) : Bool := c = cp '.' || c = cp '_'

/-- `SAFE_PATH_PART_RE.sub("_", s).strip("._")` -/
def clean (s : Str) : Str := stripBy isDotUnderscore (collapse false s)

/-- `x or fallback` for strings. -/
def orElse (x fallback : Str) : Str := if x = [] then fallback else x

/-- `safe_path_part` on the text it makes of its value. -/
def safePathText (s fallback : Str) : Str := orElse ((clean s).take 80) fallback

/-- `safe_path_part` -/
def safePathPart (printable : CodePoint → Bool) (value : Json) (fallback : Str) : Str :=
  safePathText (value.orEmpty printable) fallback

/-- `os.path.basename`: what follows the last `/`. -/
def basename (s : Str) : Str := s.rtakeWhile (· ≠ cp '/')

/-- `s.replace("\\", "/")` -/
def forwardSlashes (s : Str) : Str := s.map fun c => if c = cp '\\' then cp '/' else c

/-- `safe_filename` on the text it makes of its value. -/
def safeFileText (s : Str) : Str :=
  orElse ((clean (basename (forwardSlashes s))).take 120) (str "received_file")

/-- `safe_filename` -/
def safeFilename (printable : CodePoint → Bool) (value : Json) : Str :=
  safeFileText (value.orEmpty printable)

/-- `s.lower()` on the ASCII text that reaches it. -/
def lower (s : Str) : Str :=
  s.map fun c => if 65 ≤ c.val ∧ c.val ≤ 90 then Fin.ofNat _ (c.val + 32) else c

/-- The second component of `os.path.splitext`: from the last dot on, unless only dots
stand before it. -/
def extension (s : Str) : Str :=
  let base := basename s
  let suffix := base.rtakeWhile (· ≠ cp '.')
  let stem := base.take (base.length - suffix.length - 1)
  if suffix.length < base.length ∧ stem.any (· ≠ cp '.') then cp '.' :: suffix else []

/-- `BLOCKED_FILE_EXTENSIONS` -/
def blockedFileExtensions : List Str :=
  [str ".exe", str ".bat", str ".cmd", str ".msi", str ".sh", str ".ps1"]

/-- `is_safe_transfer_filename` -/
def isSafeTransferFilename (printable : CodePoint → Bool) (value : Json) : Bool :=
  if value.truthy then
    let raw := value.toStr printable
    if safeFileText raw ≠ raw then false
    else decide (extension (lower (safeFilename printable value)) ∉ blockedFileExtensions)
  else false

theorem collapse_eq_self {s : Str} (h : ∀ c ∈ s, safeChar c = true) (b : Bool) :
    collapse b s = s := by
  induction s generalizing b with
  | nil => rfl
  | cons c s ih =>
    rw [collapse, if_pos (h c (List.mem_cons_self ..)),
      ih fun d hd => h d (List.mem_cons_of_mem _ hd)]

/-- Text that neither begins nor ends with `.` or `_`. -/
def PlainEnds (s : Str) : Prop :=
  (∀ c, s.head? = some c → isDotUnderscore c = false) ∧
    ∀ c, s.getLast? = some c → isDotUnderscore c = false

/-- What `stripBy` leaves has nothing more to strip, so it is the text itself only
when neither end is in the set. -/
theorem stripBy_eq_self_iff {p : CodePoint → Bool} {s : Str} :
    stripBy p s = s ↔
      (∀ c, s.head? = some c → p c = false) ∧ ∀ c, s.getLast? = some c → p c = false := by
  have hlast : ∀ t : Str, t.rdropWhile p = t ↔ ∀ c, t.getLast? = some c → p c = false := by
    intro t
    rw [List.rdropWhile_eq_self_iff]
    constructor
    · intro h c hc
      have hne : t ≠ [] := by rintro rfl; simp at hc
      rw [List.getLast?_eq_some_getLast hne] at hc
      obtain rfl := Option.some.inj hc
      simpa using h hne
    · intro h hne
      simpa using h _ (List.getLast?_eq_some_getLast hne)
  have hhead : s.dropWhile p = s ↔ ∀ c, s.head? = some c → p c = false := by
    cases s with
    | nil => simp
    | cons c s =>
      by_cases hc : p c = true
      · have hlt : (s.dropWhile p).length < (c :: s).length :=
          Nat.lt_succ_of_le (List.length_dropWhile_le p s)
        simp only [List.dropWhile_cons_of_pos hc, List.head?_cons, Option.some.injEq,
          forall_eq', hc, Bool.true_eq_false, iff_false]
        intro he
        rw [he] at hlt
        exact absurd hlt (lt_irrefl _)
      · simp [hc]
  constructor
  · intro h
    have hle : (stripBy p s).length ≤ (s.dropWhile p).length :=
      (List.rdropWhile_prefix p (s.dropWhile p)).length_le
    have hle' := List.length_dropWhile_le p s
    have hd : s.dropWhile p = s := by
      refine (List.dropWhile_suffix p).eq_of_length ?_
      rw [h] at hle
      omega
    refine ⟨hhead.mp hd, (hlast s).mp ?_⟩
    rwa [stripBy, hd] at h
  · rintro ⟨h₁, h₂⟩
    rw [stripBy, hhead.mpr h₁, (hlast s).mpr h₂]

/-- Stripping does not lengthen. -/
theorem length_stripBy_le (p : CodePoint → Bool) (s : Str) : (stripBy p s).length ≤ s.length :=
  (List.rdropWhile_prefix _ _).length_le.trans (List.length_dropWhile_le _ s)

/-- On a valid name the only part of `safe_path_part` that does anything is the strip. -/
theorem safePathText_of_safeName {n : ℕ} {s : Str} (hs : SafeName n s) (hn : n ≤ 80)
    (fallback : Str) :
    safePathText s fallback = orElse (stripBy isDotUnderscore s) fallback := by
  have hclean : clean s = stripBy isDotUnderscore s := by
    rw [clean, collapse_eq_self hs.2.2]
  have hlen : (stripBy isDotUnderscore s).length ≤ 80 :=
    (length_stripBy_le _ s).trans (hs.2.1.trans hn)
  rw [safePathText, hclean, List.take_of_length_le hlen]

/-- **The names `safe_path_part` leaves alone**: a valid username becomes itself
exactly when neither end is a dot or an underscore, whatever the fallback, provided
the fallback could not be mistaken for it. -/
theorem safePathText_eq_self_iff {n : ℕ} {s fallback : Str} (hs : SafeName n s) (hn : n ≤ 80)
    (hf : PlainEnds fallback) : safePathText s fallback = s ↔ PlainEnds s := by
  rw [safePathText_of_safeName hs hn, orElse]
  split_ifs with hnil
  · -- everything was stripped: the name is dots and underscores only
    constructor
    · rintro rfl
      exact hf
    · intro hp
      rw [stripBy_eq_self_iff.mpr hp] at hnil
      rw [hnil] at hs
      exact absurd hs.1 (by simp)
  · exact stripBy_eq_self_iff

/-! ## What the sanitisers leave -/

/-- A name that a directory can have and that means nothing but itself in a path. -/
structure PlainPart (s : Str) : Prop where
  /-- it is a name -/
  nonempty : s ≠ []
  /-- without separators or anything else unusual -/
  safe : ∀ c ∈ s, safeChar c = true
  /-- not the directory itself -/
  not_dot : s ≠ str "."
  /-- not the one above -/
  not_dotdot : s ≠ str ".."

theorem collapse_safe {b : Bool} {s : Str} : ∀ c ∈ collapse b s, safeChar c = true := by
  induction s generalizing b with
  | nil => simp [collapse]
  | cons d s ih =>
    intro c hc
    rw [collapse] at hc
    split_ifs at hc with hd
    · rcases List.mem_cons.mp hc with rfl | hc
      · exact hd
      · exact ih c hc
    · exact ih c hc
    · rcases List.mem_cons.mp hc with rfl | hc
      · decide
      · exact ih c hc

theorem clean_safe {s : Str} : ∀ c ∈ clean s, safeChar c = true := by
  intro c hc
  refine collapse_safe (b := false) (s := s) c ?_
  exact (List.dropWhile_suffix _).subset ((List.rdropWhile_prefix _ _).subset hc)

/-- Nothing is left to strip in front. -/
theorem clean_head {s : Str} {c : CodePoint} (h : (clean s).head? = some c) :
    isDotUnderscore c = false := by
  obtain ⟨t, ht⟩ := List.rdropWhile_prefix isDotUnderscore
    ((collapse false s).dropWhile isDotUnderscore)
  have hhead : ((collapse false s).dropWhile isDotUnderscore).head? = some c := by
    rw [← ht, List.head?_append, ← stripBy, ← clean, h, Option.some_or]
  have hnot := List.head?_dropWhile_not isDotUnderscore (collapse false s)
  rw [hhead] at hnot
  simpa using hnot

theorem safePathText_safe {s fallback : Str} (hf : ∀ c ∈ fallback, safeChar c = true) :
    ∀ c ∈ safePathText s fallback, safeChar c = true := by
  intro c hc
  rw [safePathText, orElse] at hc
  split_ifs at hc
  · exact hf c hc
  · exact clean_safe c (List.mem_of_mem_take hc)

/-- A file name that was sanitised is a plain part of a path. -/
theorem safeFileText_plain (s : Str) : PlainPart (safeFileText s) := by
  rw [safeFileText, orElse]
  split_ifs with hnil
  · exact ⟨by decide, List.all_eq_true.mp (by decide), by decide, by decide⟩
  · have hhead : ∀ c, ((clean (basename (forwardSlashes s))).take 120).head? = some c →
        isDotUnderscore c = false := by
      intro c hc
      rw [List.head?_take, if_neg (by decide)] at hc
      exact clean_head hc
    refine ⟨hnil, fun c hc => clean_safe c (List.mem_of_mem_take hc), fun he => ?_, fun he => ?_⟩
    · rw [he] at hhead
      exact absurd (hhead (cp '.') rfl) (by decide)
    · rw [he] at hhead
      exact absurd (hhead (cp '.') rfl) (by decide)

/-- A safe text behind a label is a plain part. -/
theorem plainPart_label {label s : Str} (hlabel : ∀ c ∈ label, safeChar c = true)
    (hlong : 2 < label.length) (hs : ∀ c ∈ s, safeChar c = true) : PlainPart (label ++ s) := by
  have hlen : 2 < (label ++ s).length := by
    rw [List.length_append]
    omega
  refine ⟨fun he => ?_, fun c hc => ?_, fun he => ?_, fun he => ?_⟩
  · rw [he] at hlen
    exact absurd hlen (by decide)
  · exact (List.mem_append.mp hc).elim (hlabel c) (hs c)
  · rw [he] at hlen
    exact absurd hlen (by decide)
  · rw [he] at hlen
    exact absurd hlen (by decide)

end GuardedIM
