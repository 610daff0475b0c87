import GuardedIM.WrittenName

/-!
# The fixed points of the sanitisers

`is_safe_transfer_filename` accepts the names that `safe_filename` leaves alone, less the blocked
extensions. Both sanitisers strip dots and underscores before they cut, so what they return need
not be one of their fixed points.

* `isSafeTransferFilename_grammar`: the accepted names by their characters. A name that was checked
  is written as it is.
* `sanitised_again_iff`: a second pass changes nothing exactly when the first did not cut behind a
  dot or an underscore.
-/

namespace GuardedIM

variable {printable : CodePoint → Bool} {s d : Str}

/-! ## The grammar of transfer names -/

/-- A name for a transfer, character by character. -/
structure TransferName (s : Str) : Prop where
  /-- 1 to 120 characters out of `[A-Za-z0-9._-]` -/
  safe : SafeName 120 s
  /-- neither end is a dot or an underscore -/
  ends : PlainEnds s
  /-- what follows the last dot, if there is one, is allowed behind a dot -/
  allowed : ∀ stem suffix, s = stem ++ cp '.' :: suffix → cp '.' ∉ suffix →
    lower (cp '.' :: suffix) ∉ blockedFileExtensions

theorem lower_append (s t : Str) : lower (s ++ t) = lower s ++ lower t := List.map_append

/-- Lower-casing neither makes nor removes a character below the letters. -/
theorem mem_lower {c : CodePoint} (hc : c.val < 65) : c ∈ lower s ↔ c ∈ s := by
  constructor
  · intro h
    obtain ⟨x, hx, heq⟩ := List.mem_map.mp h
    split_ifs at heq with hupper
    · -- an upper-case letter becomes a lower-case one
      have hval := congrArg Fin.val heq
      simp only [Fin.ofNat] at hval
      omega
    · rwa [← heq]
  · intro h
    refine List.mem_map.mpr ⟨c, h, if_neg ?_⟩
    omega

theorem basename_eq_self (h : cp '/' ∉ s) : basename s = s := by
  rw [basename, List.rtakeWhile_eq_self_iff]
  exact fun c hc => decide_eq_true fun he => h (he ▸ hc)

/-- The extension starts at the last dot. -/
theorem extension_append {stem suffix : Str} (hslash : cp '/' ∉ stem ++ cp '.' :: suffix)
    (hdot : cp '.' ∉ suffix) (hstem : ∃ c ∈ stem, c ≠ cp '.') :
    extension (stem ++ cp '.' :: suffix) = cp '.' :: suffix := by
  have hsuffix : (stem ++ cp '.' :: suffix).rtakeWhile (· ≠ cp '.') = suffix := by
    have hplain : ∀ c ∈ suffix.reverse, decide (c ≠ cp '.') = true :=
      fun c hc => decide_eq_true fun he => hdot (he ▸ List.mem_reverse.mp hc)
    rw [List.rtakeWhile, List.reverse_append, List.reverse_cons, List.append_assoc,
      List.singleton_append, List.takeWhile_append_of_pos hplain,
      List.takeWhile_cons_of_neg (by decide), List.append_nil, List.reverse_reverse]
  have hlen : (stem ++ cp '.' :: suffix).length = stem.length + (suffix.length + 1) := by
    rw [List.length_append, List.length_cons]
  have htake : (stem ++ cp '.' :: suffix).take (stem.length + (suffix.length + 1) -
      suffix.length - 1) = stem := by
    rw [show stem.length + (suffix.length + 1) - suffix.length - 1 = stem.length by omega,
      List.take_left]
  have hany : stem.any (· ≠ cp '.') = true := by
    simpa using hstem
  rw [extension, basename_eq_self hslash]
  simp only [hsuffix, hlen, htake, hany]
  exact if_pos ⟨by omega, trivial⟩

theorem extension_of_not_mem (hslash : cp '/' ∉ s) (hdot : cp '.' ∉ s) : extension s = [] := by
  have hsuffix : s.rtakeWhile (· ≠ cp '.') = s := by
    rw [List.rtakeWhile_eq_self_iff]
    exact fun c hc => decide_eq_true fun he => hdot (he ▸ hc)
  rw [extension, basename_eq_self hslash, hsuffix]
  exact if_neg fun h => absurd h.1 (lt_irrefl _)

/-- A text with a dot has a last one. -/
theorem exists_last_dot (h : cp '.' ∈ s) :
    ∃ stem suffix, s = stem ++ cp '.' :: suffix ∧ cp '.' ∉ suffix := by
  obtain ⟨front, back, hs, hfront⟩ := List.eq_append_cons_of_mem (List.mem_reverse.mpr h)
  refine ⟨back.reverse, front.reverse, ?_, fun hmem => hfront (List.mem_reverse.mp hmem)⟩
  rw [← List.reverse_reverse s, hs, List.reverse_append, List.reverse_cons,
    List.append_assoc, List.singleton_append]

/-- The extension of a name with plain ends is what follows its last dot. -/
theorem extension_blocked_iff (hsafe : SafeName 120 s) (hends : PlainEnds s) :
    extension (lower s) ∉ blockedFileExtensions ↔
      ∀ stem suffix, s = stem ++ cp '.' :: suffix → cp '.' ∉ suffix →
        lower (cp '.' :: suffix) ∉ blockedFileExtensions := by
  have hslash : cp '/' ∉ lower s := by
    rw [mem_lower (by decide)]
    exact fun hmem => absurd (hsafe.2.2 _ hmem) (by decide)
  have hext : ∀ stem suffix, s = stem ++ cp '.' :: suffix → cp '.' ∉ suffix →
      extension (lower s) = lower (cp '.' :: suffix) := by
    rintro stem suffix rfl hdot
    -- the name does not begin with its last dot
    obtain ⟨c, stem, rfl⟩ : ∃ c front, stem = c :: front := by
      cases stem with
      | nil => exact absurd (hends.1 _ rfl) (by decide)
      | cons c front => exact ⟨c, front, rfl⟩
    obtain ⟨x, hx⟩ : ∃ x, lower [c] = [x] := ⟨_, rfl⟩
    have hfirst : x ≠ cp '.' := by
      rintro rfl
      have hmem : cp '.' ∈ [c] := (mem_lower (by decide)).mp (hx ▸ List.mem_singleton_self _)
      rw [← List.mem_singleton.mp hmem] at hends
      exact absurd (hends.1 _ rfl) (by decide)
    have hlower : lower (c :: stem ++ cp '.' :: suffix) =
        lower (c :: stem) ++ cp '.' :: lower suffix := by
      rw [lower_append]
      rfl
    rw [hlower] at hslash ⊢
    refine extension_append hslash (fun hmem => hdot ((mem_lower (by decide)).mp hmem))
      ⟨x, ?_, hfirst⟩
    rw [← List.singleton_append, lower_append, hx]
    exact List.mem_append_left _ (List.mem_singleton_self _)
  by_cases hdot : cp '.' ∈ s
  · obtain ⟨stem, suffix, hs, hlast⟩ := exists_last_dot hdot
    constructor
    · intro h stem' suffix' hs' hlast'
      rwa [← hext stem' suffix' hs' hlast']
    · intro h
      rw [hext stem suffix hs hlast]
      exact h stem suffix hs hlast
  · rw [extension_of_not_mem hslash (fun hmem => hdot ((mem_lower (by decide)).mp hmem))]
    refine iff_of_true (by decide) fun stem suffix hs => absurd ?_ hdot
    rw [hs]
    exact List.mem_append_right _ (List.mem_cons_self ..)

/-- **The names that a transfer may have**, and the receiver writes them as they are. -/
theorem isSafeTransferFilename_grammar (printable : CodePoint → Bool) (s : Str) :
    (isSafeTransferFilename printable (.str s) = true ↔ TransferName s) ∧
      (isSafeTransferFilename printable (.str s) = true →
        safeFilename printable (.str s) = s ∧
          ∀ (root : MediaRoot) (username : Str) (disk : Disk) (p : Payload) (path : List Str)
            (filedata : Bytes), p.find (str "filename") = .str s →
            .saved path filedata ∈ (receive printable root username disk (.obj p)).effects →
            path.getLast? = some s) := by
  have hfixed : isSafeTransferFilename printable (.str s) = true → safeFileText s = s := by
    intro h
    by_contra hne
    simp only [isSafeTransferFilename, Json.toStr_str, ne_eq, hne, not_false_eq_true, if_true,
      ite_self, Bool.false_eq_true] at h
  have hsafe : isSafeTransferFilename printable (.str s) = true → SafeName 120 s := by
    intro h
    have hname := safeFilename_safeName printable (.str s)
    rwa [safeFilename, Json.orEmpty_str, hfixed h] at hname
  refine ⟨⟨fun h => ?_, fun h => ?_⟩, fun h => ?_⟩
  · have hs := hsafe h
    obtain ⟨hends, hallowed⟩ := hs.isSafeTransferFilename_iff.mp h
    exact ⟨hs, hends, (extension_blocked_iff hs hends).mp hallowed⟩
  · exact h.safe.isSafeTransferFilename_iff.mpr
      ⟨h.ends, (extension_blocked_iff h.safe h.ends).mpr h.allowed⟩
  · have hname : safeFilename printable (.str s) = s := by
      rw [safeFilename, Json.orEmpty_str, hfixed h]
    refine ⟨hname, fun root username disk p path filedata hp hsaved => ?_⟩
    obtain ⟨p', hobj, -, hlast⟩ := receive_saved hsaved
    obtain rfl := Json.obj.inj hobj
    rw [hlast, hp, hname]

/-! ## A second pass -/

/-- The first `n` characters of a text do not end in a dot or an underscore, where there are more
than `n`. -/
def CutsPlainly (n : ℕ) (s : Str) : Prop :=
  n < s.length → ∀ c, s[n - 1]? = some c → isDotUnderscore c = false

theorem cutsPlainly_nil (n : ℕ) : CutsPlainly n [] := fun hlong => absurd hlong (Nat.not_lt_zero n)

/-- The fallback of `safe_filename` is plain, so only the cut counts. -/
theorem plainEnds_safeFileText : PlainEnds (safeFileText s) ↔ CutsPlainly 120 (sanitised s) := by
  have hcut := plainEnds_take_iff (s := basename (forwardSlashes s)) (n := 120) (by decide)
  rw [safeFileText, orElse]
  split_ifs with hnil
  · have hempty : sanitised s = [] := by
      rw [sanitised]
      simpa using hnil
    rw [hempty]
    exact iff_of_true ((safeFileText_eq_self_iff (by decide)).mp (by decide)) (cutsPlainly_nil 120)
  · exact hcut

/-- The same for `safe_path_part`, whose fallback is the caller's: when it is returned, its own
ends count. -/
theorem plainEnds_safePathText : PlainEnds (safePathText s d) ↔
    CutsPlainly 80 (clean s) ∧ (clean s = [] → PlainEnds d) := by
  have hcut := plainEnds_take_iff (s := s) (n := 80) (by decide)
  rw [safePathText, orElse]
  split_ifs with hnil
  · have hempty : clean s = [] := by
      simpa using hnil
    rw [hempty]
    exact ⟨fun h => ⟨cutsPlainly_nil 80, fun _ => h⟩, fun h => h.2 rfl⟩
  · have hne : clean s ≠ [] := fun hempty => hnil (by rw [hempty, List.take_nil])
    exact hcut.trans ⟨fun h => ⟨h, fun hempty => absurd hempty hne⟩, And.left⟩

theorem stripBy_ne_nil {q : CodePoint → Bool} {c : CodePoint} (hc : q c = false) (t : Str) :
    stripBy q (c :: t) ≠ [] := by
  rw [stripBy, List.dropWhile_cons_of_neg (by simp [hc]), ne_eq, List.rdropWhile_eq_nil_iff]
  intro hall
  rw [hall c (List.mem_cons_self ..)] at hc
  cases hc

/-- A second pass of `safe_path_part` over what the first one kept. -/
theorem safePathText_again (hd : safePathText d d = d) :
    safePathText (safePathText s d) d = safePathText s d ↔ CutsPlainly 80 (clean s) := by
  have hcut := plainEnds_take_iff (s := s) (n := 80) (by decide)
  by_cases hnil : (clean s).take 80 = []
  · have hempty : clean s = [] := by
      simpa using hnil
    have hfallback : safePathText s d = d := by
      rw [safePathText, orElse, if_pos hnil]
    rw [hfallback, hempty]
    exact iff_of_true hd (cutsPlainly_nil 80)
  · have hkept : safePathText s d = (clean s).take 80 := by
      rw [safePathText, orElse, if_neg hnil]
    have hname : SafeName 80 ((clean s).take 80) :=
      ⟨List.length_pos_iff.mpr hnil, List.length_take_le _ _,
        fun c hc => clean_safe c (List.mem_of_mem_take hc)⟩
    rw [hkept, safePathText_of_safeName hname le_rfl, orElse, if_neg, stripBy_eq_self_iff]
    · exact hcut
    · -- the first character was not stripped, and it is not stripped now
      obtain ⟨c, rest, hfront⟩ := List.exists_cons_of_ne_nil hnil
      have hhead : (clean s).head? = some c := by
        have htake : ((clean s).take 80).head? = some c := by
          rw [hfront, List.head?_cons]
        rwa [List.head?_take, if_neg (by decide)] at htake
      rw [hfront]
      exact stripBy_ne_nil (clean_head hhead) rest

/-- **When a sanitised name is a fixed point of its sanitiser**: exactly when the text was not cut
behind a dot or an underscore. Then its ends are plain, unless it is a fallback whose ends are not,
and only the extension of a file name counts. -/
theorem sanitised_again_iff (printable : CodePoint → Bool) (value : Json)
    (hd : safePathPart printable (.str d) d = d) :
    ((safeFilename printable (.str (safeFilename printable value)) = safeFilename printable value ∧
        PlainEnds (safeFilename printable value) ∧
        (isSafeTransferFilename printable (.str (safeFilename printable value)) = true ↔
          extension (lower (safeFilename printable value)) ∉ blockedFileExtensions)) ↔
      CutsPlainly 120 (sanitised (value.orEmpty printable))) ∧
    (safePathPart printable (.str (safePathPart printable value d)) d =
        safePathPart printable value d ↔ CutsPlainly 80 (clean (value.orEmpty printable))) ∧
    ((safePathPart printable (.str (safePathPart printable value d)) d =
        safePathPart printable value d ∧ PlainEnds (safePathPart printable value d)) ↔
      CutsPlainly 80 (clean (value.orEmpty printable)) ∧
        (clean (value.orEmpty printable) = [] → PlainEnds d)) := by
  have hname := safeFilename_safeName printable value
  have hends : PlainEnds (safeFilename printable value) ↔
      CutsPlainly 120 (sanitised (value.orEmpty printable)) := plainEnds_safeFileText
  have htwice : safeFilename printable (.str (safeFilename printable value)) =
      safeFilename printable value ↔ PlainEnds (safeFilename printable value) := by
    rw [safeFilename, Json.orEmpty_str, safeFileText_eq_self_iff hname]
  rw [safePathPart, Json.orEmpty_str] at hd
  have hagain : safePathPart printable (.str (safePathPart printable value d)) d =
      safePathPart printable value d ↔ CutsPlainly 80 (clean (value.orEmpty printable)) := by
    rw [safePathPart, Json.orEmpty_str]
    exact safePathText_again hd
  refine ⟨?_, hagain, ?_⟩
  · rw [htwice, ← hends, hname.isSafeTransferFilename_iff]
    constructor
    · rintro ⟨hp, -⟩
      exact hp
    · intro hp
      exact ⟨hp, hp, and_iff_right hp⟩
  · rw [hagain, safePathPart, plainEnds_safePathText]
    constructor
    · rintro ⟨-, h⟩
      exact h
    · intro h
      exact ⟨h.1, h⟩

/-- Any short name is a fixed point of both. -/
theorem sanitised_again_iff_txt :
    CutsPlainly 120 (sanitised (str "a.txt")) ∧ CutsPlainly 80 (clean (str "a.txt")) ∧
      safeFilename (fun _ => true) (.str (safeFilename (fun _ => true) (.str (str "a.txt")))) =
        safeFilename (fun _ => true) (.str (str "a.txt")) ∧
      PlainEnds (safePathPart (fun _ => true) (.str (str "a.txt")) (str "unknown")) := by
  have hiff := sanitised_again_iff (fun _ => true) (.str (str "a.txt")) (d := str "unknown")
    (by decide)
  have hname : CutsPlainly 120 (sanitised (str "a.txt")) := fun hlong => absurd hlong (by decide)
  have hpart : CutsPlainly 80 (clean (str "a.txt")) := fun hlong => absurd hlong (by decide)
  have hkept : clean (str "a.txt") = [] → PlainEnds (str "unknown") :=
    fun hempty => absurd hempty (by decide)
  exact ⟨hname, hpart, (hiff.1.mpr hname).1, (hiff.2.2.mpr ⟨hpart, hkept⟩).2⟩

/-- The cut of this name falls behind its dot. -/
def dottedName : Str := List.replicate 119 (cp 'a') ++ str ".b"

/-- `safe_filename` cuts it, and strips what it returned when it is called again. -/
theorem dotted_again : ¬ ∀ (printable : CodePoint → Bool) (value : Json) (d : Str),
    safePathPart printable (.str d) d = d →
      safeFilename printable (.str (safeFilename printable value)) =
        safeFilename printable value := by
  intro hall
  have hagain := hall (fun _ => true) (.str dottedName) (str "unknown") (by decide)
  exact absurd hagain (by decide +kernel)

end GuardedIM
