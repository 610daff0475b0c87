import GuardedIM.JsonRoundTrip

/-!
# How long the output of `json.dumps` is

A value that came from `json.loads` is written in ASCII, so that its length counts bytes. The
length of an object is the sum of what each member takes, and what it takes does not depend on
the others.

* `dumps_ascii`: the output is ASCII.
* `length_dumps_obj`: an object is the sum of its members, `membersSize`.
* `membersSize_write`: what overwriting some fields does to it.
-/

namespace GuardedIM

namespace Json

variable {F : Interpreter}

/-! ## ASCII -/

/-- A text of ASCII characters. -/
def Ascii (s : Str) : Prop := ∀ c ∈ s, c.val < 0x80

theorem ascii_nil : Ascii [] := List.forall_mem_nil _

/-- ASCII texts may be joined. -/
theorem ascii_append {s t : Str} (hs : Ascii s) (ht : Ascii t) : Ascii (s ++ t) :=
  List.forall_mem_append.mpr ⟨hs, ht⟩

/-- A character and the rest. -/
theorem ascii_cons {c : CodePoint} {s : Str} (hc : c.val < 0x80) (hs : Ascii s) : Ascii (c :: s) :=
  List.forall_mem_cons.mpr ⟨hc, hs⟩

/-- A literal is checked character by character. -/
theorem ascii_of_all {s : Str} (h : s.all (·.val < 0x80) = true) : Ascii s :=
  fun c hc => of_decide_eq_true (List.all_eq_true.mp h c hc)

/-- Digits are ASCII. -/
theorem ascii_digits {s : Str} (h : ∀ c ∈ s, isDigit c = true) : Ascii s := by
  intro c hc
  have hdigit := h c hc
  simp only [isDigit, Bool.and_eq_true, decide_eq_true_eq] at hdigit
  omega

theorem ascii_takeWhile_isDigit (s : Str) : Ascii (s.takeWhile isDigit) :=
  ascii_digits fun _ hc => List.mem_takeWhile_imp hc

/-! Numerals -/

/-- So is a sign, if it is one of ASCII. -/
theorem ascii_numeralSign {p : CodePoint → Bool} (hp : ∀ c, p c = true → c.val < 0x80) (s : Str) :
    Ascii (numeralSign p s).1 := by
  cases s with
  | nil => exact ascii_nil
  | cons c s =>
    rw [numeralSign]
    split_ifs with hc
    · exact ascii_cons (hp c hc) ascii_nil
    · exact ascii_nil

/-- The digits in front of the point, -/
theorem ascii_numeralInt {s : Str} {x : Str × Str} (h : numeralInt s = some x) : Ascii x.1 :=
  ascii_digits (numeralInt_digits h)

/-- those behind it, -/
theorem ascii_numeralFrac (s : Str) : Ascii (numeralFrac s).1 := by
  cases s with
  | nil => exact ascii_nil
  | cons c s =>
    rw [numeralFrac]
    split_ifs with h
    · exact ascii_cons (h.1 ▸ by decide) (ascii_takeWhile_isDigit s)
    · exact ascii_nil

/-- and the exponent. -/
theorem ascii_numeralExp (s : Str) : Ascii (numeralExp s).1 := by
  cases s with
  | nil => exact ascii_nil
  | cons c s =>
    have hsign : Ascii (numeralSign (fun c => c = cp '-' || c = cp '+') s).1 := by
      refine ascii_numeralSign (fun d hd => ?_) s
      rw [Bool.or_eq_true, decide_eq_true_eq, decide_eq_true_eq] at hd
      rcases hd with rfl | rfl
      · decide
      · decide
    simp only [numeralExp]
    split_ifs with h
    · refine ascii_append (ascii_cons ?_ hsign) (ascii_takeWhile_isDigit _)
      rcases h.1 with rfl | rfl
      · decide
      · decide
    · exact ascii_nil

/-- A numeral is ASCII from its sign to its exponent. -/
theorem ascii_scanNumeral {s t r : Str} {b : Bool} (h : scanNumeral s = some ((t, b), r)) :
    Ascii t := by
  simp only [scanNumeral] at h
  split at h
  · cases h
  · rename_i whole hwhole
    obtain ⟨htext, -⟩ := Prod.mk.inj (Option.some.inj h)
    obtain ⟨rfl, -⟩ := Prod.mk.inj htext
    refine ascii_append (ascii_append (ascii_append ?_ (ascii_numeralInt hwhole))
      (ascii_numeralFrac _)) (ascii_numeralExp _)
    refine ascii_numeralSign (fun c hc => ?_) s
    rw [of_decide_eq_true hc]
    decide

/-! Strings -/

/-- Hexadecimal digits are ASCII. -/
theorem ascii_hex (k n : ℕ) : Ascii (hex k n) := by
  intro c hc
  obtain ⟨i, -, rfl⟩ := List.mem_map.mp hc
  have hlt : n / 16 ^ i % 16 < 16 := Nat.mod_lt _ (by decide)
  generalize n / 16 ^ i % 16 = d at hlt
  revert d
  decide

theorem ascii_escape_u (n : ℕ) : Ascii (GuardedIM.str "\\u" ++ hex 4 n) :=
  ascii_append (ascii_of_all (by decide)) (ascii_hex 4 n)

/-- A character is written in ASCII, in each of the ways there are to write it. -/
theorem ascii_dumpChar (c : CodePoint) : Ascii (dumpChar c) := by
  have hwritten := written_dumpChar c
  generalize dumpChar c = w at hwritten
  cases hwritten with
  | short e he => exact ascii_cons (by decide) (ascii_cons he ascii_nil)
  | plain _ hhigh => exact ascii_cons (hhigh.trans_lt (by decide)) ascii_nil
  | escape => exact ascii_escape_u c.val
  | pair => exact ascii_append (ascii_escape_u _) (ascii_escape_u _)

/-- And so is a string. -/
theorem ascii_dumpStr (s : Str) : Ascii (dumpStr s) := by
  refine ascii_append (ascii_cons (by decide) fun c hc => ?_) (ascii_of_all (by decide))
  obtain ⟨d, -, hd⟩ := List.mem_flatMap.mp hc
  exact ascii_dumpChar d c hd

/-! Values -/

/-- An integer is written as a numeral. -/
theorem ascii_decimal (n : ℤ) : Ascii (decimal n) := ascii_scanNumeral (scanNumeral_decimal n)

/-- A list is ASCII if its elements are. -/
theorem ascii_dumpItems {l : List Json} (h : ∀ v ∈ l, Ascii (dumps v)) : Ascii (dumpItems l) := by
  induction l with
  | nil => exact ascii_nil
  | cons v l ih =>
    obtain ⟨hv, hrest⟩ := List.forall_mem_cons.mp h
    cases l with
    | nil => exact hv
    | cons w l =>
      rw [dumpItems]
      exact ascii_append (ascii_append hv (ascii_of_all (by decide))) (ih hrest)

/-- An object, if its values are. -/
theorem ascii_dumpEntries {d : Payload} (h : ∀ e ∈ d, Ascii (dumps e.2)) :
    Ascii (dumpEntries d) := by
  induction d with
  | nil => exact ascii_nil
  | cons e d ih =>
    obtain ⟨k, v⟩ := e
    obtain ⟨hv, hrest⟩ := List.forall_mem_cons.mp h
    have hmember := ascii_append (ascii_append (ascii_dumpStr k)
      (ascii_of_all (s := GuardedIM.str ": ") (by decide))) hv
    cases d with
    | nil => exact hmember
    | cons e d =>
      rw [dumpEntries]
      exact ascii_append (ascii_append hmember (ascii_of_all (by decide))) (ih hrest)

/-- **The output is ASCII.** -/
theorem dumps_ascii {depth : ℕ} {v : Json} (h : CanonicalIn F depth v) : Ascii (dumps v) := by
  induction h with
  | null => exact ascii_of_all (by decide)
  | bool b =>
    cases b with
    | true => exact ascii_of_all (by decide)
    | false => exact ascii_of_all (by decide)
  | @int _ n =>
    rw [dumps]
    exact ascii_decimal n
  | @float _ r hr =>
    rw [dumps]
    -- three floats have a name of their own, the others are numerals
    split_ifs with hnan hinf hneg
    · exact ascii_of_all (by decide)
    · exact ascii_of_all (by decide)
    · exact ascii_of_all (by decide)
    · rcases hr with hr | hr | hr | ⟨htext, -⟩
      · exact absurd hr hnan
      · exact absurd hr hinf
      · exact absurd hr hneg
      · exact ascii_scanNumeral htext
  | @str _ s =>
    rw [dumps]
    exact ascii_dumpStr s
  | arr _ _ ih =>
    rw [dumps]
    exact ascii_append (ascii_cons (by decide) (ascii_dumpItems ih)) (ascii_of_all (by decide))
  | obj _ _ _ _ ih =>
    rw [dumps]
    exact ascii_append (ascii_cons (by decide) (ascii_dumpEntries ih)) (ascii_of_all (by decide))

/-! ## Lengths -/

/-- What a member of an object takes, with its share of the punctuation. -/
def memberSize (e : Str × Json) : ℕ := (dumpStr e.1).length + (dumps e.2).length + 4

theorem memberSize_mk (k : Str) (v : Json) :
    memberSize (k, v) = (dumpStr k).length + (dumps v).length + 4 := rfl

/-- The sum over the members. -/
def membersSize (d : Payload) : ℕ := (d.map memberSize).sum

/-- **Overwriting fields**: the members that are kept, and the fields. -/
theorem membersSize_write {d fields : Payload} (hd : (Dict.keys d).Nodup)
    (hf : (Dict.keys fields).Nodup) : membersSize (Dict.write d fields) =
      membersSize (Dict.without d (Dict.keys fields)) + membersSize fields :=
  Dict.sum_write memberSize hd hf

theorem length_separator (s : String) (n : ℕ) (h : s.toList.length = n) :
    (GuardedIM.str s).length = n := by
  rw [GuardedIM.str, List.length_map, h]

/-- The members of an object, without the braces. -/
theorem length_dumpEntries {d : Payload} (hd : d ≠ []) :
    (dumpEntries d).length + 2 = membersSize d := by
  induction d with
  | nil => exact absurd rfl hd
  | cons e d ih =>
    obtain ⟨k, v⟩ := e
    have hcolon := length_separator ": " 2 rfl
    have hcomma := length_separator ", " 2 rfl
    rw [membersSize, List.map_cons, List.sum_cons, memberSize_mk]
    -- the last member has no separator: its two characters are those of the braces
    cases d with
    | nil =>
      simp only [dumpEntries, List.length_append, hcolon, List.map_nil, List.sum_nil]
      omega
    | cons e d =>
      have hrest := ih (List.cons_ne_nil e d)
      rw [membersSize] at hrest
      simp only [dumpEntries, List.length_append]
      omega

/-- **An object is the sum of its members.** -/
theorem length_dumps_obj {d : Payload} (hd : d ≠ []) : (dumps (.obj d)).length = membersSize d := by
  rw [dumps, ← length_dumpEntries hd, List.length_append, List.length_cons, List.length_singleton]

/-- The elements of a list, without the brackets. -/
theorem length_dumpItems {l : List Json} (hl : l ≠ []) :
    (dumpItems l).length + 2 = (l.map fun v => (dumps v).length + 2).sum := by
  induction l with
  | nil => exact absurd rfl hl
  | cons v l ih =>
    have hcomma := length_separator ", " 2 rfl
    rw [List.map_cons, List.sum_cons]
    cases l with
    | nil => rw [dumpItems, List.map_nil, List.sum_nil, Nat.add_zero]
    | cons w l =>
      have hrest := ih (List.cons_ne_nil w l)
      simp only [dumpItems, List.length_append]
      omega

/-- **A list is the sum of its elements**, each with two characters of punctuation. -/
theorem length_dumps_arr {l : List Json} (hl : l ≠ []) :
    (dumps (.arr l)).length = (l.map fun v => (dumps v).length + 2).sum := by
  rw [dumps, ← length_dumpItems hl, List.length_append, List.length_cons, List.length_singleton]

/-- Beyond ASCII everything is escaped. -/
theorem dumpChar_escaped {c : CodePoint} (h : 0x80 ≤ c.val) : dumpChar c =
    if c.val < 0x10000 then GuardedIM.str "\\u" ++ hex 4 c.val
    else GuardedIM.str "\\u" ++ hex 4 (0xD800 + (c.val - 0x10000) / 0x400) ++
      (GuardedIM.str "\\u" ++ hex 4 (0xDC00 + (c.val - 0x10000) % 0x400)) := by
  have hne : ∀ d : CodePoint, d.val < 0x80 → c ≠ d := by
    rintro d hd rfl
    omega
  rw [dumpChar, if_neg (hne _ (by decide)), if_neg (hne _ (by decide)), if_neg (hne _ (by decide)),
    if_neg (hne _ (by decide)), if_neg (hne _ (by decide)), if_neg (by omega), if_neg (by omega),
    if_neg (by omega)]

/-- A character of ASCII that needs no escape is written as it is. -/
theorem dumpChar_plain {c : CodePoint} (hlow : 0x20 ≤ c.val) (hhigh : c.val ≤ 0x7E)
    (hquote : c ≠ cp '"') (hslash : c ≠ cp '\\') : dumpChar c = [c] := by
  have hne : ∀ d : CodePoint, d.val < 0x20 → c ≠ d := by
    rintro d hd rfl
    exact absurd hlow (Nat.not_le.mpr hd)
  rw [dumpChar, if_neg hquote, if_neg hslash, if_neg (hne _ (by decide)),
    if_neg (hne _ (by decide)), if_neg (hne _ (by decide)), if_neg fun h => by omega,
    if_neg fun h => by omega, if_pos ⟨hlow, hhigh⟩]

/-- A text without escapes is written as it is, between quotes. -/
theorem length_dumpStr_plain {s : Str} (h : ∀ c ∈ s, dumpChar c = [c]) :
    (dumpStr s).length = s.length + 2 := by
  have hflat : s.flatMap dumpChar = s := by
    induction s with
    | nil => rfl
    | cons c s ih =>
      obtain ⟨hc, hs⟩ := List.forall_mem_cons.mp h
      rw [List.flatMap_cons, hc, ih hs, List.singleton_append]
  rw [dumpStr, hflat, List.length_append, List.length_cons, List.length_singleton]

end Json

end GuardedIM
