import GuardedIM.Json

/-!
# `json.loads`

The decoder that is the other half of `dumps`: a recursive descent over the text, with
strings read character by character and numerals by longest match. An escape `\uXXXX`
may name a surrogate, and a high one joins with a low one that follows it as an escape.

A float is its `repr`, and how deep values may be nested is a matter of the recursion limit:
`Interpreter` is what the decoder takes from there. An integer has at most 4300 digits. `dumps` has
the same limits and meets none of them: it is given what was read, and fields of the program's own
that are texts or lists of texts.

`loads_fuel`: the bound on the descent is never what stops it, since every scanner leaves
less of the text than it was given.
-/

namespace GuardedIM

namespace Json

/-! ## Characters -/

/-- `[ \t\n\r]` -/
def isJsonSpace (c : CodePoint) : Bool :=
  c = cp ' ' || c = cp '\t' || c = cp '\n' || c = cp '\r'

/-- The text behind the whitespace. -/
def skipSpace (s : Str) : Str := s.dropWhile isJsonSpace

/-- `[0-9]` -/
def isDigit (c : CodePoint) : Bool := 0x30 ≤ c.val && c.val ≤ 0x39

/-- The value of a hexadecimal digit, in either case. -/
def hexValue (c : CodePoint) : Option ℕ :=
  if isDigit c then some (c.val - 0x30)
  else if 0x61 ≤ c.val ∧ c.val ≤ 0x66 then some (c.val - 0x61 + 10)
  else if 0x41 ≤ c.val ∧ c.val ≤ 0x46 then some (c.val - 0x41 + 10)
  else none

/-- Go past a character that has to be there. -/
def expect (c : CodePoint) : Str → Option Str
  | [] => none
  | d :: s => if d = c then some s else none

/-! ## Strings -/

/-- The first half of a surrogate pair. -/
def IsHigh (c : CodePoint) : Prop := 0xD800 ≤ c.val ∧ c.val ≤ 0xDBFF

/-- The second half. -/
def IsLow (c : CodePoint) : Prop := 0xDC00 ≤ c.val ∧ c.val ≤ 0xDFFF

instance (c : CodePoint) : Decidable (IsHigh c) := by
  unfold IsHigh
  infer_instance

instance (c : CodePoint) : Decidable (IsLow c) := by
  unfold IsLow
  infer_instance

/-- The character of a surrogate pair. -/
def joinPair (c d : CodePoint) : CodePoint :=
  Fin.ofNat _ (0x10000 + (c.val - 0xD800) * 0x400 + (d.val - 0xDC00))

/-- Characters of a literal, with a mark on those that were written `\uXXXX`: a marked
pair of surrogates is one character. -/
def joinPairs : List (CodePoint × Bool) → Str
  | [] => []
  | [(c, _)] => [c]
  | (c, e) :: (d, f) :: l =>
    if e = true ∧ f = true ∧ IsHigh c ∧ IsLow d then joinPair c d :: joinPairs l
    else c :: joinPairs ((d, f) :: l)

/-- The character a short escape names. -/
def unescape (c : CodePoint) : Option CodePoint :=
  if c = cp '"' ∨ c = cp '\\' ∨ c = cp '/' then some c
  else if c = cp 'b' then some 0x8
  else if c = cp 'f' then some 0xC
  else if c = cp 'n' then some (cp '\n')
  else if c = cp 'r' then some (cp '\r')
  else if c = cp 't' then some (cp '\t')
  else none

/-- Where the scanner of a string is. -/
inductive StringScan where
  /-- between two characters -/
  | plain
  /-- behind a backslash -/
  | escape
  /-- in a `\uXXXX` with `left` digits to come, the others being worth `value` -/
  | hex (left value : ℕ)

/-- The marked characters up to the closing quote, and the text behind it. A control
character, an unknown escape and the end of the text are errors. -/
def scanChars : StringScan → Str → Option (List (CodePoint × Bool) × Str)
  | _, [] => none
  | .plain, c :: s =>
    if c = cp '"' then some ([], s)
    else if c = cp '\\' then scanChars .escape s
    else if c.val < 0x20 then none
    else (scanChars .plain s).map fun r => ((c, false) :: r.1, r.2)
  | .escape, c :: s =>
    if c = cp 'u' then scanChars (.hex 4 0) s
    else
      match unescape c with
      | none => none
      | some d => (scanChars .plain s).map fun r => ((d, false) :: r.1, r.2)
  | .hex left value, c :: s =>
    match hexValue c with
    | none => none
    | some d =>
      -- the last digit: the character is marked, since only escapes make a pair
      if left = 1 then
        (scanChars .plain s).map fun r => ((Fin.ofNat _ (value * 16 + d), true) :: r.1, r.2)
      else scanChars (.hex (left - 1) (value * 16 + d)) s

/-- `scanstring`, behind the opening quote. -/
def scanString (s : Str) : Option (Str × Str) :=
  (scanChars .plain s).map fun r => (joinPairs r.1, r.2)

/-! ## Numbers and constants -/

/-- A sign, if there is one that `p` accepts. -/
def numeralSign (p : CodePoint → Bool) : Str → Str × Str
  | [] => ([], [])
  | c :: s => if p c then ([c], s) else ([], c :: s)

/-- `0|[1-9][0-9]*` -/
def numeralInt : Str → Option (Str × Str)
  | [] => none
  | c :: s =>
    if c = cp '0' then some ([c], s)
    else if isDigit c then some (c :: s.takeWhile isDigit, s.dropWhile isDigit)
    else none

/-- `(\.[0-9]+)?` -/
def numeralFrac : Str → Str × Str
  | [] => ([], [])
  | c :: s =>
    if c = cp '.' ∧ s.takeWhile isDigit ≠ [] then
      (c :: s.takeWhile isDigit, s.dropWhile isDigit)
    else ([], c :: s)

/-- `([eE][-+]?[0-9]+)?` -/
def numeralExp : Str → Str × Str
  | [] => ([], [])
  | c :: s =>
    let r := numeralSign (fun c => c = cp '-' || c = cp '+') s
    if (c = cp 'e' ∨ c = cp 'E') ∧ r.2.takeWhile isDigit ≠ [] then
      (c :: r.1 ++ r.2.takeWhile isDigit, r.2.dropWhile isDigit)
    else ([], c :: s)

/-- The longest numeral in front of a text, and whether it has a fraction or an exponent. -/
def scanNumeral (s : Str) : Option ((Str × Bool) × Str) :=
  let sign := numeralSign (· = cp '-') s
  match numeralInt sign.2 with
  | none => none
  | some whole =>
    let frac := numeralFrac whole.2
    let exp := numeralExp frac.2
    some ((sign.1 ++ whole.1 ++ frac.1 ++ exp.1, !(frac.1.isEmpty && exp.1.isEmpty)), exp.2)

/-- The text of a float, as a whole. -/
def FloatText (t : Str) : Prop := scanNumeral t = some ((t, true), [])

/-- The value of decimal digits. -/
def natValue (digits : Str) : ℕ := digits.foldl (fun n c => 10 * n + (c.val - 0x30)) 0

/-- `int(text)` -/
def intValue : Str → ℤ
  | [] => 0
  | c :: s => if c = cp '-' then -(natValue s : ℤ) else natValue (c :: s)

/-- What the decoder takes from the interpreter. -/
structure Interpreter where
  /-- `repr(float(text))` for the text of a float -/
  repr : Str → Str
  /-- a numeral overflows to an infinity, or its `repr` names the same float again -/
  canonical : ∀ {s t r}, scanNumeral s = some ((t, true), r) →
    repr t = GuardedIM.str "inf" ∨ repr t = GuardedIM.str "-inf" ∨
      (FloatText (repr t) ∧ repr (repr t) = repr t)
  /-- how many arrays and objects may be open at once, for the recursion limit -/
  nesting : ℕ
  /-- a list in an object is not too deep -/
  two_le_nesting : 2 ≤ nesting

/-- `sys.int_info.default_max_str_digits` -/
def maxStrDigits : ℕ := 4300

/-- The values with a name. -/
def constants : List (Str × Json) :=
  [(GuardedIM.str "null", .null), (GuardedIM.str "true", .bool true),
    (GuardedIM.str "false", .bool false), (GuardedIM.str "NaN", .float (GuardedIM.str "nan")),
    (GuardedIM.str "Infinity", .float (GuardedIM.str "inf")),
    (GuardedIM.str "-Infinity", .float (GuardedIM.str "-inf"))]

/-- A constant in front of a text. -/
def scanConstant (s : Str) : Option (Json × Str) :=
  constants.findSome? fun e => if e.1.isPrefixOf s then some (e.2, s.drop e.1.length) else none

section Descent

variable (F : Interpreter)

/-- A value that is not a string, an array or an object. -/
def scanLeaf (s : Str) : Option (Json × Str) :=
  match scanConstant s with
  | some r => some r
  | none =>
    match scanNumeral s with
    | none => none
    | some r =>
      if r.1.2 then some (.float (F.repr r.1.1), r.2)
      else if r.1.1.countP isDigit ≤ maxStrDigits then some (.int (intValue r.1.1), r.2)
      else none

/-! ## The descent -/

/-- What separates two elements, or ends them (`true`). -/
def scanNext (close : CodePoint) (s : Str) : Option (Bool × Str) :=
  match skipSpace s with
  | [] => none
  | c :: s =>
    if c = close then some (true, s)
    else if c = cp ',' then some (false, skipSpace s)
    else none

mutual

/-- `scan_once`, where `depth` more arrays and objects may be open. -/
def scanOnce : ℕ → ℕ → Str → Option (Json × Str)
  | 0, _, _ => none
  | _ + 1, _, [] => none
  | fuel + 1, depth, c :: s =>
    if c = cp '"' then (scanString s).map fun r => (.str r.1, r.2)
    else if c = cp '[' then
      if depth = 0 then none
      else
        match expect (cp ']') (skipSpace s) with
        | some r => some (.arr [], r)
        | none => (scanItems fuel (depth - 1) (skipSpace s)).map fun r => (.arr r.1, r.2)
    else if c = cp '\x7b' then
      if depth = 0 then none
      else
        match expect (cp '\x7d') (skipSpace s) with
        | some r => some (.obj [], r)
        | none => (scanMembers fuel (depth - 1) [] (skipSpace s)).map fun r => (.obj r.1, r.2)
    else scanLeaf F (c :: s)

/-- The elements of an array, with its closing bracket. -/
def scanItems : ℕ → ℕ → Str → Option (List Json × Str)
  | 0, _, _ => none
  | fuel + 1, depth, s => do
    let (v, s) ← scanOnce fuel depth s
    let (last, s) ← scanNext (cp ']') s
    if last then some ([v], s)
    else (scanItems fuel depth s).map fun r => (v :: r.1, r.2)

/-- The members of an object, with its closing brace, on top of those before them. -/
def scanMembers : ℕ → ℕ → Payload → Str → Option (Payload × Str)
  | 0, _, _, _ => none
  | fuel + 1, depth, d, s => do
    let (k, s) ← (expect (cp '"') s).bind scanString
    let s ← expect (cp ':') (skipSpace s)
    let (v, s) ← scanOnce fuel depth (skipSpace s)
    let (last, s) ← scanNext (cp '\x7d') s
    -- a repeated key keeps its place and takes the last value
    if last then some (Dict.set d k v, s)
    else scanMembers fuel depth (Dict.set d k v) s

end

/-- One value and nothing but whitespace around it, with a bound on the descent. -/
def loadsWith (fuel : ℕ) (s : Str) : Option Json :=
  match scanOnce F fuel F.nesting (skipSpace s) with
  | none => none
  | some r => if skipSpace r.2 = [] then some r.1 else none

/-- `json.loads(s)`; `none` when it raises. -/
def loads (s : Str) : Option Json := loadsWith F (2 * s.length) s

end Descent

variable {F : Interpreter}

/-! ## What is left behind a value -/

/-- `r` is the end of `s`, with something in front of it. -/
def Behind (r s : Str) : Prop := r <:+ s ∧ r.length < s.length

/-- What is left of a text is behind its first character. -/
theorem Behind.cons {r s : Str} (h : r <:+ s) (c : CodePoint) : Behind r (c :: s) :=
  ⟨h.trans (List.suffix_cons c s), Nat.lt_succ_of_le h.length_le⟩

/-- What is left of an end is left of the whole. -/
theorem Behind.trans {r s t : Str} (h : Behind r s) (hs : s <:+ t) : Behind r t :=
  ⟨h.1.trans hs, h.2.trans_le hs.length_le⟩

/-- Skipping whitespace leaves an end of the text. -/
theorem skipSpace_suffix (s : Str) : skipSpace s <:+ s := List.dropWhile_suffix _

/-- Going past a character leaves less. -/
theorem expect_behind {c : CodePoint} {s r : Str} (h : expect c s = some r) : Behind r s := by
  cases s with
  | nil => cases h
  | cons d s =>
    rw [expect] at h
    split_ifs at h
    obtain rfl := Option.some.inj h
    exact .cons List.suffix_rfl d

/-- A string is scanned forward, by induction on the text. -/
theorem scanChars_behind {q : StringScan} {s : Str} {x : List (CodePoint × Bool) × Str}
    (h : scanChars q s = some x) : Behind x.2 s := by
  induction s generalizing q x with
  | nil => cases q <;> cases h
  | cons c s ih =>
    have hmap : ∀ {f : List (CodePoint × Bool) → List (CodePoint × Bool)},
        (scanChars .plain s).map (fun r => (f r.1, r.2)) = some x → Behind x.2 (c :: s) := by
      intro f hf
      obtain ⟨y, hy, rfl⟩ := Option.map_eq_some_iff.mp hf
      exact .cons (ih hy).1 c
    cases q with
    | plain =>
      rw [scanChars] at h
      split_ifs at h
      · obtain rfl := Option.some.inj h
        exact .cons List.suffix_rfl c
      · exact .cons (ih h).1 c
      · exact hmap h
    | escape =>
      rw [scanChars] at h
      split_ifs at h
      · exact .cons (ih h).1 c
      · split at h
        · cases h
        · exact hmap h
    | hex left value =>
      rw [scanChars] at h
      split at h
      · cases h
      · split_ifs at h
        · exact hmap h
        · exact .cons (ih h).1 c

/-- Behind a string there is less text. -/
theorem scanString_behind {s : Str} {x : Str × Str} (h : scanString s = some x) :
    Behind x.2 s := by
  obtain ⟨y, hy, rfl⟩ := Option.map_eq_some_iff.mp h
  exact scanChars_behind hy

/-- And behind a separator or a closing bracket. -/
theorem scanNext_behind {c : CodePoint} {s : Str} {x : Bool × Str}
    (h : scanNext c s = some x) : Behind x.2 s := by
  have hskip := skipSpace_suffix s
  rw [scanNext] at h
  split at h
  · cases h
  · rename_i d t ht
    rw [ht] at hskip
    split_ifs at h
    · obtain rfl := Option.some.inj h
      exact (Behind.cons List.suffix_rfl d).trans hskip
    · obtain rfl := Option.some.inj h
      exact (Behind.cons (skipSpace_suffix t) d).trans hskip

/-- A numeral has at least one digit, so there is less text behind it. -/
theorem scanNumeral_behind {s : Str} {x : (Str × Bool) × Str} (h : scanNumeral s = some x) :
    Behind x.2 s := by
  have hsign : ∀ p t, (numeralSign p t).2 <:+ t := by
    intro p t
    cases t with
    | nil => exact List.suffix_rfl
    | cons c t =>
      rw [numeralSign]
      split_ifs
      · exact List.suffix_cons c t
      · exact List.suffix_rfl
  have hint : ∀ {t y}, numeralInt t = some y → Behind y.2 t := by
    intro t y ht
    cases t with
    | nil => cases ht
    | cons c t =>
      rw [numeralInt] at ht
      split_ifs at ht
      · obtain rfl := Option.some.inj ht
        exact .cons List.suffix_rfl c
      · obtain rfl := Option.some.inj ht
        exact .cons (List.dropWhile_suffix _) c
  have hfrac : ∀ t, (numeralFrac t).2 <:+ t := by
    intro t
    cases t with
    | nil => exact List.suffix_rfl
    | cons c t =>
      rw [numeralFrac]
      split_ifs
      · exact (List.dropWhile_suffix _).trans (List.suffix_cons c t)
      · exact List.suffix_rfl
  have hexp : ∀ t, (numeralExp t).2 <:+ t := by
    intro t
    cases t with
    | nil => exact List.suffix_rfl
    | cons c t =>
      simp only [numeralExp]
      split_ifs
      · exact ((List.dropWhile_suffix _).trans (hsign _ t)).trans (List.suffix_cons c t)
      · exact List.suffix_rfl
  simp only [scanNumeral] at h
  split at h
  · cases h
  · rename_i whole hwhole
    obtain rfl := Option.some.inj h
    have hle := ((hexp _).trans (hfrac _)).trans (hint hwhole).1
    exact ⟨hle.trans (hsign _ s), (((hexp _).trans (hfrac _)).length_le.trans_lt
      (hint hwhole).2).trans_le (hsign _ s).length_le⟩

/-- A constant that was found stands in front of the text. -/
theorem scanConstant_eq {s : Str} {x : Json × Str} (h : scanConstant s = some x) :
    ∃ e ∈ constants, e.1 <+: s ∧ x = (e.2, s.drop e.1.length) := by
  obtain ⟨e, he, hfound⟩ := List.exists_of_findSome?_eq_some h
  split_ifs at hfound with hbegins
  exact ⟨e, he, List.isPrefixOf_iff_prefix.mp hbegins, (Option.some.inj hfound).symm⟩

/-- Behind a constant or a numeral there is less text. -/
theorem scanLeaf_behind {s : Str} {x : Json × Str} (h : scanLeaf F s = some x) :
    Behind x.2 s := by
  rw [scanLeaf] at h
  split at h
  · rename_i y hy
    obtain rfl := Option.some.inj h
    obtain ⟨e, he, hbegins, rfl⟩ := scanConstant_eq hy
    have hpos : 0 < e.1.length := by
      simp only [constants, List.mem_cons, List.not_mem_nil, or_false] at he
      rcases he with rfl | rfl | rfl | rfl | rfl | rfl <;> exact Nat.succ_pos _
    have hle := hbegins.length_le
    refine ⟨List.drop_suffix _ s, ?_⟩
    rw [List.length_drop]
    omega
  · split at h
    · cases h
    · rename_i y hy
      split_ifs at h
      · obtain rfl := Option.some.inj h
        exact scanNumeral_behind hy
      · obtain rfl := Option.some.inj h
        exact scanNumeral_behind hy

/-- Every scanner goes forward. -/
structure Forward (F : Interpreter) (fuel : ℕ) : Prop where
  /-- over a value -/
  once : ∀ {depth s x}, scanOnce F fuel depth s = some x → Behind x.2 s
  /-- over the elements of an array -/
  items : ∀ {depth s x}, scanItems F fuel depth s = some x → Behind x.2 s
  /-- over the members of an object -/
  members : ∀ {depth d s x}, scanMembers F fuel depth d s = some x → Behind x.2 s

/-- **The descent goes forward.** The scanners call each other with less fuel, so one induction
is for all three. -/
theorem forward (fuel : ℕ) : Forward F fuel := by
  induction fuel with
  | zero => exact ⟨nofun, nofun, nofun⟩
  | succ fuel ih =>
    refine ⟨fun {depth s x} h => ?_, fun {depth s x} h => ?_, fun {depth d s x} h => ?_⟩
    · cases s with
      | nil => cases h
      | cons c s =>
        have hskip := skipSpace_suffix s
        rw [scanOnce] at h
        split_ifs at h
        · obtain ⟨y, hy, rfl⟩ := Option.map_eq_some_iff.mp h
          exact .cons (scanString_behind hy).1 c
        · split at h
          · rename_i r hr
            obtain rfl := Option.some.inj h
            exact .cons ((expect_behind hr).1.trans hskip) c
          · obtain ⟨y, hy, rfl⟩ := Option.map_eq_some_iff.mp h
            exact .cons ((ih.items hy).1.trans hskip) c
        · split at h
          · rename_i r hr
            obtain rfl := Option.some.inj h
            exact .cons ((expect_behind hr).1.trans hskip) c
          · obtain ⟨y, hy, rfl⟩ := Option.map_eq_some_iff.mp h
            exact .cons ((ih.members hy).1.trans hskip) c
        · exact scanLeaf_behind h
    · rw [scanItems] at h
      obtain ⟨⟨v, s₁⟩, h₁, h⟩ := Option.bind_eq_some_iff.mp h
      obtain ⟨⟨last, s₂⟩, h₂, h⟩ := Option.bind_eq_some_iff.mp h
      have hs₂ : Behind s₂ s := (scanNext_behind h₂).trans (ih.once h₁).1
      simp only at h
      split_ifs at h
      · obtain rfl := Option.some.inj h
        exact hs₂
      · obtain ⟨y, hy, rfl⟩ := Option.map_eq_some_iff.mp h
        exact (ih.items hy).trans hs₂.1
    · rw [scanMembers] at h
      obtain ⟨⟨k, s₁⟩, h₁, h⟩ := Option.bind_eq_some_iff.mp h
      obtain ⟨s₂, h₂, h⟩ := Option.bind_eq_some_iff.mp h
      obtain ⟨⟨v, s₃⟩, h₃, h⟩ := Option.bind_eq_some_iff.mp h
      obtain ⟨⟨last, s₄⟩, h₄, h⟩ := Option.bind_eq_some_iff.mp h
      obtain ⟨s₀, h₀, h₁⟩ := Option.bind_eq_some_iff.mp h₁
      have hs₁ : Behind s₁ s := (scanString_behind h₁).trans (expect_behind h₀).1
      have hs₂ : Behind s₂ s := (expect_behind h₂).trans ((skipSpace_suffix s₁).trans hs₁.1)
      have hs₃ : Behind s₃ s := (ih.once h₃).trans ((skipSpace_suffix s₂).trans hs₂.1)
      have hs₄ : Behind s₄ s := (scanNext_behind h₄).trans hs₃.1
      simp only at h
      split_ifs at h
      · obtain rfl := Option.some.inj h
        exact hs₄
      · exact (ih.members h).trans hs₄.1

/-! ## The bound on the descent -/

/-- With that much fuel, the scanners give what they give with any more. -/
structure Enough (F : Interpreter) (fuel : ℕ) : Prop where
  /-- over a value -/
  once : ∀ {depth s k}, 2 * s.length ≤ fuel → 2 * s.length ≤ k →
    scanOnce F fuel depth s = scanOnce F k depth s
  /-- over the elements of an array -/
  items : ∀ {depth s k}, 2 * s.length + 1 ≤ fuel → 2 * s.length + 1 ≤ k →
    scanItems F fuel depth s = scanItems F k depth s
  /-- over the members of an object -/
  members : ∀ {depth d s k}, 2 * s.length + 1 ≤ fuel → 2 * s.length + 1 ≤ k →
    scanMembers F fuel depth d s = scanMembers F k depth d s

/-- Each call of a scanner that has less fuel has less text as well. -/
theorem enough (fuel : ℕ) : Enough F fuel := by
  induction fuel with
  | zero =>
    refine ⟨fun {depth s fuel'} h _ => ?_, fun h => absurd h (Nat.not_succ_le_zero _),
      fun h => absurd h (Nat.not_succ_le_zero _)⟩
    obtain rfl : s = [] := List.eq_nil_of_length_eq_zero (by omega)
    cases fuel' <;> rfl
  | succ fuel ih =>
    refine ⟨fun {depth s fuel'} h h' => ?_, fun {depth s fuel'} h h' => ?_,
      fun {depth d s fuel'} h h' => ?_⟩
    · cases s with
      | nil => cases fuel' <;> rfl
      | cons c s =>
        rw [List.length_cons] at h h'
        obtain ⟨k, rfl⟩ : ∃ k, fuel' = k + 1 := ⟨fuel' - 1, by omega⟩
        have hskip := (skipSpace_suffix s).length_le
        rw [scanOnce, scanOnce, ih.items (k := k) (by omega) (by omega),
          ih.members (k := k) (by omega) (by omega)]
    · obtain ⟨k, rfl⟩ : ∃ k, fuel' = k + 1 := ⟨fuel' - 1, by omega⟩
      rw [scanItems, scanItems, ih.once (k := k) (by omega) (by omega)]
      refine Option.bind_congr fun ⟨v, s₁⟩ h₁ => Option.bind_congr fun ⟨last, s₂⟩ h₂ => ?_
      have hlt₁ := ((forward k).once h₁).2
      have hlt₂ := (scanNext_behind h₂).2
      simp only at hlt₁ hlt₂ ⊢
      rw [ih.items (k := k) (by omega) (by omega)]
    · obtain ⟨k, rfl⟩ : ∃ k, fuel' = k + 1 := ⟨fuel' - 1, by omega⟩
      rw [scanMembers, scanMembers]
      refine Option.bind_congr fun ⟨key, s₁⟩ h₁ => Option.bind_congr fun s₂ h₂ => ?_
      obtain ⟨s₀, h₀, h₁⟩ := Option.bind_eq_some_iff.mp h₁
      have hlt₀ := (expect_behind h₀).2
      have hlt₁ := (scanString_behind h₁).2
      have hlt₂ := (expect_behind h₂).2
      have hle₁ := (skipSpace_suffix s₁).length_le
      have hle₂ := (skipSpace_suffix s₂).length_le
      simp only at hlt₁ hlt₂ ⊢
      rw [ih.once (k := k) (by omega) (by omega)]
      refine Option.bind_congr fun ⟨v, s₃⟩ h₃ => Option.bind_congr fun ⟨last, s₄⟩ h₄ => ?_
      have hlt₃ := ((forward k).once h₃).2
      have hlt₄ := (scanNext_behind h₄).2
      simp only at hlt₃ hlt₄ ⊢
      rw [ih.members (k := k) (by omega) (by omega)]

/-- **The bound never matters**: with more fuel, `loads` gives the same. -/
theorem loads_fuel {s : Str} {fuel : ℕ} (h : 2 * s.length ≤ fuel) :
    loadsWith F fuel s = loads F s := by
  have hskip := (skipSpace_suffix s).length_le
  rw [loads, loadsWith, loadsWith,
    (enough fuel).once (k := 2 * s.length) (by omega) (by omega)]

end Json

end GuardedIM
