import GuardedIM.Text

/-!
# Addresses

`net.ParseIP` and the methods of `net.IP` the control server uses. A Go `string` is its
bytes, an address is a slice of 4 or 16 bytes, and an IPv4 address in 16 bytes stands
behind the prefix `::ffff`.

* `parseIPv4_eq`: a text that parses as IPv4 is the dotted text of what it parses to, so
  no two texts name one IPv4 address.
* `parseIPv4_dotted`: the dotted text of four bytes parses to them.
* `length_parseIP`: an accepted text names 16 bytes.
* `isAddressByte_parseIPv6`: an IPv6 text is hexadecimal digits, colons and dots.
-/

namespace GuardedIM

/-- `'.'` -/
abbrev dot : UInt8 := 46

/-- `':'` -/
abbrev colon : UInt8 := 58

/-- `'%'` -/
abbrev percent : UInt8 := 37

/-- A number in decimal, without leading zeros. -/
def decimal (n : ℕ) : Bytes := (Nat.toDigits 10 n).map fun c => UInt8.ofNat c.toNat

/-- The text of an IPv4 address of 4 bytes. -/
def dotted (ip : Bytes) : Bytes := [dot].intercalate (ip.map fun b => decimal b.toNat)

/-! ## `netip.ParseAddr` -/

/-- The loop of `parseIPv4Fields`: `prev` is the character before the current one, `val` and
`digLen` describe the octet being read, `fields` are the octets before it. -/
def parseIPv4Fields (prev : Option UInt8) (val digLen : ℕ) (fields : Bytes) :
    Bytes → Option Bytes
  | [] => if fields.length < 3 then none else some (fields ++ [UInt8.ofNat val])
  | c :: s =>
    if 48 ≤ c.toNat ∧ c.toNat ≤ 57 then
      if digLen = 1 ∧ val = 0 then none
      else if 255 < val * 10 + (c.toNat - 48) then none
      else parseIPv4Fields (some c) (val * 10 + (c.toNat - 48)) (digLen + 1) fields s
    else if c = dot then
      if prev = none ∨ s = [] ∨ prev = some dot then none
      else if fields.length = 3 then none
      else parseIPv4Fields (some c) 0 0 (fields ++ [UInt8.ofNat val]) s
    else none

/-- `parseIPv4` -/
def parseIPv4 (s : Bytes) : Option Bytes := parseIPv4Fields none 0 0 [] s

/-- The value of a hexadecimal digit. -/
def hexValue (c : UInt8) : Option ℕ :=
  if 48 ≤ c.toNat ∧ c.toNat ≤ 57 then some (c.toNat - 48)
  else if 97 ≤ c.toNat ∧ c.toNat ≤ 102 then some (c.toNat - 87)
  else if 65 ≤ c.toNat ∧ c.toNat ≤ 70 then some (c.toNat - 55)
  else none

/-- The inner loop of `parseIPv6`: a group of at most four digits, with how many there were
and what stands behind it. -/
def parseGroup (off acc : ℕ) : Bytes → Option (ℕ × ℕ × Bytes)
  | [] => some (off, acc, [])
  | c :: s =>
    match hexValue c with
    | none => some (off, acc, c :: s)
    | some d =>
      if 3 < off then none
      else if 65535 < acc * 16 + d then none
      else parseGroup (off + 1) (acc * 16 + d) s

/-- The outer loop of `parseIPv6`, at most `n` groups more: the bytes so far, the place of
the ellipsis and the rest of the text. -/
def parseGroups : ℕ → Bytes → Option ℕ → Bytes → Option (Bytes × Option ℕ × Bytes)
  | 0, ip, ellipsis, s => some (ip, ellipsis, s)
  | n + 1, ip, ellipsis, s =>
    match parseGroup 0 0 s with
    | none => none
    | some (off, acc, rest) =>
      if off = 0 then none
      else if rest.head? = some dot then
        -- the last two groups may be written as an IPv4 address
        if ellipsis = none ∧ ip.length ≠ 12 then none
        else if 16 < ip.length + 4 then none
        else (parseIPv4Fields none 0 0 [] s).map fun fields => (ip ++ fields, ellipsis, [])
      else
        let ip := ip ++ [UInt8.ofNat (acc / 256), UInt8.ofNat acc]
        match rest with
        | [] => some (ip, ellipsis, [])
        | c :: rest =>
          if c ≠ colon then none
          else
            match rest with
            | [] => none
            | d :: rest =>
              if d = colon then
                if ellipsis.isSome then none
                else if rest = [] then some (ip, some ip.length, [])
                else parseGroups n ip (some ip.length) rest
              else parseGroups n ip ellipsis (d :: rest)

/-- The end of `parseIPv6`: the whole text has to be used, and an ellipsis stands for at
least one group. -/
def expand (ip : Bytes) (ellipsis : Option ℕ) (rest : Bytes) : Option Bytes :=
  if rest ≠ [] then none
  else if ip.length < 16 then
    ellipsis.map fun e => ip.take e ++ List.replicate (16 - ip.length) 0 ++ ip.drop e
  else if ellipsis.isSome then none
  else some ip

/-- `parseIPv6`, followed by the refusal of zones in `net.ParseIP`: an address with `'%'`
either fails to parse or has a zone. -/
def parseIPv6 (s : Bytes) : Option Bytes :=
  if percent ∈ s then none
  else if s.take 2 = [colon, colon] then
    if s.drop 2 = [] then some (List.replicate 16 0)
    else
      match parseGroups 8 [] (some 0) (s.drop 2) with
      | some (ip, ellipsis, rest) => expand ip ellipsis rest
      | none => none
  else
    match parseGroups 8 [] none s with
    | some (ip, ellipsis, rest) => expand ip ellipsis rest
    | none => none

/-! ## `net.IP` -/

/-- The prefix of IPv4 addresses in 16 bytes. -/
def v4InV6Prefix : Bytes := List.replicate 10 0 ++ [255, 255]

/-- `net.ParseIP`: the first of the characters `.`, `:` and `%` says what the text is. -/
def parseIP (s : Bytes) : Option Bytes :=
  match s.find? fun c => c = dot || c = colon || c = percent with
  | some c =>
    if c = dot then (parseIPv4 s).map (v4InV6Prefix ++ ·)
    else if c = colon then parseIPv6 s
    else none
  | none => none

/-- `ip.To4()` -/
def to4 (ip : Bytes) : Option Bytes :=
  if ip.length = 4 then some ip
  else if ip.length = 16 ∧ ip.take 12 = v4InV6Prefix then some (ip.drop 12)
  else none

/-- `ip.To16()` -/
def to16 (ip : Bytes) : Option Bytes :=
  if ip.length = 4 then some (v4InV6Prefix ++ ip) else if ip.length = 16 then some ip else none

/-- `net.IPNet` -/
structure IPNet where
  /-- the network number -/
  ip : Bytes
  /-- its mask -/
  mask : Bytes
deriving DecidableEq

/-- `n.Contains(ip)` -/
def IPNet.contains (n : IPNet) (ip : Bytes) : Bool :=
  let ip := (to4 ip).getD ip
  ip.length = n.ip.length &&
    List.zipWith (· &&& ·) n.ip n.mask = List.zipWith (· &&& ·) ip n.mask

/-! ## IPv4 texts are canonical -/

theorem decimal_digit {d : ℕ} (hd : d < 10) : decimal d = [UInt8.ofNat (48 + d)] := by
  simp [decimal, Nat.toDigits_of_lt_base hd, Nat.toNat_digitChar_of_lt_ten hd, Nat.add_comm]

theorem decimal_append {n d : ℕ} (hn : 0 < n) (hd : d < 10) :
    decimal (n * 10 + d) = decimal n ++ [UInt8.ofNat (48 + d)] := by
  have hdigits := Nat.toDigits_append_toDigits (b := 10) (by decide) hn hd
  rw [← decimal_digit hd, decimal, decimal, decimal, ← List.map_append, hdigits,
    Nat.mul_comm 10 n]

/-- Octets and the dots between them, the last octet apart. -/
theorem dotted_snoc (fields : Bytes) (b : UInt8) :
    dotted (fields ++ [b]) = fields.flatMap (fun b => decimal b.toNat ++ [dot]) ++
      decimal b.toNat := by
  induction fields with
  | nil => simp [dotted]
  | cons a fields ih =>
    have hne : (fields ++ [b]).map (fun b => decimal b.toNat) ≠ [] := by simp
    obtain ⟨x, xs, hxs⟩ := List.exists_cons_of_ne_nil hne
    rw [dotted, hxs] at ih
    simp only [dotted, List.cons_append, List.map_cons, hxs, List.flatMap_cons]
    rw [List.intercalate_cons_cons, ih]
    simp

/-- The text read so far of the current octet. -/
def octetText (digLen val : ℕ) : Bytes := if digLen = 0 then [] else decimal val

/-- What holds between two characters of an IPv4 address. -/
structure Reading (prev : Option UInt8) (val digLen : ℕ) (fields s : Bytes) : Prop where
  /-- no octet is being read just at the start and behind a dot -/
  start : digLen = 0 ↔ prev = none ∨ prev = some dot
  /-- its value is 0 then -/
  value : digLen = 0 → val = 0
  /-- a zero has no more digits -/
  zero : val = 0 → digLen ≤ 1
  /-- an octet is a byte -/
  byte : val ≤ 255
  /-- at most three octets are complete -/
  complete : fields.length ≤ 3
  /-- none at the start -/
  first : prev = none → fields = []
  /-- no text ends with a dot -/
  last : prev = some dot → s ≠ []

/-- A digit keeps what holds, and is read. -/
theorem Reading.digit {prev : Option UInt8} {val digLen : ℕ} {fields s : Bytes} {c : UInt8}
    (hr : Reading prev val digLen fields (c :: s)) (hdigit : 48 ≤ c.toNat ∧ c.toNat ≤ 57)
    (hzero : ¬ (digLen = 1 ∧ val = 0)) (hbig : ¬ 255 < val * 10 + (c.toNat - 48)) :
    Reading (some c) (val * 10 + (c.toNat - 48)) (digLen + 1) fields s ∧
      octetText (digLen + 1) (val * 10 + (c.toNat - 48)) = octetText digLen val ++ [c] := by
  have hne : c ≠ dot := by
    rintro rfl
    exact absurd hdigit (by decide)
  refine ⟨⟨?_, ?_, ?_, by omega, hr.complete, ?_, ?_⟩, ?_⟩
  · simp [hne]
  · intro hfalse
    omega
  · intro hval
    by_contra hmore
    have hval' : val = 0 := by omega
    have := hr.zero hval'
    exact hzero ⟨by omega, hval'⟩
  · simp
  · simp [hne]
  · have hc : [c] = [UInt8.ofNat (48 + (c.toNat - 48))] := by
      rw [Nat.add_sub_cancel' hdigit.1, UInt8.ofNat_toNat]
    have hd : c.toNat - 48 < 10 := by omega
    rw [octetText, octetText, if_neg (by omega)]
    by_cases hdig : digLen = 0
    · rw [if_pos hdig, hr.value hdig, Nat.zero_mul, Nat.zero_add, decimal_digit hd, ← hc]
      rfl
    · have hpos : 0 < val := by
        rcases Nat.eq_zero_or_pos val with hval | hval
        · have := hr.zero hval
          omega
        · exact hval
      rw [if_neg hdig, decimal_append hpos hd, ← hc]

/-- So does a dot, behind an octet. -/
theorem Reading.dot {prev : Option UInt8} {val digLen : ℕ} {fields s : Bytes}
    (hr : Reading prev val digLen fields (GuardedIM.dot :: s)) (hs : s ≠ [])
    (hlong : fields.length ≠ 3) :
    Reading (some GuardedIM.dot) 0 0 (fields ++ [UInt8.ofNat val]) s := by
  refine ⟨by simp, fun _ => rfl, fun _ => Nat.zero_le _, Nat.zero_le _, ?_, by simp, fun _ => hs⟩
  have := hr.complete
  rw [List.length_append, List.length_singleton]
  omega

/-- An octet being read is a byte. -/
theorem Reading.toNat_val {prev : Option UInt8} {val digLen : ℕ} {fields s : Bytes}
    (hr : Reading prev val digLen fields s) : (UInt8.ofNat val).toNat = val := by
  rw [UInt8.toNat_ofNat']
  have := hr.byte
  omega

/-- The loop reads exactly the dotted text of its result. -/
theorem parseIPv4Fields_eq {s : Bytes} {prev : Option UInt8} {val digLen : ℕ} {fields ip : Bytes}
    (hr : Reading prev val digLen fields s)
    (h : parseIPv4Fields prev val digLen fields s = some ip) :
    fields.flatMap (fun b => decimal b.toNat ++ [dot]) ++ octetText digLen val ++ s = dotted ip ∧
      ip.length = 4 := by
  induction s generalizing prev val digLen fields with
  | nil =>
    rw [parseIPv4Fields] at h
    split_ifs at h with hshort
    obtain rfl := Option.some.inj h
    have hdig : digLen ≠ 0 := by
      intro hdig
      rcases hr.start.mp hdig with hprev | hprev
      · rw [hr.first hprev] at hshort
        exact hshort (by decide)
      · exact hr.last hprev rfl
    rw [octetText, if_neg hdig, List.append_nil, dotted_snoc, hr.toNat_val]
    refine ⟨rfl, ?_⟩
    have := hr.complete
    simp only [List.length_append, List.length_singleton]
    omega
  | cons c s ih =>
    rw [parseIPv4Fields] at h
    split_ifs at h with hdigit hzero hbig hdot hempty hlong
    · -- a digit
      obtain ⟨hread, hoctet⟩ := hr.digit hdigit hzero hbig
      obtain ⟨htext, hlen⟩ := ih hread h
      refine ⟨?_, hlen⟩
      rw [← htext, hoctet]
      simp
    · -- a dot
      subst hdot
      have hdig : digLen ≠ 0 := by
        intro hdig
        rcases hr.start.mp hdig with hprev | hprev
        · exact hempty (.inl hprev)
        · exact hempty (.inr (.inr hprev))
      have hs : s ≠ [] := fun hs => hempty (.inr (.inl hs))
      obtain ⟨htext, hlen⟩ := ih (hr.dot hs hlong) h
      refine ⟨?_, hlen⟩
      rw [← htext, List.flatMap_append, List.flatMap_singleton, hr.toNat_val, octetText, octetText,
        if_neg hdig, if_pos rfl]
      simp

/-- **IPv4 texts are canonical.** -/
theorem parseIPv4_eq {s ip : Bytes} (h : parseIPv4 s = some ip) :
    s = dotted ip ∧ ip.length = 4 := by
  have hread : Reading none 0 0 [] s :=
    ⟨by simp, fun _ => rfl, fun _ => Nat.zero_le _, Nat.zero_le _, Nat.zero_le _, fun _ => rfl,
      by simp⟩
  obtain ⟨htext, hlen⟩ := parseIPv4Fields_eq hread h
  exact ⟨htext, hlen⟩

/-! ## Dotted texts parse -/

theorem digit_of_mem_decimal {n : ℕ} {c : UInt8} (h : c ∈ decimal n) :
    48 ≤ c.toNat ∧ c.toNat ≤ 57 := by
  obtain ⟨d, hd, rfl⟩ := List.mem_map.mp h
  have hdigit := Nat.isDigit_of_mem_toDigits (by decide) (by decide) hd
  simp only [Char.isDigit, Bool.and_eq_true, decide_eq_true_eq] at hdigit
  have hlow : 48 ≤ d.toNat := hdigit.1
  have hhigh : d.toNat ≤ 57 := hdigit.2
  rw [UInt8.toNat_ofNat']
  omega

/-- The loop reads an octet. -/
theorem parseIPv4Fields_decimal {n : ℕ} (hn : n ≤ 255) (prev : Option UInt8) (fields s : Bytes) :
    ∃ c digLen, c ≠ dot ∧ parseIPv4Fields prev 0 0 fields (decimal n ++ s) =
      parseIPv4Fields (some c) n (digLen + 1) fields s := by
  induction n using Nat.strong_induction_on generalizing s with
  | _ n ih =>
    have hdigit : ∀ d, d < 10 → 48 ≤ (UInt8.ofNat (48 + d)).toNat ∧
        (UInt8.ofNat (48 + d)).toNat ≤ 57 ∧ (UInt8.ofNat (48 + d)).toNat - 48 = d := by
      intro d hd
      rw [UInt8.toNat_ofNat']
      omega
    have hne : ∀ d, d < 10 → UInt8.ofNat (48 + d) ≠ dot := by
      intro d hd heq
      have := (hdigit d hd).1
      rw [heq] at this
      exact absurd this (by decide)
    by_cases hsmall : n < 10
    · obtain ⟨hlow, hhigh, hval⟩ := hdigit n hsmall
      refine ⟨_, 0, hne n hsmall, ?_⟩
      rw [decimal_digit hsmall, List.singleton_append, parseIPv4Fields, if_pos ⟨hlow, hhigh⟩,
        if_neg (by simp), hval, if_neg (by omega), Nat.zero_mul, Nat.zero_add]
    · have hmod : n % 10 < 10 := Nat.mod_lt _ (by decide)
      have hsplit : n = n / 10 * 10 + n % 10 := by omega
      obtain ⟨hlow, hhigh, hval⟩ := hdigit (n % 10) hmod
      obtain ⟨c, digLen, -, hread⟩ := ih (n / 10) (by omega) (by omega)
        (UInt8.ofNat (48 + n % 10) :: s)
      refine ⟨_, digLen + 1, hne (n % 10) hmod, ?_⟩
      have htext : decimal n = decimal (n / 10) ++ [UInt8.ofNat (48 + n % 10)] := by
        conv_lhs => rw [hsplit]
        exact decimal_append (by omega) hmod
      rw [htext, List.append_assoc, List.singleton_append, hread, parseIPv4Fields,
        if_pos ⟨hlow, hhigh⟩, if_neg (by omega), hval, if_neg (by omega), ← hsplit]

/-- An octet and the dot behind it, when more is to come. -/
theorem parseIPv4Fields_octet (b : UInt8) {prev : Option UInt8} {fields s : Bytes} (hs : s ≠ [])
    (hlen : fields.length < 3) : parseIPv4Fields prev 0 0 fields (decimal b.toNat ++ dot :: s) =
      parseIPv4Fields (some dot) 0 0 (fields ++ [b]) s := by
  have hb : b.toNat ≤ 255 := Nat.le_of_lt_succ b.toNat_lt
  obtain ⟨c, digLen, hc, hread⟩ := parseIPv4Fields_decimal hb prev fields (dot :: s)
  rw [hread, parseIPv4Fields, if_neg (by decide), if_pos rfl, if_neg (by simp [hs, hc]),
    if_neg (by omega), UInt8.ofNat_toNat]

theorem decimal_ne_nil (n : ℕ) : decimal n ≠ [] := by
  simp [decimal]

/-- **The dotted text of an address parses to it.** -/
theorem parseIPv4_dotted {ip : Bytes} (h : ip.length = 4) : parseIPv4 (dotted ip) = some ip := by
  obtain ⟨a, b, c, d, rfl⟩ := List.length_eq_four.mp h
  have htext : dotted [a, b, c, d] = decimal a.toNat ++ dot :: (decimal b.toNat ++ dot ::
      (decimal c.toNat ++ dot :: (decimal d.toNat ++ []))) := by
    rw [dotted]
    simp only [List.map_cons, List.map_nil, List.intercalate_cons_cons,
      List.intercalate_singleton]
    simp
  obtain ⟨e, digLen, -, hread⟩ := parseIPv4Fields_decimal (Nat.le_of_lt_succ d.toNat_lt) (some dot)
    [a, b, c] []
  rw [parseIPv4, htext, parseIPv4Fields_octet _ (by simp) (by simp),
    parseIPv4Fields_octet _ (by simp) (by simp),
    parseIPv4Fields_octet _ (by simp [decimal_ne_nil]) (by simp), List.nil_append,
    List.singleton_append, List.cons_append, List.singleton_append, hread, parseIPv4Fields]
  simp

/-! ## What `net.ParseIP` accepts -/

/-- A text whose first special character is a dot is an IPv4 text. -/
theorem parseIP_eq_parseIPv4 {s : Bytes}
    (h : s.find? (fun c => c = dot || c = colon || c = percent) = some dot) :
    parseIP s = (parseIPv4 s).map (v4InV6Prefix ++ ·) := by
  rw [parseIP, h]
  rfl

/-- A text that begins with an octet and a dot is an IPv4 text. -/
theorem parseIP_octet {s : Bytes} {n : ℕ} (h : decimal n ++ [dot] <+: s) :
    parseIP s = (parseIPv4 s).map (v4InV6Prefix ++ ·) := by
  obtain ⟨rest, rfl⟩ := h
  apply parseIP_eq_parseIPv4
  rw [List.append_assoc, List.find?_append, List.find?_eq_none.mpr]
  · rfl
  · intro c hc hspecial
    have hdigit := digit_of_mem_decimal hc
    simp only [Bool.or_eq_true, decide_eq_true_eq] at hspecial
    rcases hspecial with (rfl | rfl) | rfl
    all_goals exact absurd hdigit (by decide)

/-- The dotted text of an address begins with an octet and a dot. -/
theorem exists_dotted_octet {ip : Bytes} (h : ip.length = 4) :
    ∃ n rest, dotted ip = decimal n ++ dot :: rest := by
  obtain ⟨a, b, c, d, rfl⟩ := List.length_eq_four.mp h
  rw [dotted, List.map_cons, List.map_cons, List.intercalate_cons_cons, List.append_assoc,
    List.singleton_append]
  exact ⟨_, _, rfl⟩

/-- `net.ParseIP` of a text that is an IPv4 address. -/
theorem parseIP_of_parseIPv4 {s ip : Bytes} (h : parseIPv4 s = some ip) :
    parseIP s = some (v4InV6Prefix ++ ip) := by
  obtain ⟨htext, hlen⟩ := parseIPv4_eq h
  obtain ⟨n, rest, hoctet⟩ := exists_dotted_octet hlen
  have hprefix : decimal n ++ [dot] <+: s := by
    rw [htext, hoctet]
    exact ⟨rest, by simp⟩
  rw [parseIP_octet hprefix, h, Option.map_some]

/-- A group is what `hexValue` reads. -/
theorem parseGroup_text {s rest : Bytes} {off acc off' acc' : ℕ}
    (h : parseGroup off acc s = some (off', acc', rest)) :
    ∃ digits, s = digits ++ rest ∧ ∀ c ∈ digits, (hexValue c).isSome = true := by
  induction s generalizing off acc with
  | nil =>
    obtain ⟨-, -, rfl⟩ : off = off' ∧ acc = acc' ∧ [] = rest := by simpa [parseGroup] using h
    exact ⟨[], rfl, by simp⟩
  | cons c s ih =>
    rw [parseGroup] at h
    split at h
    · obtain ⟨-, -, rfl⟩ : off = off' ∧ acc = acc' ∧ c :: s = rest := by simpa using h
      exact ⟨[], rfl, by simp⟩
    · rename_i d hd
      split_ifs at h
      obtain ⟨digits, rfl, hdigits⟩ := ih h
      have hc : (hexValue c).isSome = true := by rw [hd]; rfl
      exact ⟨c :: digits, rfl, List.forall_mem_cons.mpr ⟨hc, hdigits⟩⟩

/-- **One round of the loop**: an IPv4 address at the end, or a group with nothing behind it, an
ellipsis at the end, an ellipsis or a colon before more groups. -/
theorem parseGroups_cases {n : ℕ} {ip ip' s rest : Bytes} {ellipsis ellipsis' : Option ℕ}
    (h : parseGroups (n + 1) ip ellipsis s = some (ip', ellipsis', rest)) :
    (∃ fields, parseIPv4 s = some fields ∧ ip.length + 4 ≤ 16 ∧ ip' = ip ++ fields ∧
      ellipsis' = ellipsis) ∨
    ∃ digits group x y, s = digits ++ group ∧ (∀ c ∈ digits, (hexValue c).isSome = true) ∧
      ((group = [] ∧ ip' = ip ++ [x, y] ∧ ellipsis' = ellipsis) ∨
        (group = [colon, colon] ∧ ip' = ip ++ [x, y] ∧ ellipsis' = some (ip.length + 2)) ∨
        (∃ more, group = colon :: colon :: more ∧
          parseGroups n (ip ++ [x, y]) (some (ip.length + 2)) more = some (ip', ellipsis', rest)) ∨
        ∃ more, group = colon :: more ∧
          parseGroups n (ip ++ [x, y]) ellipsis more = some (ip', ellipsis', rest)) := by
  have htwo : ∀ x y : UInt8, (ip ++ [x, y]).length = ip.length + 2 := fun x y => by simp
  rw [parseGroups] at h
  split at h
  · cases h
  · rename_i off acc group hgroup
    obtain ⟨digits, rfl, hdigits⟩ := parseGroup_text hgroup
    have hoff : off ≠ 0 := by
      rintro rfl
      simp at h
    rw [if_neg hoff] at h
    by_cases hdot : group.head? = some dot
    · rw [if_pos hdot] at h
      split_ifs at h with hplace hroom
      obtain ⟨fields, hfields, heq⟩ := Option.map_eq_some_iff.mp h
      obtain ⟨rfl, rfl, -⟩ : ip ++ fields = ip' ∧ ellipsis = ellipsis' ∧ [] = rest := by
        simpa using heq
      exact .inl ⟨fields, hfields, Nat.le_of_not_lt hroom, rfl, rfl⟩
    · rw [if_neg hdot] at h
      refine .inr ⟨digits, group, UInt8.ofNat (acc / 256), UInt8.ofNat acc, rfl, hdigits, ?_⟩
      dsimp only at h
      split at h
      · obtain ⟨rfl, rfl, -⟩ := by simpa using h
        exact .inl ⟨rfl, rfl, rfl⟩
      · rename_i c group
        have hc : c = colon := by
          by_contra hc
          simp [hc] at h
        rw [if_neg (not_not.mpr hc)] at h
        split at h
        · cases h
        · rename_i d group
          by_cases hd : d = colon
          · -- the ellipsis
            rw [if_pos hd, htwo] at h
            split_ifs at h with hsome hend
            · obtain ⟨rfl, rfl, -⟩ := by simpa using h
              exact .inr (.inl ⟨by rw [hc, hd, hend], rfl, rfl⟩)
            · exact .inr (.inr (.inl ⟨group, by rw [hc, hd], h⟩))
          · rw [if_neg hd] at h
            exact .inr (.inr (.inr ⟨d :: group, by rw [hc], h⟩))

/-- The loop keeps within 16 bytes, and the ellipsis within what is read. -/
theorem parseGroups_length {n : ℕ} {ip ip' : Bytes} {ellipsis ellipsis' : Option ℕ}
    {s rest : Bytes} (hlen : ip.length + 2 * n = 16) (hell : ∀ e ∈ ellipsis, e ≤ ip.length)
    (h : parseGroups n ip ellipsis s = some (ip', ellipsis', rest)) :
    ip'.length ≤ 16 ∧ ∀ e ∈ ellipsis', e ≤ ip'.length := by
  induction n generalizing ip ellipsis s with
  | zero =>
    obtain ⟨rfl, rfl, -⟩ : ip = ip' ∧ ellipsis = ellipsis' ∧ s = rest := by
      simpa [parseGroups] using h
    exact ⟨by omega, hell⟩
  | succ n ih =>
    have hgrow : ∀ more : Bytes, ∀ e ∈ ellipsis, e ≤ (ip ++ more).length := by
      intro more e he
      have := hell e he
      rw [List.length_append]
      omega
    have htwo : ∀ x y : UInt8, (ip ++ [x, y]).length = ip.length + 2 := fun x y => by simp
    have hhere : ∀ x y : UInt8, ∀ e ∈ some (ip.length + 2), e ≤ (ip ++ [x, y]).length := by
      intro x y e he
      rw [htwo, ← Option.some.inj he]
    rcases parseGroups_cases h with ⟨fields, hfields, hroom, rfl, rfl⟩ |
      ⟨digits, group, x, y, -, -, hgroup⟩
    · have hfour := (parseIPv4_eq hfields).2
      exact ⟨by rw [List.length_append]; omega, hgrow fields⟩
    · rcases hgroup with ⟨-, rfl, rfl⟩ | ⟨-, rfl, rfl⟩ | ⟨more, -, hmore⟩ | ⟨more, -, hmore⟩
      · exact ⟨by rw [htwo]; omega, hgrow _⟩
      · exact ⟨by rw [htwo]; omega, hhere x y⟩
      · exact ih (by rw [htwo]; omega) (hhere x y) hmore
      · exact ih (by rw [htwo]; omega) (hgrow _) hmore

theorem length_expand {ip out : Bytes} {ellipsis : Option ℕ} {rest : Bytes}
    (hlen : ip.length ≤ 16) (hell : ∀ e ∈ ellipsis, e ≤ ip.length)
    (h : expand ip ellipsis rest = some out) : out.length = 16 := by
  rw [expand] at h
  split_ifs at h with hrest hshort hsome
  · obtain ⟨e, he, rfl⟩ := Option.map_eq_some_iff.mp h
    have := hell e he
    simp only [List.length_append, List.length_take, List.length_replicate, List.length_drop]
    omega
  · rw [← Option.some.inj h]
    omega

/-- **An accepted text names 16 bytes.** -/
theorem length_parseIP {s ip : Bytes} (h : parseIP s = some ip) : ip.length = 16 := by
  rw [parseIP] at h
  split at h
  · split_ifs at h
    · obtain ⟨fields, hfields, rfl⟩ := Option.map_eq_some_iff.mp h
      have hfour := (parseIPv4_eq hfields).2
      rw [List.length_append, hfour]
      rfl
    · rw [parseIPv6] at h
      split_ifs at h
      · rw [← Option.some.inj h, List.length_replicate]
      all_goals
        split at h
        · rename_i hgroups
          obtain ⟨hlen, hell⟩ := parseGroups_length (by simp) (by simp) hgroups
          exact length_expand hlen hell h
        · cases h
  · cases h

/-! ## What addresses are written with -/

/-- A dotted text is dots and digits. -/
theorem mem_dotted {ip : Bytes} {c : UInt8} (h : c ∈ dotted ip) :
    c = dot ∨ (48 ≤ c.toNat ∧ c.toNat ≤ 57) := by
  rcases List.eq_nil_or_concat ip with rfl | ⟨fields, b, rfl⟩
  · cases h
  · rw [List.concat_eq_append, dotted_snoc, List.mem_append, List.mem_flatMap] at h
    rcases h with ⟨b', -, hc⟩ | hc
    · rcases List.mem_append.mp hc with hc | hc
      · exact .inr (digit_of_mem_decimal hc)
      · exact .inl (List.mem_singleton.mp hc)
    · exact .inr (digit_of_mem_decimal hc)

/-- A byte of the text of an address: a hexadecimal digit, a colon or a dot. -/
def isAddressByte (c : UInt8) : Bool := (hexValue c).isSome || c = colon || c = dot

theorem isAddressByte_dotted {ip : Bytes} {c : UInt8} (h : c ∈ dotted ip) :
    isAddressByte c = true := by
  rcases mem_dotted h with rfl | hdigit
  · decide
  · simp [isAddressByte, hexValue, hdigit]

/-- A text that the loop uses up is groups and colons, with an IPv4 address at the end or not. -/
theorem parseGroups_text {n : ℕ} {ip ip' s : Bytes} {ellipsis ellipsis' : Option ℕ}
    (h : parseGroups n ip ellipsis s = some (ip', ellipsis', [])) :
    ∀ c ∈ s, isAddressByte c = true := by
  induction n generalizing ip ellipsis s with
  | zero =>
    obtain ⟨-, -, rfl⟩ : ip = ip' ∧ ellipsis = ellipsis' ∧ s = [] := by
      simpa [parseGroups] using h
    simp
  | succ n ih =>
    have hcolon : isAddressByte colon = true := by decide
    rcases parseGroups_cases h with ⟨fields, hfields, -⟩ |
      ⟨digits, group, x, y, rfl, hdigits, hgroup⟩
    · intro c hc
      rw [(parseIPv4_eq hfields).1] at hc
      exact isAddressByte_dotted hc
    · have hhex : ∀ c ∈ digits, isAddressByte c = true := by
        intro c hc
        simp [isAddressByte, hdigits c hc]
      refine List.forall_mem_append.mpr ⟨hhex, ?_⟩
      rcases hgroup with ⟨rfl, -⟩ | ⟨rfl, -⟩ | ⟨more, rfl, hmore⟩ | ⟨more, rfl, hmore⟩
      · simp
      · simp [hcolon]
      · simpa [hcolon] using ih hmore
      · simpa [hcolon] using ih hmore

theorem expand_rest {ip out rest : Bytes} {ellipsis : Option ℕ}
    (h : expand ip ellipsis rest = some out) : rest = [] := by
  by_contra hrest
  rw [expand, if_pos hrest] at h
  cases h

/-- **What the text of an IPv6 address is made of.** -/
theorem isAddressByte_parseIPv6 {s ip : Bytes} (h : parseIPv6 s = some ip) :
    ∀ c ∈ s, isAddressByte c = true := by
  have hcolon : isAddressByte colon = true := by decide
  rw [parseIPv6] at h
  split_ifs at h with hpercent hfirst hall
  · rw [← List.take_append_drop 2 s, hfirst, hall]
    simp [hcolon]
  · split at h
    · rename_i hgroups
      obtain rfl := expand_rest h
      rw [← List.take_append_drop 2 s, hfirst]
      simpa [hcolon] using parseGroups_text hgroups
    · cases h
  · split at h
    · rename_i hgroups
      obtain rfl := expand_rest h
      exact parseGroups_text hgroups
    · cases h

end GuardedIM
