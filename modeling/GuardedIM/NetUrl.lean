import GuardedIM.Dict
import GuardedIM.Percent
import GuardedIM.Text

/-!
# `net/url`

The functions of Go's package that build and take apart a URL: escaping for the parts of a URL,
`Values.Encode`, `Parse` with the methods of what it returns, and `ParseQuery`. Strings are their
bytes. `Parse` does not look for a colon in a host: only the last one, before digits, begins a port.

* `parseQuery_encodePairs`: the pairs that were encoded are the ones that are parsed.
* `parse_authority`: a URL put together from parts without foreign separators is taken apart again.
-/

namespace GuardedIM.NetUrl

/-- The parts of a URL (`encoding`). -/
inductive Encoding where
  /-- a path -/
  | path
  /-- a segment of a path -/
  | pathSegment
  /-- a host with its port -/
  | host
  /-- the zone of an IPv6 address -/
  | zone
  /-- a username or a password -/
  | userPassword
  /-- a key or a value of a query -/
  | queryComponent
  /-- a fragment -/
  | fragment
deriving DecidableEq

/-- `'a' <= c && c <= 'z' || 'A' <= c && c <= 'Z'` -/
def isLetter (c : UInt8) : Bool := (97 ≤ c && c ≤ 122) || (65 ≤ c && c ≤ 90)

/-- `'0' <= c && c <= '9'` -/
def isDigit (c : UInt8) : Bool := 48 ≤ c && c ≤ 57

/-- `shouldEscape` -/
def shouldEscape (c : UInt8) (mode : Encoding) : Bool :=
  if isLetter c || isDigit c then false
  else if (mode = .host ∨ mode = .zone) ∧ c ∈ ascii "!$&()*+,;=:[]<>" ++ [34, 39] then false
  else if c ∈ ascii "-_.~" then false
  else if c ∈ ascii "$&+,/:;=?@" then
    match mode with
    | .path => c = 63
    | .pathSegment => c ∈ ascii "/;,?"
    | .userPassword => c ∈ ascii "@/?:"
    | .queryComponent => true
    | .fragment => false
    | .host | .zone => true
  else if mode = .fragment ∧ c ∈ ascii "!()*" then false
  else true

/-- What `escape` and `unescape` do in a part. -/
def Encoding.coding (mode : Encoding) : Percent.Coding where
  keep c := !shouldEscape c mode
  blankPlus := mode = .queryComponent
  literal c := !((mode = .host || mode = .zone) && c < 128 && shouldEscape c mode)
  coded v :=
    match mode with
    | .host => 128 ≤ v || v = 37
    | .zone => v = 37 || v = 32 || !shouldEscape v .host
    | _ => true
  percent_coded := by cases mode <;> rfl
  plus_coded := by
    cases mode with
    | queryComponent => exact fun _ => rfl
    | _ => simp

/-- `escape` -/
def escape (s : Bytes) (mode : Encoding) : Bytes := Percent.escape mode.coding s

/-- `unescape` -/
def unescape (s : Bytes) (mode : Encoding) : Option Bytes := Percent.unescape mode.coding s

/-! ## Strings -/

/-- `strings.Cut(s, sep)`: what is before the first `sep`, and what is behind it. -/
def cut (s : Bytes) (sep : UInt8) : Bytes × Bytes :=
  (s.takeWhile (· ≠ sep), (s.dropWhile (· ≠ sep)).tail)

/-- What is before the last `sep`, and what is behind it. -/
def cutLast (s : Bytes) (sep : UInt8) : Option (Bytes × Bytes) :=
  if sep ∈ s then some ((cut s.reverse sep).2.reverse, (cut s.reverse sep).1.reverse) else none

variable {s t : Bytes} {sep : UInt8}

theorem forall_ne (h : sep ∉ s) : ∀ c ∈ s, decide (c ≠ sep) = true :=
  fun _ hc => decide_eq_true fun he => h (he ▸ hc)

theorem takeWhile_append_sep (h : sep ∉ s) (t : Bytes) :
    (s ++ sep :: t).takeWhile (· ≠ sep) = s := by
  rw [List.takeWhile_append_of_pos (forall_ne h), List.takeWhile_cons_of_neg (by simp),
    List.append_nil]

theorem dropWhile_append_sep (h : sep ∉ s) (t : Bytes) :
    (s ++ sep :: t).dropWhile (· ≠ sep) = sep :: t := by
  rw [List.dropWhile_append_of_pos (forall_ne h), List.dropWhile_cons_of_neg (by simp)]

@[simp] theorem cut_append (h : sep ∉ s) (t : Bytes) : cut (s ++ sep :: t) sep = (s, t) := by
  rw [cut, takeWhile_append_sep h, dropWhile_append_sep h, List.tail_cons]

theorem cut_of_not_mem (h : sep ∉ s) : cut s sep = (s, []) := by
  rw [cut, List.takeWhile_eq_self_iff.mpr (forall_ne h),
    List.dropWhile_eq_nil_iff.mpr (forall_ne h), List.tail_nil]

theorem cutLast_append (h : sep ∉ t) (s : Bytes) : cutLast (s ++ sep :: t) sep = some (s, t) := by
  have hrev : (s ++ sep :: t).reverse = t.reverse ++ sep :: s.reverse := by
    simp
  rw [cutLast, if_pos (List.mem_append_right _ (List.mem_cons_self ..)), hrev,
    cut_append (fun hmem => h (List.mem_reverse.mp hmem)), List.reverse_reverse,
    List.reverse_reverse]

/-- What stands in texts with a separator between them. -/
theorem mem_intercalate {texts : List Bytes} {c : UInt8} (h : c ∈ [sep].intercalate texts) :
    c = sep ∨ ∃ text ∈ texts, c ∈ text := by
  induction texts with
  | nil => simp at h
  | cons text texts ih =>
    cases texts with
    | nil => exact .inr ⟨text, List.mem_singleton_self _, by simpa using h⟩
    | cons next texts =>
      rw [List.intercalate_cons_cons, List.mem_append, List.mem_append] at h
      rcases h with (h | h) | h
      · exact .inr ⟨text, List.mem_cons_self .., h⟩
      · exact .inl (List.mem_singleton.mp h)
      · refine (ih h).imp_right ?_
        rintro ⟨found, hfound, hc⟩
        exact ⟨found, List.mem_cons_of_mem _ hfound, hc⟩

/-! ## Queries -/

/-- `Values`: each key with its values, in the order in which they were added. -/
abbrev Values := Dict Bytes (List Bytes)

/-- `v.Set(key, value)` -/
def Values.put (v : Values) (key value : Bytes) : Values := Dict.set v key [value]

/-- The order in which Go sorts strings. -/
def sortsBefore : Bytes → Bytes → Bool
  | _, [] => false
  | [], _ :: _ => true
  | c :: s, d :: t => c < d || (c = d && sortsBefore s t)

/-- Insert a key into sorted ones. -/
def insertKey (key : Bytes) : List Bytes → List Bytes
  | [] => [key]
  | k :: keys => if sortsBefore k key then k :: insertKey key keys else key :: k :: keys

/-- One pair of a query. -/
def encodePair (pair : Bytes × Bytes) : Bytes :=
  escape pair.1 .queryComponent ++ 61 :: escape pair.2 .queryComponent

/-- The pairs of a query, one behind the other. -/
def encodePairs (pairs : List (Bytes × Bytes)) : Bytes := [38].intercalate (pairs.map encodePair)

/-- `v.Encode()` -/
def Values.encode (v : Values) : Bytes :=
  let keys := (Dict.keys v).foldr insertKey []
  encodePairs (keys.flatMap fun key => ((Dict.get v key).getD []).map fun value => (key, value))

/-- One round of the loop of `parseQuery`; the flag says that there was no error yet. -/
def parsePair (m : Values × Bool) (key : Bytes) : Values × Bool :=
  if 59 ∈ key then (m.1, false)
  else if key = [] then m
  else
    match unescape (cut key 61).1 .queryComponent, unescape (cut key 61).2 .queryComponent with
    | some key, some value => (Dict.set m.1 key ((Dict.get m.1 key).getD [] ++ [value]), m.2)
    | _, _ => (m.1, false)

/-- `ParseQuery`: the pairs that can be read, and whether all could. -/
def parseQuery (query : Bytes) : Values × Bool := (query.splitOn 38).foldl parsePair ([], true)

/-! ## URLs -/

/-- `Userinfo`; the password is optional. -/
structure Userinfo where
  /-- `Username()` -/
  username : Bytes
  /-- `Password()` -/
  password : Option Bytes
deriving DecidableEq

/-- `User(username)` -/
def user (username : Bytes) : Userinfo := ⟨username, none⟩

/-- `u.String()` -/
def Userinfo.string (u : Userinfo) : Bytes :=
  if u.username ≠ [] ∨ u.password.isSome then
    escape u.username .userPassword ++
      match u.password with
      | some password => 58 :: escape password .userPassword
      | none => []
  else []

/-- `PathEscape` -/
def pathEscape (s : Bytes) : Bytes := escape s .pathSegment

/-- `URL` -/
structure URL where
  /-- `Scheme` -/
  scheme : Bytes
  /-- `Opaque` -/
  opaqueData : Bytes
  /-- `User` -/
  user : Option Userinfo
  /-- `Host`, with the port -/
  host : Bytes
  /-- `Path` -/
  path : Bytes
  /-- `RawPath`, when it is not the default encoding of the path -/
  rawPath : Bytes
  /-- `OmitHost` -/
  omitHost : Bool
  /-- `ForceQuery` -/
  forceQuery : Bool
  /-- `RawQuery` -/
  rawQuery : Bytes
  /-- `Fragment` -/
  fragment : Bytes
deriving DecidableEq

/-- The loop of `getScheme`: `front` was read before `s`, of the text `rawURL`. -/
def scanScheme (rawURL front : Bytes) : Bytes → Option (Bytes × Bytes)
  | [] => some ([], rawURL)
  | c :: s =>
    if isLetter c then scanScheme rawURL (front ++ [c]) s
    else if isDigit c || c ∈ ascii "+-." then
      if front = [] then some ([], rawURL) else scanScheme rawURL (front ++ [c]) s
    else if c = 58 then
      if front = [] then none else some (front, s)
    else some ([], rawURL)

/-- `getScheme` -/
def getScheme (rawURL : Bytes) : Option (Bytes × Bytes) := scanScheme rawURL [] rawURL

/-- `strings.ToLower`, for a scheme. -/
def toLower (s : Bytes) : Bytes := s.map fun c => if 65 ≤ c && c ≤ 90 then c + 32 else c

/-- `validOptionalPort` -/
def validOptionalPort : Bytes → Bool
  | [] => true
  | c :: digits => c = 58 && digits.all isDigit

/-- `validUserinfo` -/
def validUserinfo (s : Bytes) : Bool :=
  s.all fun c => isLetter c || isDigit c || c ∈ ascii "-._:~!$&()*+,;=%@" ++ [39]

/-- Where the text `sub` begins in `s`. -/
def indexOf (sub s : Bytes) : Option ℕ := s.tails.findIdx? fun rest => sub.isPrefixOf rest

/-- `parseHost` -/
def parseHost (host : Bytes) : Option Bytes :=
  if host.head? = some 91 then
    match cutLast host 93 with
    | none => none
    | some (literal, colonPort) =>
      if !validOptionalPort colonPort then none
      else
        match indexOf (ascii "%25") literal with
        | some zone =>
          match unescape (literal.take zone) .host, unescape (literal.drop zone) .zone,
              unescape (93 :: colonPort) .host with
          | some host1, some host2, some host3 => some (host1 ++ host2 ++ host3)
          | _, _, _ => none
        | none => unescape host .host
  else
    match cutLast host 58 with
    | some (_, port) => if !validOptionalPort (58 :: port) then none else unescape host .host
    | none => unescape host .host

/-- The user in front of the `@` of an authority. -/
def parseUserinfo (userinfo : Bytes) : Option Userinfo :=
  if !validUserinfo userinfo then none
  else if 58 ∉ userinfo then (unescape userinfo .userPassword).map user
  else
    match unescape (cut userinfo 58).1 .userPassword,
        unescape (cut userinfo 58).2 .userPassword with
    | some username, some password => some ⟨username, some password⟩
    | _, _ => none

/-- `parseAuthority` -/
def parseAuthority (authority : Bytes) : Option (Option Userinfo × Bytes) :=
  match cutLast authority 64 with
  | none => (parseHost authority).map fun host => (none, host)
  | some (userinfo, host) =>
    match parseHost host, parseUserinfo userinfo with
    | some host, some user => some (some user, host)
    | _, _ => none

/-- `setPath` -/
def URL.setPath (url : URL) (p : Bytes) : Option URL :=
  (unescape p .path).map fun path =>
    { url with path, rawPath := if p = escape path .path then [] else p }

/-- `parse`, on a text without a fragment. -/
def parseRest (rawURL : Bytes) : Option URL :=
  let url : URL := ⟨[], [], none, [], [], [], false, false, [], []⟩
  if rawURL.any fun c => c < 32 || c = 127 then none
  else if rawURL = [42] then some { url with path := [42] }
  else
    match getScheme rawURL with
    | none => none
    | some (scheme, rest) =>
      let force := rest.getLast? = some 63 && rest.count 63 = 1
      let url := { url with scheme := toLower scheme, forceQuery := force,
                            rawQuery := (cut rest 63).2 }
      let rest := (cut rest 63).1
      if rest.head? ≠ some 47 then
        if scheme ≠ [] then some { url with opaqueData := rest }
        else if 58 ∈ (cut rest 47).1 then none
        else url.setPath rest
      else if (scheme ≠ [] ∨ rest.take 3 ≠ [47, 47, 47]) ∧ rest.take 2 = [47, 47] then
        let authority := (rest.drop 2).takeWhile (· ≠ 47)
        match parseAuthority authority with
        | none => none
        | some (user, host) =>
          { url with user, host }.setPath ((rest.drop 2).dropWhile (· ≠ 47))
      else { url with omitHost := scheme ≠ [] }.setPath rest

/-- `Parse` -/
def parse (rawURL : Bytes) : Option URL :=
  match parseRest (cut rawURL 35).1 with
  | none => none
  | some url =>
    if (cut rawURL 35).2 = [] then some url
    else (unescape (cut rawURL 35).2 .fragment).map fun fragment => { url with fragment }

/-- `splitHostPort` -/
def splitHostPort (hostPort : Bytes) : Bytes × Bytes :=
  let (host, port) :=
    match cutLast hostPort 58 with
    | some (host, port) => if validOptionalPort (58 :: port) then (host, port) else (hostPort, [])
    | none => (hostPort, [])
  if host.head? = some 91 && host.getLast? = some 93 then ((host.drop 1).dropLast, port)
  else (host, port)

/-- `u.Hostname()` -/
def URL.hostname (u : URL) : Bytes := (splitHostPort u.host).1

/-- `u.Port()` -/
def URL.port (u : URL) : Bytes := (splitHostPort u.host).2

/-- `u.Query()` -/
def URL.query (u : URL) : Values := (parseQuery u.rawQuery).1

/-! ## Parts -/

/-- What holds of all bytes holds of this one. -/
theorem forall_byte {P : UInt8 → Prop} (h : ∀ n < 256, P (UInt8.ofNat n)) (c : UInt8) : P c := by
  rw [← UInt8.ofNat_toNat (x := c)]
  exact h _ c.toNat_lt

variable {mode mode' : Encoding} {c : UInt8}

/-- **Unescaping undoes escaping**, for the parts in which every byte may be escaped. -/
theorem unescape_escape (hblank : mode.coding.blankPlus = mode'.coding.blankPlus)
    (hhost : mode' ≠ .host) (hzone : mode' ≠ .zone) (s : Bytes) :
    unescape (escape s mode) mode' = some s := by
  refine Percent.unescape_escape hblank (fun c => ?_) s
  cases mode' with
  | host => exact absurd rfl hhost
  | zone => exact absurd rfl hzone
  | _ => exact ⟨rfl, rfl⟩

/-- An escaped text has only bytes that its part allows. -/
theorem forall_mem_escape {P : UInt8 → Prop} (hkeep : ∀ c, shouldEscape c mode = false → P c)
    (hpercent : P 37) (hplus : P 43) (hdigit : ∀ n, n < 16 → P (Percent.upperhex n)) :
    ∀ c ∈ escape s mode, P c := by
  refine Percent.forall_mem_escape (fun c hc => hkeep c ?_) hpercent hplus hdigit
  simpa [Encoding.coding] using hc

/-- A byte that ends no part of a URL but the one it is in. -/
def isClear (c : UInt8) : Bool := 32 ≤ c && c ≠ 127 && c ≠ 35 && c ≠ 63

/-- An escaped username is clear and has no separator of the authority. -/
theorem escape_user (c : UInt8) (hc : c ∈ escape s .userPassword) :
    (isClear c && validUserinfo [c] && c ≠ 47 && c ≠ 58 && c ≠ 64) = true := by
  revert c
  exact forall_mem_escape (forall_byte (by decide +kernel)) (by decide) (by decide) (by decide)

theorem escape_segment (c : UInt8) (hc : c ∈ escape s .pathSegment) : isClear c = true := by
  revert c
  exact forall_mem_escape (forall_byte (by decide +kernel)) (by decide) (by decide) (by decide)

theorem escape_query (c : UInt8) (hc : c ∈ escape s .queryComponent) :
    (isClear c && c ≠ 38 && c ≠ 59 && c ≠ 61) = true := by
  revert c
  exact forall_mem_escape (forall_byte (by decide +kernel)) (by decide) (by decide) (by decide)

/-! ## Queries are read back -/

/-- One pair is read back. -/
theorem parsePair_encodePair {m : Values} {key : Bytes} (h : key ∉ Dict.keys m) (value : Bytes) :
    parsePair (m, true) (encodePair (key, value)) = (m ++ [(key, [value])], true) := by
  have hsep : ∀ part : Bytes, 59 ∉ escape part .queryComponent := by
    intro part hmem
    simpa using escape_query 59 hmem
  have hsemicolon : 59 ∉ encodePair (key, value) := by
    simp [encodePair, hsep]
  have hne : encodePair (key, value) ≠ [] := by
    simp [encodePair]
  have hcut : cut (encodePair (key, value)) 61 =
      (escape key .queryComponent, escape value .queryComponent) := by
    refine cut_append (fun hmem => ?_) _
    simpa using escape_query 61 hmem
  have hback : ∀ part, unescape (escape part .queryComponent) .queryComponent = some part :=
    fun part => unescape_escape rfl (by simp) (by simp) part
  rw [parsePair, if_neg hsemicolon, if_neg hne, hcut]
  simp only [hback, Dict.get_of_not_mem h, Dict.set_of_not_mem h, Option.getD_none,
    List.nil_append]

/-- The loop reads the pairs back one after the other. -/
theorem foldl_parsePair (pairs : List (Bytes × Bytes)) (m : Values)
    (h : (Dict.keys m ++ pairs.map Prod.fst).Nodup) :
    (pairs.map encodePair).foldl parsePair (m, true) =
      (m ++ pairs.map fun p => (p.1, [p.2]), true) := by
  induction pairs generalizing m with
  | nil => simp
  | cons pair pairs ih =>
    obtain ⟨key, value⟩ := pair
    have hnew : key ∉ Dict.keys m := by
      intro hmem
      exact (List.nodup_append.mp h).2.2 _ hmem _ (List.mem_cons_self ..) rfl
    have hrest : (Dict.keys (m ++ [(key, [value])]) ++ pairs.map Prod.fst).Nodup := by
      simpa [Dict.keys] using h
    rw [List.map_cons, List.foldl_cons, parsePair_encodePair hnew, ih _ hrest, List.append_assoc]
    rfl

/-- **The pairs that were encoded are the ones that are parsed**: no key and no value can end its
pair, whatever it is made of. -/
theorem parseQuery_encodePairs {pairs : List (Bytes × Bytes)} (hne : pairs ≠ [])
    (h : (pairs.map Prod.fst).Nodup) :
    parseQuery (encodePairs pairs) = (pairs.map fun p => (p.1, [p.2]), true) := by
  have hsep : ∀ pair ∈ pairs.map encodePair, (38 : UInt8) ∉ pair := by
    rintro _ hpair hmem
    obtain ⟨pair, -, rfl⟩ := List.mem_map.mp hpair
    rcases List.mem_append.mp hmem with hmem | hmem
    · simpa using escape_query 38 hmem
    · rcases List.mem_cons.mp hmem with heq | hmem
      · cases heq
      · simpa using escape_query 38 hmem
  rw [parseQuery, encodePairs, List.splitOn_intercalate 38 hsep (by simpa using hne),
    foldl_parsePair _ _ (by simpa [Dict.keys] using h)]
  rfl

/-- An encoded query is clear. -/
theorem isClear_encodePairs {pairs : List (Bytes × Bytes)} {c : UInt8}
    (hc : c ∈ encodePairs pairs) : isClear c = true := by
  have hpart : ∀ part : Bytes, c ∈ escape part .queryComponent → isClear c = true := by
    intro part hmem
    have hquery := escape_query c hmem
    simp only [Bool.and_eq_true] at hquery
    exact hquery.1.1.1
  rcases mem_intercalate hc with rfl | ⟨text, htext, hmem⟩
  · decide
  · obtain ⟨pair, -, rfl⟩ := List.mem_map.mp htext
    rcases List.mem_append.mp hmem with hkey | hvalue
    · exact hpart _ hkey
    · rcases List.mem_cons.mp hvalue with rfl | hvalue
      · decide
      · exact hpart _ hvalue

/-! ## URLs are taken apart again -/

theorem scanScheme_letters {s : Bytes} (h : s.all isLetter = true) (rawURL t : Bytes)
    {front : Bytes} (hne : front ++ s ≠ []) :
    scanScheme rawURL front (s ++ 58 :: t) = some (front ++ s, t) := by
  induction s generalizing front with
  | nil =>
    have hfront : front ≠ [] := by simpa using hne
    rw [List.nil_append, scanScheme, if_neg (by decide), if_neg (by decide), if_pos rfl,
      if_neg hfront, List.append_nil]
  | cons c s ih =>
    obtain ⟨hc, hs⟩ : isLetter c = true ∧ s.all isLetter = true := by simpa using h
    rw [List.cons_append, scanScheme, if_pos hc, ih hs (by simp), List.append_assoc,
      List.singleton_append]

@[simp] theorem string_user (name : Bytes) : (user name).string = escape name .userPassword := by
  rw [Userinfo.string, user]
  split_ifs with h
  · simp
  · have hname : name = [] := by simpa using h
    rw [hname]
    rfl

/-- **A username is read back**, and no password. -/
theorem parseUserinfo_user (name : Bytes) :
    parseUserinfo (user name).string = some (user name) := by
  have hvalid : validUserinfo (escape name .userPassword) = true := by
    refine List.all_eq_true.mpr fun c hc => ?_
    have huser := escape_user c hc
    simp only [Bool.and_eq_true] at huser
    simpa [validUserinfo] using huser.1.1.1.2
  have hcolon : 58 ∉ escape name .userPassword := by
    intro hmem
    simpa using escape_user 58 hmem
  rw [string_user, parseUserinfo, if_neg (by simp [hvalid]), if_pos hcolon,
    unescape_escape rfl (by simp) (by simp), Option.map_some]

/-- A byte that stands for itself in a host, with the colons of an IPv6 address. -/
def isHostByte (c : UInt8) : Bool := isLetter c || isDigit c || c ∈ ascii "-._:"

variable {addr digits : Bytes}

theorem head_ne_bracket (h : ∀ c ∈ addr, isHostByte c = true) (t : Bytes) :
    (addr ++ 58 :: t).head? ≠ some 91 := by
  cases addr with
  | nil => simp
  | cons c addr =>
    have hc := h c (List.mem_cons_self ..)
    intro heq
    rw [List.cons_append, List.head?_cons, Option.some.injEq] at heq
    rw [heq] at hc
    cases hc

/-- A port of digits is valid, and has no colon. -/
theorem validOptionalPort_digits (h : digits.all isDigit = true) :
    validOptionalPort (58 :: digits) = true ∧ 58 ∉ digits := by
  refine ⟨by simpa [validOptionalPort] using h, fun hmem => ?_⟩
  have hcolon := List.all_eq_true.mp h 58 hmem
  cases hcolon

/-- What a host and its port are made of. -/
theorem mem_hostPort (haddr : ∀ c ∈ addr, isHostByte c = true) (hdigits : digits.all isDigit = true)
    {c : UInt8} (hc : c ∈ addr ++ 58 :: digits) : isHostByte c = true := by
  rcases List.mem_append.mp hc with hc | hc
  · exact haddr c hc
  · rcases List.mem_cons.mp hc with rfl | hc
    · decide
    · simp [isHostByte, List.all_eq_true.mp hdigits c hc]

/-- **A host and its port are accepted as they are.** -/
theorem parseHost_plain (haddr : ∀ c ∈ addr, isHostByte c = true)
    (hdigits : digits.all isDigit = true) :
    parseHost (addr ++ 58 :: digits) = some (addr ++ 58 :: digits) := by
  obtain ⟨hvalid, hcolon⟩ := validOptionalPort_digits hdigits
  have hliteral : ∀ c : UInt8, isHostByte c = true →
      c ≠ 37 ∧ c ≠ 43 ∧ Encoding.host.coding.literal c = true := forall_byte (by decide +kernel)
  rw [parseHost, if_neg (head_ne_bracket haddr digits), cutLast_append hcolon]
  simp only [hvalid, Bool.not_true, Bool.false_eq_true, if_false]
  exact Percent.unescape_plain fun c hc => hliteral c (mem_hostPort haddr hdigits hc)

/-- **The last colon begins the port.** -/
theorem splitHostPort_plain (haddr : ∀ c ∈ addr, isHostByte c = true)
    (hdigits : digits.all isDigit = true) :
    splitHostPort (addr ++ 58 :: digits) = (addr, digits) := by
  obtain ⟨hvalid, hcolon⟩ := validOptionalPort_digits hdigits
  have hhead : addr.head? ≠ some 91 := by
    intro heq
    refine head_ne_bracket haddr digits ?_
    rw [List.head?_append, heq, Option.some_or]
  rw [splitHostPort, cutLast_append hcolon]
  simp [hvalid, hhead]

/-- **The user and the host of an authority**: nothing in the username can end it. -/
theorem parseAuthority_user (name : Bytes) (haddr : ∀ c ∈ addr, isHostByte c = true)
    (hdigits : digits.all isDigit = true) :
    parseAuthority ((user name).string ++ 64 :: (addr ++ 58 :: digits)) =
      some (some (user name), addr ++ 58 :: digits) := by
  have hat : 64 ∉ addr ++ 58 :: digits := by
    intro hmem
    cases mem_hostPort haddr hdigits hmem
  rw [parseAuthority, cutLast_append hat]
  simp only [parseHost_plain haddr hdigits, parseUserinfo_user]

/-- An authority of these parts is clear and ends at the first slash behind it. -/
theorem clear_authority (name : Bytes) (haddr : ∀ c ∈ addr, isHostByte c = true)
    (hdigits : digits.all isDigit = true) :
    ∀ c ∈ (user name).string ++ 64 :: (addr ++ 58 :: digits), isClear c = true ∧ c ≠ 47 := by
  have hhost : ∀ c : UInt8, isHostByte c = true → isClear c = true ∧ c ≠ 47 :=
    forall_byte (by decide +kernel)
  intro c hc
  rcases List.mem_append.mp hc with hc | hc
  · rw [string_user] at hc
    have huser := escape_user c hc
    simp only [Bool.and_eq_true, decide_eq_true_eq] at huser
    exact ⟨huser.1.1.1.1, huser.1.1.2⟩
  · rcases List.mem_cons.mp hc with rfl | hc
    · decide
    · exact hhost c (mem_hostPort haddr hdigits hc)

/-- **A segment of a path is read back.** -/
theorem setPath_segment (url : URL) (segment : Bytes) :
    ∃ rawPath, url.setPath (47 :: pathEscape segment) =
      some { url with path := 47 :: segment, rawPath } := by
  have hpath : unescape (47 :: pathEscape segment) .path = some (47 :: segment) := by
    have hback : unescape (pathEscape segment) .path = some segment :=
      unescape_escape (by rfl) (by simp) (by simp) segment
    rw [unescape, Percent.unescape_literal (by decide) (by decide), ← unescape, hback]
    rfl
  rw [URL.setPath, hpath]
  exact ⟨_, rfl⟩

variable {scheme authority p query : Bytes}

/-- A clear query begins at the first question mark, and its URL does not end with one. -/
theorem cut_query {front : Bytes} (hfront : ∀ c ∈ front, isClear c = true)
    (hquery : ∀ c ∈ query, isClear c = true) (hne : query ≠ []) :
    cut (front ++ 63 :: query) 63 = (front, query) ∧ (front ++ 63 :: query).getLast? ≠ some 63 := by
  have hmark : ¬ isClear 63 = true := by decide
  refine ⟨cut_append (fun hmem => hmark (hfront 63 hmem)) _, fun hlast => ?_⟩
  obtain ⟨c, query, rfl⟩ := List.exists_cons_of_ne_nil hne
  rw [List.getLast?_append, List.getLast?_cons_cons, List.getLast?_cons, Option.some_or,
    ← List.getLast?_cons] at hlast
  have hmem : (63 : UInt8) ∈ c :: query := List.mem_of_getLast? hlast
  exact hmark (hquery 63 hmem)

/-- A URL with a scheme, an authority, a path and a query. -/
theorem parseRest_authority {rawURL : Bytes} {user : Option Userinfo} {host : Bytes}
    (hctl : ∀ c ∈ rawURL, ¬ (c < 32 || c = 127) = true) (hne : scheme ≠ [])
    (hscan : getScheme rawURL = some (scheme, 47 :: 47 :: (authority ++ 47 :: p) ++ 63 :: query))
    (hfront : ∀ c ∈ authority ++ p, isClear c = true) (hslash : 47 ∉ authority)
    (hclear : ∀ c ∈ query, isClear c = true) (hquery : query ≠ [])
    (h : parseAuthority authority = some (user, host)) :
    parseRest rawURL =
      URL.setPath ⟨toLower scheme, [], user, host, [], [], false, false, query, []⟩ (47 :: p) := by
  have hany : ¬ (rawURL.any fun c => c < 32 || c = 127) = true := by
    intro hany
    obtain ⟨c, hc, hbad⟩ := List.any_eq_true.mp hany
    exact hctl c hc hbad
  have hstar : rawURL ≠ [42] := by
    rintro rfl
    cases hscan
  have hall : ∀ c ∈ 47 :: 47 :: (authority ++ 47 :: p), isClear c = true := by
    have hsep : isClear 47 = true := by decide
    simpa [or_imp, forall_and, hsep] using hfront
  obtain ⟨hcut, hlast⟩ := cut_query hall hclear hquery
  rw [parseRest, if_neg hany, if_neg hstar, hscan]
  simp only [hcut, hlast, decide_false, Bool.false_and]
  rw [if_neg (by simp), if_pos (by simp [hne]), List.drop_succ_cons, List.drop_succ_cons,
    List.drop_zero, takeWhile_append_sep hslash, dropWhile_append_sep hslash, h]

/-- **A URL with an authority, a path and a query** is taken apart at the first separators. -/
theorem parse_authority {user : Option Userinfo} {host : Bytes}
    (hscheme : scheme.all isLetter = true) (hne : scheme ≠ [])
    (hfront : ∀ c ∈ authority ++ p, isClear c = true) (hslash : 47 ∉ authority)
    (hclear : ∀ c ∈ query, isClear c = true) (hquery : query ≠ [])
    (h : parseAuthority authority = some (user, host)) :
    parse (scheme ++ 58 :: (47 :: 47 :: (authority ++ 47 :: p) ++ 63 :: query)) =
      URL.setPath ⟨toLower scheme, [], user, host, [], [], false, false, query, []⟩ (47 :: p) := by
  have hletter : ∀ c : UInt8, isLetter c = true → ¬ (c < 32 || c = 127) = true ∧ c ≠ 35 :=
    forall_byte (by decide +kernel)
  have hbyte : ∀ c : UInt8, isClear c = true ∨ c = 63 → ¬ (c < 32 || c = 127) = true ∧ c ≠ 35 :=
    forall_byte (by decide +kernel)
  have hall : ∀ c ∈ scheme ++ 58 :: (47 :: 47 :: (authority ++ 47 :: p) ++ 63 :: query),
      ¬ (c < 32 || c = 127) = true ∧ c ≠ 35 := by
    intro c hc
    simp only [List.cons_append, List.append_assoc, List.mem_append, List.mem_cons] at hc hfront
    rcases hc with hc | rfl | rfl | rfl | hc | rfl | hc | rfl | hc
    · exact hletter c (List.all_eq_true.mp hscheme c hc)
    · exact hbyte 58 (.inl (by decide))
    · exact hbyte 47 (.inl (by decide))
    · exact hbyte 47 (.inl (by decide))
    · exact hbyte c (.inl (hfront c (.inl hc)))
    · exact hbyte 47 (.inl (by decide))
    · exact hbyte c (.inl (hfront c (.inr hc)))
    · exact hbyte 63 (.inr rfl)
    · exact hbyte c (.inl (hclear c hc))
  have hrest := parseRest_authority (fun c hc => (hall c hc).1) hne
    (scanScheme_letters hscheme _ _ (by simpa using hne)) hfront hslash hclear hquery h
  rw [parse, cut_of_not_mem (fun hmem => (hall 35 hmem).2 rfl), hrest]
  simp only [if_true]
  split
  · rename_i hnone
    rw [hnone]
  · rename_i hsome
    rw [hsome]

end GuardedIM.NetUrl
