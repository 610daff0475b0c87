import GuardedIM.Address
import GuardedIM.NetUrl

/-!
# The URL of the database

`CraftDBAccessURL` writes five values into one URL: the username, the name of the database and the
paths of the certificates each in the escaping of its part, the port as a number and the address as
it is. The reader is `net/url`, which finds the parts by their separators.

* `values_encode`: the query has the four parameters, whatever their values are made of.
* `hostBytes_of_isHost`: an address has no separator but the colons before the last one.
* `craftDBAccessURL_parses`: each value is read back from its own part.
-/

namespace GuardedIM

open NetUrl

/-! ## `path/filepath` -/

/-- One element of a path in the loop of `Clean`; `parts` is what is kept of those before it. -/
def Filepath.cleanPart (rooted : Bool) (parts : List Bytes) (part : Bytes) : List Bytes :=
  if part = [] ∨ part = ascii "." then parts
  else if part = ascii ".." then
    if parts ≠ [] ∧ parts.getLast? ≠ some (ascii "..") then parts.dropLast
    else if rooted then parts
    else parts ++ [part]
  else parts ++ [part]

/-- `filepath.Clean(path)` -/
def Filepath.clean (path : Bytes) : Bytes :=
  let rooted : Bool := path.head? = some 47
  let parts := (path.splitOn 47).foldl (Filepath.cleanPart rooted) []
  if rooted then 47 :: [47].intercalate parts
  else if parts = [] then ascii "."
  else [47].intercalate parts

/-- `filepath.Join(elem...)` -/
def Filepath.join (elem : List Bytes) : Bytes :=
  match elem.dropWhile (· = []) with
  | [] => []
  | e :: rest => Filepath.clean ([47].intercalate (e :: rest))

example : Filepath.join [ascii "/etc//db/./certs", ascii "client.a/../../b.crt"] =
    ascii "/etc/db/b.crt" := by decide

/-! ## The URL -/

/-- The values of the query. -/
def tlsValues (dbUsername certDir : Bytes) : Values :=
  let values : Values := []
  let values := values.put (ascii "sslmode") (ascii "verify-full")
  let values := values.put (ascii "sslrootcert") (Filepath.join [certDir, ascii "ca.crt"])
  let values := values.put (ascii "sslcert")
    (Filepath.join [certDir, ascii "client." ++ dbUsername ++ ascii ".crt"])
  values.put (ascii "sslkey")
    (Filepath.join [certDir, ascii "client." ++ dbUsername ++ ascii ".key"])

/-- `CraftDBAccessURL` -/
def craftDBAccessURL (addr : Bytes) (port : UInt16) (dbUsername dbName certDir : Bytes) : Bytes :=
  let dbName := if dbName = [] then ascii "defaultdb" else dbName
  ascii "postgresql://" ++ (user dbUsername).string ++ ascii "@" ++ addr ++ ascii ":" ++
    decimal port.toNat ++ ascii "/" ++ pathEscape dbName ++ ascii "?" ++
    (tlsValues dbUsername certDir).encode

/-- The parameters of a URL of the database, sorted by their names. -/
def tlsPairs (dbUsername certDir : Bytes) : List (Bytes × Bytes) :=
  [(ascii "sslcert", Filepath.join [certDir, ascii "client." ++ dbUsername ++ ascii ".crt"]),
    (ascii "sslkey", Filepath.join [certDir, ascii "client." ++ dbUsername ++ ascii ".key"]),
    (ascii "sslmode", ascii "verify-full"),
    (ascii "sslrootcert", Filepath.join [certDir, ascii "ca.crt"])]

theorem values_encode (dbUsername certDir : Bytes) :
    (tlsValues dbUsername certDir).encode = encodePairs (tlsPairs dbUsername certDir) := by
  rfl

theorem nodup_tlsKeys :
    [ascii "sslcert", ascii "sslkey", ascii "sslmode", ascii "sslrootcert"].Nodup := by
  decide

/-! ## Addresses -/

/-- A host name of the DNS. No limit on its length or on its labels matters here. -/
def isHostName (addr : Bytes) : Bool := addr.all fun c => isLetter c || isDigit c || c ∈ ascii "-._"

/-- What an address is: a host name, an IPv4 literal or an IPv6 literal. -/
def IsHost (addr : Bytes) : Prop :=
  isHostName addr = true ∨ (parseIPv4 addr).isSome ∨ (parseIPv6 addr).isSome

instance decidableIsHost (addr : Bytes) : Decidable (IsHost addr) :=
  inferInstanceAs (Decidable (_ ∨ _ ∨ _))

/-- **An address has no separator** but colons. -/
theorem hostBytes_of_isHost {addr : Bytes} (h : IsHost addr) :
    ∀ c ∈ addr, isHostByte c = true := by
  have hname : ∀ c : UInt8, (isLetter c || isDigit c || c ∈ ascii "-._") = true →
      isHostByte c = true := forall_byte (by decide +kernel)
  have hliteral : ∀ c : UInt8, isAddressByte c = true → isHostByte c = true :=
    forall_byte (by decide +kernel)
  intro c hc
  rcases h with h | h | h
  · exact hname c (List.all_eq_true.mp h c hc)
  · obtain ⟨ip, hip⟩ := Option.isSome_iff_exists.mp h
    rw [(parseIPv4_eq hip).1] at hc
    exact hliteral c (isAddressByte_dotted hc)
  · obtain ⟨ip, hip⟩ := Option.isSome_iff_exists.mp h
    exact hliteral c (isAddressByte_parseIPv6 hip c hc)

/-- A port is digits. -/
theorem isDigit_decimal (n : ℕ) : (decimal n).all isDigit = true := by
  have hdigit : ∀ c : UInt8, 48 ≤ c.toNat ∧ c.toNat ≤ 57 → isDigit c = true :=
    forall_byte (by decide +kernel)
  exact List.all_eq_true.mpr fun c hc => hdigit c (digit_of_mem_decimal hc)

/-! ## What is read back -/

/-- The separators of the URL. -/
theorem craftDBAccessURL_eq (addr : Bytes) (port : UInt16) (dbUsername dbName certDir : Bytes) :
    craftDBAccessURL addr port dbUsername dbName certDir =
      ascii "postgresql" ++ 58 :: (47 :: 47 ::
        ((user dbUsername).string ++ 64 :: (addr ++ 58 :: decimal port.toNat) ++
          47 :: pathEscape (if dbName = [] then ascii "defaultdb" else dbName)) ++
        63 :: encodePairs (tlsPairs dbUsername certDir)) := by
  have hscheme : ascii "postgresql://" = ascii "postgresql" ++ [58, 47, 47] := by rfl
  have hat : ascii "@" = [64] := by rfl
  have hcolon : ascii ":" = [58] := by rfl
  have hslash : ascii "/" = [47] := by rfl
  have hmark : ascii "?" = [63] := by rfl
  rw [craftDBAccessURL, values_encode, hscheme, hat, hcolon, hslash, hmark]
  simp only [List.append_assoc, List.cons_append, List.nil_append]

/-- **Each value is read back from its own part**, for every username, name, directory and port, and
for every address: no value moves a boundary, and the query has the four parameters and no other. -/
theorem craftDBAccessURL_parses {addr : Bytes} (haddr : IsHost addr) (port : UInt16)
    (dbUsername dbName certDir : Bytes) :
    ∃ url, parse (craftDBAccessURL addr port dbUsername dbName certDir) = some url ∧
      url.scheme = ascii "postgresql" ∧ url.user = some ⟨dbUsername, none⟩ ∧
      url.hostname = addr ∧ url.port = decimal port.toNat ∧
      url.path = 47 :: (if dbName = [] then ascii "defaultdb" else dbName) ∧
      parseQuery url.rawQuery =
        ([(ascii "sslcert",
            [Filepath.join [certDir, ascii "client." ++ dbUsername ++ ascii ".crt"]]),
          (ascii "sslkey",
            [Filepath.join [certDir, ascii "client." ++ dbUsername ++ ascii ".key"]]),
          (ascii "sslmode", [ascii "verify-full"]),
          (ascii "sslrootcert", [Filepath.join [certDir, ascii "ca.crt"]])], true) := by
  have hhost := hostBytes_of_isHost haddr
  have hdigits := isDigit_decimal port.toNat
  have hclear := clear_authority dbUsername hhost hdigits
  have hpairs : tlsPairs dbUsername certDir ≠ [] := List.cons_ne_nil _ _
  have hkeys : ((tlsPairs dbUsername certDir).map Prod.fst).Nodup := nodup_tlsKeys
  have hread := parseQuery_encodePairs hpairs hkeys
  have hquery : encodePairs (tlsPairs dbUsername certDir) ≠ [] := by
    intro hempty
    rw [hempty] at hread
    cases hread
  have hscheme : (ascii "postgresql").all isLetter = true := by decide
  have hsegment : ∀ c ∈ pathEscape (if dbName = [] then ascii "defaultdb" else dbName),
      isClear c = true := escape_segment
  have hparse := parse_authority hscheme (by decide)
    (List.forall_mem_append.mpr ⟨fun c hc => (hclear c hc).1, hsegment⟩)
    (fun hmem => (hclear 47 hmem).2 rfl) (fun c => isClear_encodePairs) hquery
    (parseAuthority_user dbUsername hhost hdigits)
  obtain ⟨rawPath, hpath⟩ := setPath_segment _ (if dbName = [] then ascii "defaultdb" else dbName)
  rw [hpath] at hparse
  have hsplit := splitHostPort_plain hhost hdigits
  have hlower : toLower (ascii "postgresql") = ascii "postgresql" := by decide
  rw [craftDBAccessURL_eq]
  exact ⟨_, hparse, hlower, rfl, congrArg Prod.fst hsplit, congrArg Prod.snd hsplit, rfl, hread⟩

/-- A username and a name full of separators, at an IPv6 address. -/
theorem craftDBAccessURL_parses_loopback :
    IsHost (ascii "::1") ∧
      ∃ url, parse (craftDBAccessURL (ascii "::1") 26257 (ascii "u:p@h") (ascii "a/b?c#d")
          (ascii "x&sslmode=disable")) = some url ∧
        url.scheme = ascii "postgresql" ∧ url.user = some ⟨ascii "u:p@h", none⟩ ∧
        url.hostname = ascii "::1" ∧ url.port = ascii "26257" ∧ url.path = ascii "/a/b?c#d" ∧
        parseQuery url.rawQuery =
          ([(ascii "sslcert", [ascii "x&sslmode=disable/client.u:p@h.crt"]),
            (ascii "sslkey", [ascii "x&sslmode=disable/client.u:p@h.key"]),
            (ascii "sslmode", [ascii "verify-full"]),
            (ascii "sslrootcert", [ascii "x&sslmode=disable/ca.crt"])], true) := by
  have haddr : IsHost (ascii "::1") := by decide
  exact ⟨haddr, craftDBAccessURL_parses haddr 26257 (ascii "u:p@h") (ascii "a/b?c#d")
    (ascii "x&sslmode=disable")⟩

end GuardedIM
