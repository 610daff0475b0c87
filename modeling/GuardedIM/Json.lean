import GuardedIM.Dict
import GuardedIM.Text

/-!
# JSON values as the Python programs see them

`json.loads` gives `None`, booleans, integers, floats, strings, lists and
dictionaries. A float is kept by its `repr`, which determines it.

* `truthy` is `bool(v)`, `toStr` is `str(v)`, `dumps` is `json.dumps(v)` with its
  defaults (ASCII output, separators `", "` and `": "`).
* `repr` of a string needs to know which non-ASCII characters are printable. The
  Unicode tables are not part of the program, so `printable` is a parameter.
* `Exc` is what the validators can raise on a value of an unexpected type. The chat
  server catches every exception of a request in one place and only prints it, so the
  exception's text is not kept.
-/

namespace GuardedIM

/-- A decoded JSON value. -/
inductive Json where
  /-- `None` -/
  | null
  /-- `True` or `False` -/
  | bool (b : Bool)
  /-- an integer -/
  | int (n : ℤ)
  /-- a float, given by its `repr` -/
  | float (r : Str)
  /-- a string -/
  | str (s : Str)
  /-- a list -/
  | arr (l : List Json)
  /-- a dictionary, in insertion order -/
  | obj (d : List (Str × Json))

/-- A JSON object: a Python `dict` with string keys. -/
abbrev Payload := Dict Str Json

/-- An exception raised on the way. -/
inductive Exc where
  /-- `TypeError` -/
  | typeError
  /-- `ValueError`, and `UnicodeError` below it -/
  | valueError
  deriving DecidableEq

namespace Payload

/-- `payload.get(k)`: `None` when the key is missing. -/
def find (d : Payload) (k : Str) : Json := (Dict.get d k).getD .null

end Payload

namespace Json

/-- `bool(v)` -/
def truthy : Json → Bool
  | .null => false
  | .bool b => b
  | .int n => n ≠ 0
  | .float r => r ≠ GuardedIM.str "0.0" && r ≠ GuardedIM.str "-0.0"
  | .str s => s ≠ []
  | .arr l => !l.isEmpty
  | .obj d => !d.isEmpty

/-- `v == s` for a string literal `s`. -/
def isStr : Json → Str → Bool
  | .str t, s => t = s
  | _, _ => false

@[simp] theorem isStr_str (t s : Str) : isStr (.str t) s = decide (t = s) := rfl

/-- The test is for one string. -/
theorem isStr_iff {v : Json} {s : Str} : v.isStr s = true ↔ v = .str s := by
  cases v <;> simp [isStr]

/-! ## `str` and `repr` -/

/-- Decimal digits of an integer. -/
def decimal (n : ℤ) : Str :=
  let digits := (Nat.toDigits 10 n.natAbs).map cp
  if n < 0 then cp '-' :: digits else digits

/-- The last `k` hexadecimal digits of a number. -/
def hex (k n : ℕ) : Str :=
  (List.range k).reverse.map fun i => cp (Nat.digitChar (n / 16 ^ i % 16))

/-- One character of a `repr`, quoted by `q`. -/
def reprChar (printable : CodePoint → Bool) (q c : CodePoint) : Str :=
  if c = q ∨ c = cp '\\' then [cp '\\', c]
  else if c = cp '\t' then GuardedIM.str "\\t"
  else if c = cp '\n' then GuardedIM.str "\\n"
  else if c = cp '\r' then GuardedIM.str "\\r"
  else if c.val < 0x20 ∨ c.val = 0x7F then GuardedIM.str "\\x" ++ hex 2 c.val
  else if c.val < 0x7F ∨ printable c = true then [c]
  else if c.val < 0x100 then GuardedIM.str "\\x" ++ hex 2 c.val
  else if c.val < 0x10000 then GuardedIM.str "\\u" ++ hex 4 c.val
  else GuardedIM.str "\\U" ++ hex 8 c.val

/-- `repr` of a string: single quotes unless the text has only those. -/
def reprStr (printable : CodePoint → Bool) (s : Str) : Str :=
  let q := if cp '\'' ∈ s ∧ cp '"' ∉ s then cp '"' else cp '\''
  q :: s.flatMap (reprChar printable q) ++ [q]

mutual

/-- `repr(v)` -/
def repr (printable : CodePoint → Bool) : Json → Str
  | .null => GuardedIM.str "None"
  | .bool true => GuardedIM.str "True"
  | .bool false => GuardedIM.str "False"
  | .int n => decimal n
  | .float r => r
  | .str s => reprStr printable s
  | .arr l => cp '[' :: reprItems printable l ++ [cp ']']
  | .obj d => cp '\x7b' :: reprEntries printable d ++ [cp '\x7d']

/-- The elements of a list, separated by `", "`. -/
def reprItems (printable : CodePoint → Bool) : List Json → Str
  | [] => []
  | [v] => repr printable v
  | v :: w :: l => repr printable v ++ GuardedIM.str ", " ++ reprItems printable (w :: l)

/-- The entries of a dictionary. -/
def reprEntries (printable : CodePoint → Bool) : List (Str × Json) → Str
  | [] => []
  | [(k, v)] => reprStr printable k ++ GuardedIM.str ": " ++ repr printable v
  | (k, v) :: e :: d =>
    reprStr printable k ++ GuardedIM.str ": " ++ repr printable v ++ GuardedIM.str ", " ++
      reprEntries printable (e :: d)

end

/-- `str(v)`: a string is itself, anything else its `repr`. -/
def toStr (printable : CodePoint → Bool) : Json → Str
  | .str s => s
  | v => repr printable v

@[simp] theorem toStr_str (printable : CodePoint → Bool) (s : Str) :
    toStr printable (.str s) = s := rfl

/-- `str(v or "")` -/
def orEmpty (printable : CodePoint → Bool) (v : Json) : Str :=
  if v.truthy then v.toStr printable else []

@[simp] theorem orEmpty_str (printable : CodePoint → Bool) (s : Str) :
    orEmpty printable (.str s) = s := by
  cases s <;> simp [orEmpty, truthy]

/-! ## `json.dumps` -/

/-- One character of an ASCII JSON string. -/
def dumpChar (c : CodePoint) : Str :=
  if c = cp '"' then GuardedIM.str "\\\""
  else if c = cp '\\' then GuardedIM.str "\\\\"
  else if c = cp '\n' then GuardedIM.str "\\n"
  else if c = cp '\r' then GuardedIM.str "\\r"
  else if c = cp '\t' then GuardedIM.str "\\t"
  else if c.val = 0xC then GuardedIM.str "\\f"
  else if c.val = 0x8 then GuardedIM.str "\\b"
  else if 0x20 ≤ c.val ∧ c.val ≤ 0x7E then [c]
  else if c.val < 0x10000 then GuardedIM.str "\\u" ++ hex 4 c.val
  else
    -- a surrogate pair
    GuardedIM.str "\\u" ++ hex 4 (0xD800 + (c.val - 0x10000) / 0x400) ++
      (GuardedIM.str "\\u" ++ hex 4 (0xDC00 + (c.val - 0x10000) % 0x400))

/-- A JSON string literal. -/
def dumpStr (s : Str) : Str := cp '"' :: s.flatMap dumpChar ++ [cp '"']

mutual

/-- `json.dumps(v)` -/
def dumps : Json → Str
  | .null => GuardedIM.str "null"
  | .bool true => GuardedIM.str "true"
  | .bool false => GuardedIM.str "false"
  | .int n => decimal n
  | .float r =>
    if r = GuardedIM.str "nan" then GuardedIM.str "NaN"
    else if r = GuardedIM.str "inf" then GuardedIM.str "Infinity"
    else if r = GuardedIM.str "-inf" then GuardedIM.str "-Infinity"
    else r
  | .str s => dumpStr s
  | .arr l => cp '[' :: dumpItems l ++ [cp ']']
  | .obj d => cp '\x7b' :: dumpEntries d ++ [cp '\x7d']

/-- The elements of an array. -/
def dumpItems : List Json → Str
  | [] => []
  | [v] => dumps v
  | v :: w :: l => dumps v ++ GuardedIM.str ", " ++ dumpItems (w :: l)

/-- The members of an object. -/
def dumpEntries : List (Str × Json) → Str
  | [] => []
  | [(k, v)] => dumpStr k ++ GuardedIM.str ": " ++ dumps v
  | (k, v) :: e :: d =>
    dumpStr k ++ GuardedIM.str ": " ++ dumps v ++ GuardedIM.str ", " ++ dumpEntries (e :: d)

end

end Json

end GuardedIM
