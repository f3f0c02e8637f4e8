import Mathlib.Data.List.Sort
import NanoFabric.Found.Dict
import NanoFabric.Found.Numbered

/-!
# JSON documents

The documents that `json.dumps` writes and those that `json.loads` reads, as lists of characters.

A text inside a document is the list of its code points, and not of characters: an escape may name
half of a surrogate pair. A number with a fraction or an exponent is kept as it is written, and what a
float is written as is a parameter. The limits on the depth of a document and on the digits of a
number are left out.

`scanValue` has a fuel; `Json.loads` gives it more than a document can use
(`scanValue_of_scanValue` in `NanoFabric.Found.JsonRoundTrip`).
-/

namespace NanoFabric.Found

/-- A value. The members of an object are in their order, and no key of a dictionary occurs twice. -/
inductive Json
  | null
  | bool (b : Bool)
  | int (i : ℤ)
  | float (lexeme : List Char)
  | str (s : List ℕ)
  | arr (items : List Json)
  | obj (members : List (List ℕ × Json))

namespace Json

/-- The code points of a text. -/
def codes (s : String) : List ℕ := s.toList.map Char.toNat

/-- The text of characters. -/
def ofString (s : String) : Json := .str (codes s)

/-! ## Writing -/

/-- The four hexadecimal digits of `\uXXXX`. -/
def hex4 (n : ℕ) : List Char :=
  [Nat.digitChar (n / 4096 % 16), Nat.digitChar (n / 256 % 16), Nat.digitChar (n / 16 % 16),
    Nat.digitChar (n % 16)]

/-- `\uXXXX`. -/
def unicodeEscape (n : ℕ) : List Char := '\\' :: 'u' :: hex4 n

/-- One code point inside quotes, with nothing outside of ASCII. -/
def escaped (c : ℕ) : List Char :=
  if c = 34 then ['\\', '"']
  else if c = 92 then ['\\', '\\']
  else if c = 8 then ['\\', 'b']
  else if c = 9 then ['\\', 't']
  else if c = 10 then ['\\', 'n']
  else if c = 12 then ['\\', 'f']
  else if c = 13 then ['\\', 'r']
  else if 32 ≤ c ∧ c ≤ 126 then [Char.ofNat c]
  else if c < 0x10000 then unicodeEscape c
  else
    unicodeEscape (0xd800 + (c - 0x10000) / 1024 % 1024) ++
      unicodeEscape (0xdc00 + (c - 0x10000) % 1024)

/-- A text with its quotes. -/
def quoted (s : List ℕ) : List Char := '"' :: (s.flatMap escaped ++ ['"'])

/-- `json.dumps(v, separators=(",", ":"))`, where `floatRepr` is what a float is written as. -/
def dumps (floatRepr : List Char → List Char) : Json → List Char
  | .null => ['n', 'u', 'l', 'l']
  | .bool true => ['t', 'r', 'u', 'e']
  | .bool false => ['f', 'a', 'l', 's', 'e']
  | .int i => (Int.repr i).toList
  | .float lexeme => floatRepr lexeme
  | .str s => quoted s
  | .arr items => '[' :: (dumpsItems items ++ [']'])
  | .obj members => '{' :: (dumpsMembers members ++ ['}'])
where
  /-- The items of an array, with their commas. -/
  dumpsItems : List Json → List Char
    | [] => []
    | [v] => dumps floatRepr v
    | v :: w :: items => dumps floatRepr v ++ ',' :: dumpsItems (w :: items)
  /-- The members of an object, with their commas. -/
  dumpsMembers : List (List ℕ × Json) → List Char
    | [] => []
    | [(k, v)] => quoted k ++ ':' :: dumps floatRepr v
    | (k, v) :: m :: members =>
        quoted k ++ ':' :: dumps floatRepr v ++ ',' :: dumpsMembers (m :: members)

/-- The members of every object in the order of their keys. -/
def sortKeys : Json → Json
  | .arr items => .arr (sortItems items)
  | .obj members => .obj ((sortMembers members).mergeSort fun m m' => decide (m.1 ≤ m'.1))
  | v => v
where
  sortItems : List Json → List Json
    | [] => []
    | v :: items => sortKeys v :: sortItems items
  sortMembers : List (List ℕ × Json) → List (List ℕ × Json)
    | [] => []
    | (k, v) :: members => (k, sortKeys v) :: sortMembers members

/-! ## Reading -/

/-- The white space between tokens. -/
def isWs (c : Char) : Bool := c = ' ' || c = '\t' || c = '\n' || c = '\r'

/-- What follows the white space at the front. -/
def skipWs (t : List Char) : List Char := t.dropWhile isWs

/-- The value of a hexadecimal digit. -/
def hexVal (c : Char) : Option ℕ :=
  if '0' ≤ c ∧ c ≤ '9' then some (c.toNat - 48)
  else if 'a' ≤ c ∧ c ≤ 'f' then some (c.toNat - 87)
  else if 'A' ≤ c ∧ c ≤ 'F' then some (c.toNat - 55)
  else none

/-- The value of four hexadecimal digits. -/
def hexVal4 (a b c d : Char) : Option ℕ := do
  let a ← hexVal a
  let b ← hexVal b
  let c ← hexVal c
  let d ← hexVal d
  return 4096 * a + 256 * b + 16 * c + d

/-- What a character names after a backslash. -/
def unescaped (c : Char) : Option ℕ :=
  if c = '"' then some 34
  else if c = '\\' then some 92
  else if c = '/' then some 47
  else if c = 'b' then some 8
  else if c = 'f' then some 12
  else if c = 'n' then some 10
  else if c = 'r' then some 13
  else if c = 't' then some 9
  else none

/-- The code points up to the closing quote, with both halves of a surrogate pair, and what follows
the quote. A control character is refused. -/
def scanUnits : List Char → Option (List ℕ × List Char)
  | '"' :: t => some ([], t)
  | '\\' :: 'u' :: a :: b :: c :: d :: t => do
      let n ← hexVal4 a b c d
      let (s, t) ← scanUnits t
      return (n :: s, t)
  | '\\' :: c :: t => do
      let n ← unescaped c
      let (s, t) ← scanUnits t
      return (n :: s, t)
  | c :: t =>
      if c.toNat < 32 ∨ c = '\\' then none
      else do
        let (s, t) ← scanUnits t
        return (c.toNat :: s, t)
  | [] => none

def isHighSurrogate (n : ℕ) : Bool := 0xd800 ≤ n && n ≤ 0xdbff

def isLowSurrogate (n : ℕ) : Bool := 0xdc00 ≤ n && n ≤ 0xdfff

/-- A high half with a low half after it is one code point. -/
def joinSurrogates : List ℕ → List ℕ
  | h :: l :: s =>
      if isHighSurrogate h && isLowSurrogate l then
        (0x10000 + (h - 0xd800) * 1024 + (l - 0xdc00)) :: joinSurrogates s
      else h :: joinSurrogates (l :: s)
  | s => s

/-- The text up to the closing quote, and what follows the quote. -/
def scanString (t : List Char) : Option (List ℕ × List Char) :=
  (scanUnits t).map fun (s, t) => (joinSurrogates s, t)

/-- `0|[1-9][0-9]*`, and what follows. -/
def scanWhole : List Char → Option (List Char × List Char)
  | '0' :: t => some (['0'], t)
  | t =>
      if t.takeWhile Char.isDigit = [] then none
      else some (t.takeWhile Char.isDigit, t.dropWhile Char.isDigit)

/-- `(\.[0-9]+)?`, and what follows. -/
def scanFraction : List Char → List Char × List Char
  | '.' :: t =>
      if t.takeWhile Char.isDigit = [] then ([], '.' :: t)
      else ('.' :: t.takeWhile Char.isDigit, t.dropWhile Char.isDigit)
  | t => ([], t)

/-- `[-+]?`, and what follows. -/
def scanSign : List Char → List Char × List Char
  | '-' :: t => (['-'], t)
  | '+' :: t => (['+'], t)
  | t => ([], t)

/-- `([eE][-+]?[0-9]+)?`, and what follows. -/
def scanExponent : List Char → List Char × List Char
  | e :: t =>
      if (e = 'e' ∨ e = 'E') ∧ (scanSign t).2.takeWhile Char.isDigit ≠ [] then
        (e :: (scanSign t).1 ++ (scanSign t).2.takeWhile Char.isDigit,
          (scanSign t).2.dropWhile Char.isDigit)
      else ([], e :: t)
  | [] => ([], [])

/-- A number without its sign, and what follows. -/
def scanUnsigned (sign : List Char) (t : List Char) : Option (Json × List Char) := do
  let (whole, t) ← scanWhole t
  let (fraction, t) := scanFraction t
  let (exponent, t) := scanExponent t
  if fraction = [] ∧ exponent = [] then
    let n : ℤ := Nat.ofDigitChars 10 whole 0
    return (.int (if sign = [] then n else -n), t)
  else return (.float (sign ++ whole ++ fraction ++ exponent), t)

/-- A number, and what follows. -/
def scanNumber : List Char → Option (Json × List Char)
  | '-' :: t => scanUnsigned ['-'] t
  | t => scanUnsigned [] t

/-- The words that are values. -/
def literals : List (List Char × Json) :=
  [(['n', 'u', 'l', 'l'], .null), (['t', 'r', 'u', 'e'], .bool true),
    (['f', 'a', 'l', 's', 'e'], .bool false), (['N', 'a', 'N'], .float ['N', 'a', 'N']),
    (['I', 'n', 'f', 'i', 'n', 'i', 't', 'y'], .float ['I', 'n', 'f', 'i', 'n', 'i', 't', 'y']),
    (['-', 'I', 'n', 'f', 'i', 'n', 'i', 't', 'y'],
      .float ['-', 'I', 'n', 'f', 'i', 'n', 'i', 't', 'y'])]

/-- A word that is a value, and what follows. -/
def scanLiteral (t : List Char) : Option (Json × List Char) :=
  literals.findSome? fun (word, v) =>
    if word <+: t then some (v, t.drop word.length) else none

/-- The items of an array from its first one on, and what follows its bracket. -/
def scanItems (value : List Char → Option (Json × List Char)) :
    ℕ → List Char → Option (List Json × List Char)
  | 0, _ => none
  | n + 1, t => do
      let (v, t) ← value t
      match skipWs t with
      | ']' :: t => return ([v], t)
      | ',' :: t =>
          let (vs, t) ← scanItems value n (skipWs t)
          return (v :: vs, t)
      | _ => none

/-- A key with its colon, and what follows the colon. -/
def scanKey : List Char → Option (List ℕ × List Char)
  | '"' :: t => do
      let (k, t) ← scanString t
      match skipWs t with
      | ':' :: t => return (k, t)
      | _ => none
  | _ => none

/-- The members of an object from its first one on, and what follows its brace. -/
def scanMembers (value : List Char → Option (Json × List Char)) :
    ℕ → List Char → Option (List (List ℕ × Json) × List Char)
  | 0, _ => none
  | n + 1, t => do
      let (k, t) ← scanKey t
      let (v, t) ← value (skipWs t)
      match skipWs t with
      | '}' :: t => return ([(k, v)], t)
      | ',' :: t =>
          let (ms, t) ← scanMembers value n (skipWs t)
          return ((k, v) :: ms, t)
      | _ => none

/-- The dictionary of the pairs: a key that comes again keeps its place and takes the last value. -/
def dictOf (pairs : List (List ℕ × Json)) : List (List ℕ × Json) :=
  pairs.foldl (fun d kv => Dict.setEntries kv.1 kv.2 d) []

/-- A value, and what follows. -/
def scanValue : ℕ → List Char → Option (Json × List Char)
  | 0, _ => none
  | n + 1, t =>
      match t with
      | '"' :: t => (scanString t).map fun (s, t) => (.str s, t)
      | '{' :: t =>
          match skipWs t with
          | '}' :: t => some (.obj [], t)
          | t => (scanMembers (scanValue n) n t).map fun (ms, t) => (.obj (dictOf ms), t)
      | '[' :: t =>
          match skipWs t with
          | ']' :: t => some (.arr [], t)
          | t => (scanItems (scanValue n) n t).map fun (vs, t) => (.arr vs, t)
      | t => (scanLiteral t).or (scanNumber t)

/-- `json.loads(t)`, or none where it raises `JSONDecodeError`. -/
def loads (t : List Char) : Option Json := do
  let (v, rest) ← scanValue (t.length + 1) (skipWs t)
  if skipWs rest = [] then return v else none

/-- The value of a key of an object. -/
def get? (members : List (List ℕ × Json)) (k : String) : Option Json := members.lookup (codes k)

end Json

end NanoFabric.Found
