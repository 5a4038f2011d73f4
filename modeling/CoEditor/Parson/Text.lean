-- SUMMARY: JSON as text: json_serialize_to_string and json_parse_string.
import CoEditor.Lib.Decimal
import CoEditor.Lib.Floating
import CoEditor.Parson.Value
import Mathlib.Algebra.Group.Nat.Defs

/-!
# JSON text

The printer and the parser of `parson.c`. A C string is the list of its bytes
before the `NUL`, so where the parser looks for `'\0'` the list is at its end.
The parser counts down `fuel`, which the length of the text is enough for.
-/

namespace CoEditor

open Decimal

/-- `MAX_NESTING` -/
abbrev maxNesting : Nat := 2048

/-! ## Printing -/

def hexDigit (n : Nat) : UInt8 := if n < 10 then UInt8.ofNat (48 + n) else UInt8.ofNat (87 + n)

/-- What `json_serialize_string` prints for one byte. -/
def escapeByte (c : UInt8) : Bytes :=
  if c = ch '"' then bytes "\\\""
  else if c = ch '\\' then bytes "\\\\"
  else if c = ch '/' then bytes "\\/"
  else if c = 8 then bytes "\\b"
  else if c = 12 then bytes "\\f"
  else if c = 10 then bytes "\\n"
  else if c = 13 then bytes "\\r"
  else if c = 9 then bytes "\\t"
  else if c < 32 then bytes "\\u00" ++ [hexDigit (c.toNat / 16), hexDigit (c.toNat % 16)]
  else [c]

def jsonSerializeString (s : Bytes) : Bytes := ch '"' :: (s.flatMap escapeByte ++ [ch '"'])

mutual

/-- `json_serialize_to_buffer_r`; an `int` is printed as its decimal numeral. -/
def jsonSerialize : Json → Bytes
  | .null => bytes "null"
  | .bool b => if b then bytes "true" else bytes "false"
  | .num n => digits n
  | .str s => jsonSerializeString s
  | .arr vs => ch '[' :: serializeItems vs
  | .obj ms => ch '{' :: serializeMembers ms

def serializeItems : List Json → Bytes
  | [] => [ch ']']
  | [v] => jsonSerialize v ++ [ch ']']
  | v :: w :: vs => jsonSerialize v ++ ch ',' :: serializeItems (w :: vs)

def serializeMembers : List (Bytes × Json) → Bytes
  | [] => [ch '}']
  | [(k, v)] => jsonSerializeString k ++ ch ':' :: (jsonSerialize v ++ [ch '}'])
  | (k, v) :: m :: ms => jsonSerializeString k ++ ch ':' :: (jsonSerialize v ++ ch ',' :: serializeMembers (m :: ms))

end

/-! ## Strings -/

/-- `isspace` -/
def isSpace (c : UInt8) : Bool := c = ch ' ' || (9 ≤ c && c ≤ 13)

def skipWhitespaces (s : Bytes) : Bytes := s.dropWhile isSpace

/-- What is between the opening quote, which is already skipped, and the closing one, and what is
    after that. -/
def skipQuotes : Bytes → Option (Bytes × Bytes)
  | [] => none
  | [c] => if c = ch '"' then some ([], []) else none
  | c :: d :: s =>
      if c = ch '"' then some ([], d :: s)
      else if c = ch '\\' then (skipQuotes s).map fun r => (c :: d :: r.1, r.2)
      else (skipQuotes (d :: s)).map fun r => (c :: r.1, r.2)

def hexCharToInt (c : UInt8) : Option Nat :=
  if ch '0' ≤ c ∧ c ≤ ch '9' then some (c.toNat - 48)
  else if ch 'a' ≤ c ∧ c ≤ ch 'f' then some (c.toNat - 87)
  else if ch 'A' ≤ c ∧ c ≤ ch 'F' then some (c.toNat - 55)
  else none

/-- Four hexadecimal digits and what is after them. -/
def parseUtf16Hex : Bytes → Option (Nat × Bytes)
  | a :: b :: c :: d :: s => do
      let a ← hexCharToInt a
      let b ← hexCharToInt b
      let c ← hexCharToInt c
      let d ← hexCharToInt d
      some (a * 4096 + b * 256 + c * 16 + d, s)
  | _ => none

/-- The UTF-8 bytes of the code point after `\u`, which may be given by two surrogates. -/
def parseUtf16 (s : Bytes) : Option (Bytes × Bytes) := do
  let (cp, s) ← parseUtf16Hex s
  if cp < 0xD800 ∨ 0xDFFF < cp then some (String.utf8EncodeChar (Char.ofNat cp), s)
  else if cp ≤ 0xDBFF then
    match s with
    | c :: d :: s =>
        if c = ch '\\' ∧ d = ch 'u' then do
          let (trail, s) ← parseUtf16Hex s
          if 0xDC00 ≤ trail ∧ trail ≤ 0xDFFF then
            some (String.utf8EncodeChar (Char.ofNat ((cp - 0xD800) * 1024 + (trail - 0xDC00) + 0x10000)), s)
          else none
        else none
    | _ => none
  else none

/-- The byte an escape of two characters stands for. -/
def unescape (c : UInt8) : Option UInt8 :=
  if c = ch '"' ∨ c = ch '\\' ∨ c = ch '/' then some c
  else if c = ch 'b' then some 8
  else if c = ch 'f' then some 12
  else if c = ch 'n' then some 10
  else if c = ch 'r' then some 13
  else if c = ch 't' then some 9
  else none

/-- The loop of `process_string`; every round reads at least one byte. -/
def processBytes : Nat → Bytes → Option Bytes
  | _, [] => some []
  | 0, _ :: _ => none
  | n + 1, c :: s =>
      if c = ch '\\' then
        match s with
        | [] => none
        | d :: s =>
            if d = ch 'u' then do
              let (cs, s) ← parseUtf16 s
              (processBytes n s).map (cs ++ ·)
            else do
              let e ← unescape d
              (processBytes n s).map (e :: ·)
      else if c < 32 then none
      else (processBytes n s).map (c :: ·)

/-- The string with its escapes replaced; an escaped `NUL` ends it. -/
def processString (s : Bytes) : Option Bytes := (processBytes s.length s).map (·.takeWhile (· ≠ 0))

/-- A quoted string and what is after it. -/
def getQuotedString : Bytes → Option (Bytes × Bytes)
  | [] => none
  | c :: s => if c = ch '"' then do
      let (raw, s) ← skipQuotes s
      let str ← processString raw
      some (str, s)
    else none

/-! ## Numbers -/

/-- The sign, if there is one. -/
def splitSign (s : Bytes) : Bool × Bytes :=
  match s with
  | [] => (false, [])
  | c :: t => if c = ch '-' then (true, t) else if c = ch '+' then (false, t) else (false, s)

/-- The exponent of a numeral, if there is one. -/
def splitExponent (s : Bytes) : Int × Bytes :=
  match s with
  | [] => (0, [])
  | c :: t =>
      if c = ch 'e' ∨ c = ch 'E' then
        let (neg, t) := splitSign t
        let (ds, t) := t.span isDigit
        if ds = [] then (0, s) else (if neg then -ofDigits ds else ofDigits ds, t)
      else (0, s)

/-- The fraction of a numeral with integer part `ip`, if there is one. -/
def splitFraction (ip s : Bytes) : Bytes × Bytes :=
  match s with
  | [] => ([], [])
  | c :: t =>
      if c = ch '.' then
        let (fp, t) := t.span isDigit
        if ip = [] ∧ fp = [] then ([], s) else (fp, t)
      else ([], s)

/-- The number with the digits `m` scaled by a power of ten, cut to an `int`. `ERANGE` gives `none`; only a number
    without a scale is not rounded to a double, see `Json.asDoubles`. -/
def scaled (m : Nat) (scale : Int) : Option Nat :=
  if scale = 0 then some m else Format.double.floor (m * 10 ^ scale.toNat) (10 ^ (-scale).toNat)

/-- `strtod`: the number at the head of a string, `none` if it is out of range, and what is after it. -/
def strtod (s : Bytes) : Option Int × Bytes :=
  let (neg, t) := splitSign s
  let (ip, t) := t.span isDigit
  let (fp, t) := splitFraction ip t
  if ip = [] ∧ fp = [] then (some 0, s) else
    let (e, t) := splitExponent t
    ((scaled (ofDigits (ip ++ fp)) (e - fp.length)).map fun n : Nat => (if neg then -n else n : Int), t)

def lowerCase (c : UInt8) : UInt8 := if ch 'A' ≤ c ∧ c ≤ ch 'Z' then c + 32 else c

/-- Does `strtod` read an infinity, no number, or a hexadecimal numeral here? -/
def isSpecial (s : Bytes) : Bool :=
  match (splitSign s).2 with
  | a :: b :: c :: t =>
      [a, b, c].map lowerCase = bytes "inf" || [a, b, c].map lowerCase = bytes "nan" ||
        (a = ch '0' && lowerCase b = ch 'x' &&
          ((hexCharToInt c).isSome || (c = ch '.' && (t.head?.bind hexCharToInt).isSome)))
  | _ => false

/-- No leading zero. A hexadecimal numeral is no text of this kind. -/
def isDecimal : Bytes → Bool
  | a :: b :: s =>
      !(a = ch '0' && b ≠ ch '.') && !(a = ch '-' && b = ch '0' && s.head?.any (· ≠ ch '.'))
  | _ => true

def parseNumberValue (s : Bytes) : Option (Json × Bytes) :=
  if isSpecial s then none else
    let (n, t) := strtod s
    if isDecimal (s.take (s.length - t.length)) then n.map fun n => (.num n, t) else none

/-! ## Values -/

/-- Read a given word. -/
def parseWord (w : Bytes) (v : Json) (s : Bytes) : Option (Json × Bytes) :=
  if w.isPrefixOf s then some (v, s.drop w.length) else none

mutual

def parseValue : Nat → Nat → Bytes → Option (Json × Bytes)
  | 0, _, _ => none
  | fuel + 1, nesting, s =>
      if maxNesting < nesting then none else
        match skipWhitespaces s with
        | [] => none
        | c :: t =>
            if c = ch '{' then
              match skipWhitespaces t with
              | [] => none
              | d :: u => if d = ch '}' then some (.obj [], u) else parseMembers fuel (nesting + 1) (d :: u) []
            else if c = ch '[' then
              match skipWhitespaces t with
              | [] => none
              | d :: u => if d = ch ']' then some (.arr [], u) else parseItems fuel (nesting + 1) (d :: u) []
            else if c = ch '"' then (getQuotedString (c :: t)).map fun r => (.str r.1, r.2)
            else if c = ch 'f' then parseWord (bytes "false") (.bool false) (c :: t)
            else if c = ch 't' then parseWord (bytes "true") (.bool true) (c :: t)
            else if c = ch '-' ∨ isDigit c then parseNumberValue (c :: t)
            else if c = ch 'n' then parseWord (bytes "null") .null (c :: t)
            else none

/-- The loop of `parse_object_value`, with the members read so far. -/
def parseMembers : Nat → Nat → Bytes → List (Bytes × Json) → Option (Json × Bytes)
  | 0, _, _, _ => none
  | fuel + 1, nesting, s, ms => do
      let (key, s) ← getQuotedString s
      match skipWhitespaces s with
      | [] => none
      | c :: s =>
          if c = ch ':' then do
            let (v, s) ← parseValue fuel nesting s
            if (jsonObjectGetValue ms key).isSome then none else
              match skipWhitespaces s with
              | [] => none
              | d :: s =>
                  if d = ch ',' then parseMembers fuel nesting (skipWhitespaces s) (ms ++ [(key, v)])
                  else if d = ch '}' then some (.obj (ms ++ [(key, v)]), s)
                  else none
          else none

/-- The loop of `parse_array_value`, with the items read so far. -/
def parseItems : Nat → Nat → Bytes → List Json → Option (Json × Bytes)
  | 0, _, _, _ => none
  | fuel + 1, nesting, s, vs => do
      let (v, s) ← parseValue fuel nesting s
      match skipWhitespaces s with
      | [] => none
      | d :: s =>
          if d = ch ',' then parseItems fuel nesting (skipWhitespaces s) (vs ++ [v])
          else if d = ch ']' then some (.arr (vs ++ [v]), s)
          else none

end

/-- The value at the head of a string, after a byte order mark if there is one; what comes after the
    value is not looked at. Numbers without a fraction and an exponent are kept as they are, which
    is what a double does to those that the program prints. -/
def jsonParseString (s : Bytes) : Option Json :=
  let s := if [0xEF, 0xBB, 0xBF].isPrefixOf s then s.drop 3 else s
  (parseValue (s.length + 1) 0 s).map Prod.fst

/-! ## Doubles -/

mutual

/-- The value with every number rounded to a double, and cut to an `int` again; `none` if one of them is too large. -/
def Json.asDoubles : Json → Option Json
  | .num n => (Format.double.floor n.natAbs 1).map fun m : Nat => .num (if n < 0 then -m else m)
  | .arr vs => (itemsAsDoubles vs).map .arr
  | .obj ms => (membersAsDoubles ms).map .obj
  | v => some v

def itemsAsDoubles : List Json → Option (List Json)
  | [] => some []
  | v :: vs => do
      let w ← v.asDoubles
      let ws ← itemsAsDoubles vs
      some (w :: ws)

def membersAsDoubles : List (Bytes × Json) → Option (List (Bytes × Json))
  | [] => some []
  | (k, v) :: ms => do
      let w ← v.asDoubles
      let ns ← membersAsDoubles ms
      some ((k, w) :: ns)

end

/-- `json_parse_string` on any text, large numbers included: one that `strtod` reports as out of range makes the parser
    refuse the text. -/
def jsonParseDoubles (s : Bytes) : Option Json := (jsonParseString s).bind Json.asDoubles

end CoEditor
