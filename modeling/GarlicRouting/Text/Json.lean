import GarlicRouting.Octets

/-! JSON texts, without a bound on depth. Numbers and strings are kept as they are written. -/
namespace GarlicRouting

inductive JsonToken where
  | openArray | closeArray | openObject | closeObject | comma | colon
  | literal (word : Bytes)
  | number (digits : Bytes)
  | string (raw : Bytes)
deriving DecidableEq

inductive JsonValue where
  | literal (word : Bytes)
  | number (digits : Bytes)
  /-- The octets between the quotes. -/
  | string (raw : Bytes)
  | array (values : List JsonValue)
  /-- Members in order, with repeated names. -/
  | object (members : List (Bytes × JsonValue))

namespace JsonToken

def isDigit (b : UInt8) : Bool := 48 ≤ b && b ≤ 57

def isHexDigit (b : UInt8) : Bool :=
  isDigit b || (65 ≤ b && b ≤ 70) || (97 ≤ b && b ≤ 102)

/-- An optional exponent: `e` or `E`, a sign, digits. -/
def isExponent : Bytes → Bool
  | [] => true
  | e :: rest =>
    let digits := match rest with
      | 43 :: rest | 45 :: rest => rest
      | rest => rest
    (e = 101 || e = 69) && !digits.isEmpty && digits.all isDigit

/-- An optional fraction, and an exponent. -/
def isFraction : Bytes → Bool
  | 46 :: rest => !(rest.takeWhile isDigit).isEmpty && isExponent (rest.dropWhile isDigit)
  | rest => isExponent rest

/-- A number without sign has no leading zeros. -/
def isUnsigned : Bytes → Bool
  | 48 :: rest => isFraction rest
  | bs => !(bs.takeWhile isDigit).isEmpty && isFraction (bs.dropWhile isDigit)

def isNumber : Bytes → Bool
  | 45 :: rest => isUnsigned rest
  | bs => isUnsigned bs

def words : List Bytes := ["null", "true", "false"].map fun w => w.toUTF8.toList

/-- Where a scan stands; what was read of a token is in reverse. -/
inductive Mode where
  | between
  | word (acc : Bytes)
  | number (acc : Bytes)
  | string (acc : Bytes)
  | escape (acc : Bytes)
  /-- After `\u`, with the number of digits that are still to come. -/
  | unicode (acc : Bytes) (left : Nat)

/-- A scan under way: the tokens so far, in reverse. -/
structure Scan where
  tokens : List JsonToken := []
  mode : Mode := .between

namespace Scan

def finish (s : Scan) : Option Scan :=
  match s.mode with
  | .between => some s
  | .word acc =>
    if words.contains acc.reverse then some ⟨.literal acc.reverse :: s.tokens, .between⟩ else none
  | .number acc =>
    if isNumber acc.reverse then some ⟨.number acc.reverse :: s.tokens, .between⟩ else none
  | _ => none

/-- Reads an octet that no token has claimed. -/
def start (s : Scan) (b : UInt8) : Option Scan :=
  let one (t : JsonToken) : Option Scan := some { s with tokens := t :: s.tokens }
  match b with
  | 32 | 9 | 10 | 13 => some s
  | 91 => one .openArray
  | 93 => one .closeArray
  | 123 => one .openObject
  | 125 => one .closeObject
  | 44 => one .comma
  | 58 => one .colon
  | 34 => some { s with mode := .string [] }
  | b =>
    if b = 45 || isDigit b then some { s with mode := .number [b] }
    else if 97 ≤ b && b ≤ 122 then some { s with mode := .word [b] }
    else none

def step (s : Scan) (b : UInt8) : Option Scan :=
  match s.mode with
  | .between => s.start b
  | .word acc =>
    if 97 ≤ b && b ≤ 122 then some { s with mode := .word (b :: acc) }
    else s.finish.bind (·.start b)
  | .number acc =>
    if isDigit b || [43, 45, 46, 69, 101].contains b then some { s with mode := .number (b :: acc) }
    else s.finish.bind (·.start b)
  | .string acc =>
    if b = 34 then some ⟨.string acc.reverse :: s.tokens, .between⟩
    else if b = 92 then some { s with mode := .escape (b :: acc) }
    else if b < 32 then none
    else some { s with mode := .string (b :: acc) }
  | .escape acc =>
    if b = 117 then some { s with mode := .unicode (b :: acc) 4 }
    else if [34, 92, 47, 98, 102, 110, 114, 116].contains b then
      some { s with mode := .string (b :: acc) }
    else none
  | .unicode acc left =>
    if isHexDigit b then
      some { s with mode := if left ≤ 1 then .string (b :: acc) else .unicode (b :: acc) (left - 1) }
    else none

end Scan

def scan (text : Bytes) : Option (List JsonToken) := do
  let s ← text.foldlM Scan.step {}
  let s ← s.finish
  return s.tokens.reverse

end JsonToken

namespace JsonValue

/-- A container that is open; what is in it is in reverse. -/
inductive Frame where
  | array (values : List JsonValue)
  /-- With the name of the member whose value comes next. -/
  | object (members : List (Bytes × JsonValue)) (name : Bytes)

inductive Expect where
  | value
  | valueOrEnd
  | nameOrEnd (members : List (Bytes × JsonValue))
  | name (members : List (Bytes × JsonValue))
  | colon
  | separator
  /-- The text is complete. -/
  | nothing (result : JsonValue)

/-- A text under way: the open containers, innermost first. -/
structure Build where
  stack : List Frame := []
  expect : Expect := .value

namespace Build

/-- Puts a finished value where it belongs. -/
def place (stack : List Frame) (v : JsonValue) : Build :=
  match stack with
  | [] => ⟨[], .nothing v⟩
  | .array vs :: rest => ⟨.array (v :: vs) :: rest, .separator⟩
  | .object ms name :: rest => ⟨.object ((name, v) :: ms) name :: rest, .separator⟩

def begin (stack : List Frame) : JsonToken → Option Build
  | .openArray => some ⟨.array [] :: stack, .valueOrEnd⟩
  | .openObject => some ⟨stack, .nameOrEnd []⟩
  | .literal w => some (place stack (.literal w))
  | .number d => some (place stack (.number d))
  | .string r => some (place stack (.string r))
  | _ => none

def step (b : Build) (t : JsonToken) : Option Build :=
  match b.expect, t with
  | .value, t => begin b.stack t
  | .valueOrEnd, .closeArray =>
    match b.stack with
    | .array vs :: rest => some (place rest (.array vs.reverse))
    | _ => none
  | .valueOrEnd, t => begin b.stack t
  | .nameOrEnd ms, .closeObject => some (place b.stack (.object ms.reverse))
  | .nameOrEnd ms, .string r => some ⟨.object ms r :: b.stack, .colon⟩
  | .name ms, .string r => some ⟨.object ms r :: b.stack, .colon⟩
  | .colon, .colon => some { b with expect := .value }
  | .separator, .comma =>
    match b.stack with
    | .array _ :: _ => some { b with expect := .value }
    | .object ms _ :: rest => some ⟨rest, .name ms⟩
    | [] => none
  | .separator, .closeArray =>
    match b.stack with
    | .array vs :: rest => some (place rest (.array vs.reverse))
    | _ => none
  | .separator, .closeObject =>
    match b.stack with
    | .object ms _ :: rest => some (place rest (.object ms.reverse))
    | _ => none
  | _, _ => none

end Build

def parse (text : Bytes) : Option JsonValue := do
  let tokens ← JsonToken.scan text
  let b ← tokens.foldlM Build.step {}
  match b.expect with
  | .nothing v => some v
  | _ => none

/-- The number of an integer literal without sign, fraction and exponent. -/
def natural? : JsonValue → Option Nat
  | number digits =>
    if digits.all JsonToken.isDigit then
      some (digits.foldl (fun n b => 10 * n + (b.toNat - 48)) 0)
    else none
  | _ => none

def boolean? : JsonValue → Option Bool
  | literal w =>
    if w = "true".toUTF8.toList then some true
    else if w = "false".toUTF8.toList then some false
    else none
  | _ => none

def hexNumber (ds : Bytes) : Nat :=
  ds.foldl (fun n b => 16 * n + (hexValue? (Char.ofNat b.toNat)).getD 0) 0

def shortEscape : UInt8 → UInt8
  | 98 => 8
  | 102 => 12
  | 110 => 10
  | 114 => 13
  | 116 => 9
  | b => b

/-- What the octets between the quotes stand for, onto the reversed `acc`. A surrogate must be part
of a pair. -/
def unescapeOnto (acc : Bytes) : Bytes → Option Bytes
  | [] => some acc.reverse
  | 92 :: 117 :: a :: b :: c :: d :: rest =>
    let n := hexNumber [a, b, c, d]
    if 0xd800 ≤ n && n < 0xdc00 then
      match rest with
      | 92 :: 117 :: e :: f :: g :: h :: rest =>
        let m := hexNumber [e, f, g, h]
        if 0xdc00 ≤ m && m < 0xe000 then
          let c := Char.ofNat (0x10000 + (n - 0xd800) * 0x400 + (m - 0xdc00))
          unescapeOnto ((String.singleton c).toUTF8.toList.reverse ++ acc) rest
        else none
      | _ => none
    else if 0xdc00 ≤ n && n < 0xe000 then none
    else unescapeOnto ((String.singleton (Char.ofNat n)).toUTF8.toList.reverse ++ acc) rest
  | 92 :: b :: rest => unescapeOnto (shortEscape b :: acc) rest
  | b :: rest => unescapeOnto (b :: acc) rest

/-- The text that the octets between two quotes stand for. -/
def unescape (raw : Bytes) : Option String :=
  (unescapeOnto [] raw).bind fun bs => String.fromUTF8? ⟨bs.toArray⟩

end JsonValue

end GarlicRouting
