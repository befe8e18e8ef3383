import Mathlib.Data.List.Basic
import Mathlib.Data.List.Lex
import Mathlib.Data.List.Sort

/-!
# JSON texts

A reader and a compact printer of JSON. A string may hold surrogates that pair with no other,
so texts here are lists of code points. The reader is told how deep values may nest, how many
digits an integer may have and which objects it accepts; it keeps the members of an object in
their order.
-/

namespace Foundation
namespace Json

/-! ## Texts -/

/-- A code point: a character, or the surrogate `0xD800 + n`. -/
inductive CodePoint where
  | scalar (c : Char)
  | surrogate (n : Fin 0x800)
deriving DecidableEq

abbrev Str := List CodePoint

def ofText (text : List Char) : Str :=
  text.map .scalar

def CodePoint.char? : CodePoint → Option Char
  | .scalar c => some c
  | .surrogate _ => none

/-- The text of a string without surrogates. -/
def toText? (s : Str) : Option (List Char) :=
  s.mapM CodePoint.char?

def CodePoint.toNat : CodePoint → Nat
  | .scalar c => c.toNat
  | .surrogate n => 0xD800 + n.val

/-! ## Values -/

inductive Value where
  | null
  | bool (b : Bool)
  | int (n : Int)
  /-- A number with a fraction or an exponent, as it is spelled. -/
  | float (lexeme : List Char)
  | string (s : Str)
  | array (items : List Value)
  | object (members : List (Str × Value))

/-! ## Printing -/

def hexDigit (n : Nat) : Char :=
  if n < 10 then Char.ofNat (48 + n) else Char.ofNat (87 + n)

/-- A character of a string literal. -/
def escape : CodePoint → List CodePoint
  | .scalar '"' => ofText ['\\', '"']
  | .scalar '\\' => ofText ['\\', '\\']
  | .scalar '\n' => ofText ['\\', 'n']
  | .scalar '\r' => ofText ['\\', 'r']
  | .scalar '\t' => ofText ['\\', 't']
  | .scalar '\x08' => ofText ['\\', 'b']
  | .scalar '\x0c' => ofText ['\\', 'f']
  | p =>
      if p.toNat < 0x20 then
        ofText ['\\', 'u', '0', '0', hexDigit (p.toNat / 16), hexDigit (p.toNat % 16)]
      else [p]

def printString (s : Str) : Str :=
  .scalar '"' :: (s.flatMap escape ++ [.scalar '"'])

def printInt (n : Int) : Str :=
  if n < 0 then .scalar '-' :: ofText (Nat.toDigits 10 n.natAbs)
  else ofText (Nat.toDigits 10 n.natAbs)

mutual

def print : Value → Str
  | .null => ofText "null".toList
  | .bool true => ofText "true".toList
  | .bool false => ofText "false".toList
  | .int n => printInt n
  | .float lexeme => ofText lexeme
  | .string s => printString s
  | .array [] => ofText "[]".toList
  | .array (v :: rest) => .scalar '[' :: (print v ++ printItems rest)
  | .object [] => ofText "{}".toList
  | .object ((key, v) :: rest) =>
      .scalar '{' :: (printString key ++ .scalar ':' :: (print v ++ printMembers rest))

/-- The items after the first one, and the end of the array. -/
def printItems : List Value → Str
  | [] => [.scalar ']']
  | v :: rest => .scalar ',' :: (print v ++ printItems rest)

/-- The members after the first one, and the end of the object. -/
def printMembers : List (Str × Value) → Str
  | [] => [.scalar '}']
  | (key, v) :: rest =>
      .scalar ',' :: (printString key ++ .scalar ':' :: (print v ++ printMembers rest))

end

/-! ## Sorting members -/

/-- Strings compare by code points. -/
def keyLe (a b : Str) : Bool :=
  decide (a.map CodePoint.toNat ≤ b.map CodePoint.toNat)

instance {α : Type*} (key : α → Str) : Std.Total fun a b => keyLe (key a) (key b) = true where
  total a b := by
    rcases le_total ((key a).map CodePoint.toNat) ((key b).map CodePoint.toNat) with h | h
    · exact Or.inl (decide_eq_true h)
    · exact Or.inr (decide_eq_true h)

instance {α : Type*} (key : α → Str) : IsTrans α fun a b => keyLe (key a) (key b) = true where
  trans _ _ _ hab hbc :=
    decide_eq_true (le_trans (of_decide_eq_true hab) (of_decide_eq_true hbc))

def sortMembers (members : List (Str × Value)) : List (Str × Value) :=
  members.insertionSort fun a b => keyLe a.1 b.1 = true

mutual

/-- The members of every object in the order of their keys. -/
def sortKeys : Value → Value
  | .array items => .array (sortItems items)
  | .object members => .object (sortMembers (sortValues members))
  | v => v

def sortItems : List Value → List Value
  | [] => []
  | v :: rest => sortKeys v :: sortItems rest

def sortValues : List (Str × Value) → List (Str × Value)
  | [] => []
  | (key, v) :: rest => (key, sortKeys v) :: sortValues rest

end

/-! ## Reading strings and numbers -/

/-- A code unit of a string literal: as it stands, or an escaped UTF-16 unit. -/
inductive StringUnit where
  | plain (p : CodePoint)
  | escaped (n : Nat)

def hexValue? (p : CodePoint) : Option Nat :=
  match p with
  | .scalar c =>
      if '0' ≤ c ∧ c ≤ '9' then some (c.toNat - 48)
      else if 'a' ≤ c ∧ c ≤ 'f' then some (c.toNat - 87)
      else if 'A' ≤ c ∧ c ≤ 'F' then some (c.toNat - 55)
      else none
  | .surrogate _ => none

/-- `\uXXXX` after its `u`. -/
def hexUnit? (a b c d : CodePoint) : Option Nat := do
  let a ← hexValue? a
  let b ← hexValue? b
  let c ← hexValue? c
  let d ← hexValue? d
  return ((a * 16 + b) * 16 + c) * 16 + d

/-- The escapes of one letter. -/
def shortEscape? : CodePoint → Option Char
  | .scalar '"' => some '"'
  | .scalar '\\' => some '\\'
  | .scalar '/' => some '/'
  | .scalar 'b' => some '\x08'
  | .scalar 'f' => some '\x0c'
  | .scalar 'n' => some '\n'
  | .scalar 'r' => some '\r'
  | .scalar 't' => some '\t'
  | _ => none

/-- The units of a string literal after its opening quote, and what follows the closing one;
control characters have to be escaped. -/
def readUnits : Str → Option (List StringUnit × Str)
  | [] => none
  | .scalar '"' :: rest => some ([], rest)
  | .scalar '\\' :: .scalar 'u' :: a :: b :: c :: d :: rest =>
      match hexUnit? a b c d with
      | none => none
      | some n => (readUnits rest).map fun r => (.escaped n :: r.1, r.2)
  | .scalar '\\' :: e :: rest =>
      match shortEscape? e with
      | none => none
      | some c => (readUnits rest).map fun r => (.plain (.scalar c) :: r.1, r.2)
  | p :: rest =>
      if p = .scalar '\\' ∨ p.toNat < 0x20 then none
      else (readUnits rest).map fun r => (.plain p :: r.1, r.2)

/-- The code point of a number below `0x110000`. -/
def codePoint (n : Nat) : CodePoint :=
  if h : 0xD800 ≤ n ∧ n < 0xE000 then .surrogate ⟨n - 0xD800, by omega⟩
  else .scalar (Char.ofNat n)

/-- An escaped high surrogate right before an escaped low one makes one character. -/
def joinUnits : List StringUnit → Str
  | [] => []
  | .plain p :: rest => p :: joinUnits rest
  | [.escaped n] => [codePoint n]
  | .escaped n :: .plain p :: rest => codePoint n :: p :: joinUnits rest
  | .escaped n :: .escaped m :: rest =>
      if 0xD800 ≤ n ∧ n < 0xDC00 ∧ 0xDC00 ≤ m ∧ m < 0xE000 then
        codePoint (0x10000 + (n - 0xD800) * 0x400 + (m - 0xDC00)) :: joinUnits rest
      else codePoint n :: joinUnits (.escaped m :: rest)

/-- A string literal after its opening quote. -/
def readString (s : Str) : Option (Str × Str) :=
  (readUnits s).map fun r => (joinUnits r.1, r.2)

def CodePoint.isDigit : CodePoint → Bool
  | .scalar c => c.isDigit
  | .surrogate _ => false

/-- The digits at the start of a text, and the rest. -/
def readDigits : Str → List Char × Str
  | .scalar c :: rest =>
      if c.isDigit then (c :: (readDigits rest).1, (readDigits rest).2)
      else ([], .scalar c :: rest)
  | s => ([], s)

/-- A zero, or digits that begin with another one; none when there is no digit. -/
def readIntPart : Str → List Char × Str
  | .scalar '0' :: rest => (['0'], rest)
  | s => readDigits s

/-- A point with digits after it, or nothing. -/
def readFraction : Str → List Char × Str
  | .scalar '.' :: rest =>
      match readDigits rest with
      | ([], _) => ([], .scalar '.' :: rest)
      | (digits, rest) => ('.' :: digits, rest)
  | s => ([], s)

/-- The sign of an exponent, or nothing. -/
def readSign : Str → List Char × Str
  | .scalar '+' :: rest => (['+'], rest)
  | .scalar '-' :: rest => (['-'], rest)
  | s => ([], s)

/-- An exponent, or nothing. -/
def readExponent : Str → List Char × Str
  | .scalar e :: rest =>
      if e = 'e' ∨ e = 'E' then
        match readDigits (readSign rest).2 with
        | ([], _) => ([], .scalar e :: rest)
        | (digits, rest') => (e :: (readSign rest).1 ++ digits, rest')
      else ([], .scalar e :: rest)
  | s => ([], s)

/-! ## Reading values -/

/-- What a reader accepts, and the errors it ends with. -/
structure Reader (ε : Type) where
  malformed : ε
  /-- Values are nested too deep. -/
  tooDeep : ε
  /-- An integer has too many digits. -/
  tooLong : ε
  /-- A number is one of `NaN`, `Infinity` and `-Infinity`. -/
  constant : ε
  /-- The members of an object that is complete. -/
  checkMembers : List (Str × Value) → Except ε Unit
  nesting : Nat
  intDigits : Nat
  /-- Whether `NaN`, `Infinity` and `-Infinity` are read as floats. -/
  constants : Bool := false

variable {ε : Type}

def skipSpace : Str → Str
  | .scalar c :: rest =>
      if c = ' ' ∨ c = '\t' ∨ c = '\n' ∨ c = '\r' then skipSpace rest else .scalar c :: rest
  | s => s

/-- What follows a word at the start of a text. -/
def afterWord? (word : String) (s : Str) : Option Str :=
  if (ofText word.toList).isPrefixOf s then some (s.drop word.length) else none

/-- A number after its sign. -/
def Reader.readUnsigned (reader : Reader ε) (negative : Bool) (s : Str) :
    Except ε (Value × Str) :=
  let (digits, afterInt) := readIntPart s
  let (fraction, afterFraction) := readFraction afterInt
  let (exponent, rest) := readExponent afterFraction
  if digits = [] then .error reader.malformed
  else if fraction = [] ∧ exponent = [] then
    if reader.intDigits < digits.length then .error reader.tooLong
    else
      let n : Int := Nat.ofDigitChars 10 digits 0
      .ok (.int (if negative then -n else n), rest)
  else
    .ok (.float ((if negative then ['-'] else []) ++ digits ++ fraction ++ exponent), rest)

/-- A text that begins with one of `NaN`, `Infinity` and `-Infinity`, as a float and the rest. -/
def readConstant (s : Str) : Value × Str :=
  match afterWord? "NaN" s, afterWord? "Infinity" s with
  | some rest, _ => (.float "NaN".toList, rest)
  | _, some rest => (.float "Infinity".toList, rest)
  | _, _ => (.float "-Infinity".toList, s.drop "-Infinity".length)

/-- A value that is a word or a number. -/
def Reader.readScalar (reader : Reader ε) (s : Str) : Except ε (Value × Str) :=
  match afterWord? "null" s, afterWord? "true" s, afterWord? "false" s with
  | some rest, _, _ => .ok (.null, rest)
  | _, some rest, _ => .ok (.bool true, rest)
  | _, _, some rest => .ok (.bool false, rest)
  | _, _, _ =>
      if (afterWord? "NaN" s).isSome ∨ (afterWord? "Infinity" s).isSome ∨
          (afterWord? "-Infinity" s).isSome then
        if reader.constants then .ok (readConstant s) else .error reader.constant
      else
        match s with
        | .scalar '-' :: rest => reader.readUnsigned true rest
        | s => reader.readUnsigned false s

mutual

/-- The value at the start of a text. The first argument bounds the calls, the second one the
nesting. -/
def Reader.readValue (reader : Reader ε) : Nat → Nat → Str → Except ε (Value × Str)
  | 0, _, _ => .error reader.malformed
  | _ + 1, _, .scalar '"' :: rest =>
      match readString rest with
      | none => .error reader.malformed
      | some (s, rest) => .ok (.string s, rest)
  | fuel + 1, depth, .scalar '[' :: rest =>
      match depth with
      | 0 => .error reader.tooDeep
      | depth + 1 =>
          match skipSpace rest with
          | .scalar ']' :: rest => .ok (.array [], rest)
          | s => do
              let (items, rest) ← reader.readItems fuel depth s
              return (.array items, rest)
  | fuel + 1, depth, .scalar '{' :: rest =>
      match depth with
      | 0 => .error reader.tooDeep
      | depth + 1 =>
          match skipSpace rest with
          | .scalar '}' :: rest => do
              reader.checkMembers []
              return (.object [], rest)
          | s => do
              let (members, rest) ← reader.readMembers fuel depth s
              reader.checkMembers members
              return (.object members, rest)
  | _ + 1, _, s => reader.readScalar s

/-- The items of an array that has one more, up to its end. -/
def Reader.readItems (reader : Reader ε) : Nat → Nat → Str → Except ε (List Value × Str)
  | 0, _, _ => .error reader.malformed
  | fuel + 1, depth, s => do
      let (v, rest) ← reader.readValue fuel depth s
      match skipSpace rest with
      | .scalar ']' :: rest => return ([v], rest)
      | .scalar ',' :: rest =>
          let (items, rest) ← reader.readItems fuel depth (skipSpace rest)
          return (v :: items, rest)
      | _ => .error reader.malformed

/-- The members of an object that has one more, up to its end. -/
def Reader.readMembers (reader : Reader ε) :
    Nat → Nat → Str → Except ε (List (Str × Value) × Str)
  | 0, _, _ => .error reader.malformed
  | fuel + 1, depth, .scalar '"' :: rest =>
      match readString rest with
      | none => .error reader.malformed
      | some (key, rest) =>
          match skipSpace rest with
          | .scalar ':' :: rest => do
              let (v, rest) ← reader.readValue fuel depth (skipSpace rest)
              match skipSpace rest with
              | .scalar '}' :: rest => return ([(key, v)], rest)
              | .scalar ',' :: rest =>
                  let (members, rest) ← reader.readMembers fuel depth (skipSpace rest)
                  return ((key, v) :: members, rest)
              | _ => .error reader.malformed
          | _ => .error reader.malformed
  | _ + 1, _, _ => .error reader.malformed

end

/-- A whole text; every call of the reader takes at least half a character. -/
def Reader.read (reader : Reader ε) (s : Str) : Except ε Value := do
  let (v, rest) ← reader.readValue (2 * s.length + 2) reader.nesting (skipSpace s)
  if skipSpace rest = [] then return v else .error reader.malformed

end Json
end Foundation
