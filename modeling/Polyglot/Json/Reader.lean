import Polyglot.Json.Value

/-!
Reading JSON. The grammar is the strict one: no comments, no trailing commas, no leading zeros,
no raw control characters in strings, and nothing but blanks after the value.
-/

namespace Polyglot.Json.Reader

def isBlank (c : Char) : Bool := c = ' ' || c = '\t' || c = '\n' || c = '\r'

def skip (input : List Char) : List Char := input.dropWhile isBlank

/-- The number of a run of digits, how many they are, and the rest. -/
def digits (value count : Nat) : List Char → Nat × Nat × List Char
  | [] => (value, count, [])
  | c :: rest =>
      if c.isDigit then digits (value * 10 + (c.toNat - '0'.toNat)) (count + 1) rest
      else (value, count, c :: rest)

def whole : List Char → Option (Nat × List Char)
  | '0' :: rest => some (0, rest)
  | input =>
      match digits 0 0 input with
      | (_, 0, _) => none
      | (value, _, rest) => some (value, rest)

def fraction : List Char → Option (Option (Nat × Nat) × List Char)
  | '.' :: rest =>
      match digits 0 0 rest with
      | (_, 0, _) => none
      | (value, count, rest) => some (some (value, count), rest)
  | rest => some (none, rest)

def exponentDigits (negative : Bool) (input : List Char) : Option (Option Int × List Char) :=
  match digits 0 0 input with
  | (_, 0, _) => none
  | (value, _, rest) => some (some (if negative then -value else value), rest)

def exponent : List Char → Option (Option Int × List Char)
  | c :: rest =>
      if c = 'e' || c = 'E' then
        match rest with
        | '+' :: rest => exponentDigits false rest
        | '-' :: rest => exponentDigits true rest
        | rest => exponentDigits false rest
      else some (none, c :: rest)
  | [] => some (none, [])

def unsignedNumber (negative : Bool) (input : List Char) : Option (Number × List Char) := do
  let (whole, rest) ← whole input
  let (fraction, rest) ← fraction rest
  let (exponent, rest) ← exponent rest
  return ({ negative, whole, fraction, exponent }, rest)

def number : List Char → Option (Number × List Char)
  | '-' :: rest => unsignedNumber true rest
  | input => unsignedNumber false input

/-- A part of a string: a character, or the code of a numeric escape. -/
inductive Piece where
  | char (c : Char)
  | code (n : Nat)

def hexDigit? (c : Char) : Option Nat :=
  if c.isDigit then some (c.toNat - '0'.toNat)
  else if 'a' ≤ c ∧ c ≤ 'f' then some (c.toNat - 'a'.toNat + 10)
  else if 'A' ≤ c ∧ c ≤ 'F' then some (c.toNat - 'A'.toNat + 10)
  else none

def hex? (cs : List Char) : Option Nat :=
  cs.foldlM (fun n c => (hexDigit? c).map (n * 16 + ·)) 0

def escaped? : Char → Option Char
  | '"' => some '"'
  | '\\' => some '\\'
  | '/' => some '/'
  | 'b' => some '\x08'
  | 'f' => some '\x0c'
  | 'n' => some '\n'
  | 'r' => some '\r'
  | 't' => some '\t'
  | _ => none

/-- The pieces of a string up to its closing quote. -/
def pieces (read : List Piece) : List Char → Option (List Piece × List Char)
  | [] => none
  | '"' :: rest => some (read.reverse, rest)
  | '\\' :: 'u' :: a :: b :: c :: d :: rest =>
      match hex? [a, b, c, d] with
      | none => none
      | some n => pieces (.code n :: read) rest
  | '\\' :: c :: rest =>
      match escaped? c with
      | none => none
      | some e => pieces (.char e :: read) rest
  | c :: rest =>
      if c.toNat < 0x20 || c = '\\' then none else pieces (.char c :: read) rest

def isHighSurrogate (n : Nat) : Bool := 0xD800 ≤ n && n < 0xDC00

def isLowSurrogate (n : Nat) : Bool := 0xDC00 ≤ n && n < 0xE000

/-- The characters of the pieces, if every surrogate has its other half. -/
def join : List Piece → Option (List Char)
  | [] => some []
  | .char c :: rest => (join rest).map (c :: ·)
  | .code h :: .code l :: rest =>
      if isHighSurrogate h then
        if isLowSurrogate l then
          (join rest).map (Char.ofNat (0x10000 + (h - 0xD800) * 0x400 + (l - 0xDC00)) :: ·)
        else none
      else if isLowSurrogate h then none
      else (join (.code l :: rest)).map (Char.ofNat h :: ·)
  | .code n :: rest =>
      if isHighSurrogate n || isLowSurrogate n then none
      else (join rest).map (Char.ofNat n :: ·)

def literal (input : List Char) : Option (Literal × List Char) := do
  let (pieces, rest) ← pieces [] input
  match join pieces with
  | some cs => return (.text (String.ofList cs), rest)
  | none => return (.unpaired, rest)

mutual

def value : Nat → List Char → Option (Json × List Char)
  | 0, _ => none
  | steps + 1, input =>
      match skip input with
      | 'n' :: 'u' :: 'l' :: 'l' :: rest => some (.null, rest)
      | 't' :: 'r' :: 'u' :: 'e' :: rest => some (.bool true, rest)
      | 'f' :: 'a' :: 'l' :: 's' :: 'e' :: rest => some (.bool false, rest)
      | '"' :: rest => (literal rest).map fun (s, rest) => (.string s, rest)
      | '[' :: rest =>
          match skip rest with
          | ']' :: rest => some (.array [], rest)
          | rest => elements steps [] rest
      | '\x7b' :: rest =>
          match skip rest with
          | '\x7d' :: rest => some (.object [], rest)
          | rest => members steps [] rest
      | rest => (number rest).map fun (n, rest) => (.number n, rest)

def elements : Nat → List Json → List Char → Option (Json × List Char)
  | 0, _, _ => none
  | steps + 1, read, input =>
      match value steps input with
      | none => none
      | some (v, rest) =>
          match skip rest with
          | ',' :: rest => elements steps (v :: read) rest
          | ']' :: rest => some (.array (v :: read).reverse, rest)
          | _ => none

def members : Nat → List (Literal × Json) → List Char → Option (Json × List Char)
  | 0, _, _ => none
  | steps + 1, read, input =>
      match skip input with
      | '"' :: rest =>
          match literal rest with
          | none => none
          | some (name, rest) =>
              match skip rest with
              | ':' :: rest =>
                  match value steps rest with
                  | none => none
                  | some (v, rest) =>
                      match skip rest with
                      | ',' :: rest => members steps ((name, v) :: read) rest
                      | '\x7d' :: rest => some (.object ((name, v) :: read).reverse, rest)
                      | _ => none
              | _ => none
      | _ => none

end

end Polyglot.Json.Reader

namespace Polyglot

/-- Reads a whole text. Every step takes up a character, and a bracket may need two. -/
def Json.read? (text : String) : Option Json :=
  let input := text.toList
  match Json.Reader.value (2 * input.length + 2) input with
  | some (j, rest) => if (Json.Reader.skip rest).isEmpty then some j else none
  | none => none

end Polyglot
