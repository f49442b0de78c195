import Polyglot.Json.Value

namespace Polyglot.Json

def controlEscape (c : Char) : String :=
  String.ofList ['\\', 'u', '0', '0', Nat.digitChar (c.toNat / 16), Nat.digitChar (c.toNat % 16)]

def escapeChar (c : Char) : String :=
  if c = '"' then "\\\""
  else if c = '\\' then "\\\\"
  else if c = '\x08' then "\\b"
  else if c = '\x0c' then "\\f"
  else if c = '\n' then "\\n"
  else if c = '\r' then "\\r"
  else if c = '\t' then "\\t"
  else if c.toNat < 0x20 then controlEscape c
  else String.singleton c

def quote (s : String) : String :=
  s.toList.foldl (fun out c => out ++ escapeChar c) "\"" ++ "\""

/-- A literal that is no text is written as the replacement character. -/
def Literal.render : Literal → String
  | .text s => quote s
  | .unpaired => quote "\ufffd"

def padLeft (count : Nat) (digits : String) : String :=
  String.ofList (List.replicate (count - digits.length) '0') ++ digits

def Number.render (n : Number) : String :=
  let sign := if n.negative then "-" else ""
  let fraction :=
    match n.fraction with
    | some (digits, places) => "." ++ padLeft places (toString digits)
    | none => ""
  let exponent :=
    match n.exponent with
    | some e => "e" ++ toString e
    | none => ""
  sign ++ toString n.whole ++ fraction ++ exponent

mutual

def render : Json → String
  | .null => "null"
  | .bool true => "true"
  | .bool false => "false"
  | .number n => n.render
  | .string s => s.render
  | .array elements => "[" ++ renderElements elements ++ "]"
  | .object members => "\x7b" ++ renderMembers members ++ "\x7d"

def renderElements : List Json → String
  | [] => ""
  | [j] => render j
  | j :: rest => render j ++ "," ++ renderElements rest

def renderMembers : List (Literal × Json) → String
  | [] => ""
  | [(name, j)] => name.render ++ ":" ++ render j
  | (name, j) :: rest => name.render ++ ":" ++ render j ++ "," ++ renderMembers rest

end

end Polyglot.Json
