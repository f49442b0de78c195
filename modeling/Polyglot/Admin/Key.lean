namespace Polyglot.Admin

def sameKey (a b : String) : Bool := a.toByteArray == b.toByteArray

/-- Whether a request may pass. Where no key is set, every request may. -/
def verify (expected provided : Option String) : Bool :=
  match expected, provided with
  | none, _ => true
  | some expected, some provided => sameKey expected provided
  | some _, none => false

structure Header where
  name : String
  value : List UInt8
deriving DecidableEq

def isHeaderByte (b : UInt8) : Bool := (32 ≤ b && b ≠ 127) || b = 9

/-- Bytes that count as text in a header value: visible ASCII, space and tab. -/
def isTextByte (b : UInt8) : Bool := (32 ≤ b && b < 127) || b = 9

def Header.text? (h : Header) : Option String :=
  if h.value.all isTextByte then some (String.ofList (h.value.map fun b => Char.ofNat b.toNat))
  else none

def keyHeader : String := "x-api-key"

/-- The key that comes with a request: the first header of that name, if it is text. -/
def providedKey (headers : List Header) : Option String :=
  (headers.find? (·.name.toLower = keyHeader)).bind Header.text?

end Polyglot.Admin
