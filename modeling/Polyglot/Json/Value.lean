namespace Polyglot

structure Json.Number where
  negative : Bool
  whole : Nat
  /-- The digits after the point as one number, and how many they are. -/
  fraction : Option (Nat × Nat)
  exponent : Option Int
deriving DecidableEq

inductive Json.Literal where
  | text (s : String)
  /-- Its escapes name half of a surrogate pair: it is well formed, but no text. -/
  | unpaired
deriving DecidableEq

/-- JSON as it is written: members stand in their order, repeated names included, and numbers keep
the parts of their notation. -/
inductive Json where
  | null
  | bool (b : Bool)
  | number (n : Json.Number)
  | string (s : Json.Literal)
  | array (elements : List Json)
  | object (members : List (Json.Literal × Json))
deriving Inhabited

namespace Json

/-- The integer of a number without fraction and exponent. Minus zero is none. -/
def Number.int? (n : Number) : Option Int :=
  if n.fraction.isSome || n.exponent.isSome || (n.negative && n.whole == 0) then none
  else some (if n.negative then -n.whole else n.whole)

def Number.float (n : Number) : Float :=
  let (digits, places) := n.fraction.getD (0, 0)
  let exponent := n.exponent.getD 0 - places
  let magnitude :=
    Float.ofScientific (n.whole * Nat.pow 10 places + digits) (exponent < 0) exponent.natAbs
  if n.negative then -magnitude else magnitude

def ofInt (i : Int) : Json := .number ⟨i < 0, i.natAbs, none, none⟩

def ofNat (n : Nat) : Json := .number ⟨false, n, none, none⟩

def ofString (s : String) : Json := .string (.text s)

def ofMembers (members : List (String × Json)) : Json :=
  .object (members.map fun m => (.text m.1, m.2))

def bool? : Json → Option Bool
  | .bool b => some b
  | _ => none

def int? : Json → Option Int
  | .number n => n.int?
  | _ => none

def natBelow? (bound : Nat) (j : Json) : Option Nat :=
  j.int?.bind fun i => if 0 ≤ i ∧ i < bound then some i.toNat else none

def int64? (j : Json) : Option Int :=
  j.int?.bind fun i =>
    if -0x8000000000000000 ≤ i ∧ i < 0x8000000000000000 then some i else none

def text? : Json → Option String
  | .string (.text s) => some s
  | _ => none

def array? : Json → Option (List Json)
  | .array elements => some elements
  | _ => none

def object? : Json → Option (List (Literal × Json))
  | .object members => some members
  | _ => none

/-- The value of the first member of this name. -/
def member? (name : String) : Json → Option Json
  | .object members => (members.find? fun m => m.1 = .text name).map (·.2)
  | _ => none

/-- The values that `members` hold for each of the `known` names. No known name may be
repeated, and every name has to be a text. -/
def membersOf? (known : List String) (members : List (Literal × Json)) :
    Option (List (Option Json)) :=
  if members.any (·.1 = .unpaired) then none
  else
    known.mapM fun name =>
      match members.filter fun m => m.1 = .text name with
      | [] => some none
      | [m] => some (some m.2)
      | _ => none

/-- The fields of a structure with the `known` names, either by name or as an array in their
order. Fields that are missing are `none`; an array has no more elements than there are
fields. -/
def fields? (known : List String) : Json → Option (List (Option Json))
  | .object members => membersOf? known members
  | .array elements =>
      if elements.length ≤ known.length then
        some (elements.map some ++ List.replicate (known.length - elements.length) none)
      else none
  | _ => none

end Json

end Polyglot
