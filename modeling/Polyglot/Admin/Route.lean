namespace Polyglot.Admin

inductive Route where
  | health
  | metrics
  | reconcile (type : String)
  | backfill (code : String)
deriving DecidableEq

inductive Target where
  | route (r : Route)
  | nowhere
  | undecodable (method : String)
deriving DecidableEq

def hexValue? (c : Char) : Option Nat :=
  if '0' ≤ c ∧ c ≤ '9' then some (c.toNat - '0'.toNat)
  else if 'a' ≤ c ∧ c ≤ 'f' then some (c.toNat - 'a'.toNat + 10)
  else if 'A' ≤ c ∧ c ≤ 'F' then some (c.toNat - 'A'.toNat + 10)
  else none

def hexByte? (a b : Char) : Option UInt8 := do
  return (← hexValue? a).toUInt8 * 16 + (← hexValue? b).toUInt8

/-- Decodes percent escapes. A percent sign without two digits stands for itself. -/
def percentDecode : List Char → List UInt8
  | [] => []
  | '%' :: a :: b :: rest =>
      match hexByte? a b with
      | some byte => byte :: percentDecode rest
      | none => 37 :: percentDecode (a :: b :: rest)
  | c :: rest => (String.singleton c).toByteArray.toList ++ percentDecode rest

def parameter? (segment : String) : Option String :=
  String.fromUTF8? ⟨(percentDecode segment.toList).toArray⟩

def pathOnly (uri : String) : String :=
  String.ofList (uri.toList.takeWhile fun c => c ≠ '?' && c ≠ '#')

/-- The target of a path whose parameter goes into `route`; `method` is the one it answers. -/
def withParameter (method segment : String) (route : String → Route) : Target :=
  match parameter? segment with
  | some text => .route (route text)
  | none => .undecodable method

def target (uri : String) : Target :=
  match (pathOnly uri).splitOn "/" with
  | ["", "health"] => .route .health
  | ["", "metrics"] => .route .metrics
  | ["", "admin", "reconcile", type] =>
      if type.isEmpty then .nowhere else withParameter "POST" type .reconcile
  | ["", "admin", "languages", code, "backfill"] => withParameter "POST" code .backfill
  | _ => .nowhere

/-- The method that a route answers. Where it is GET, HEAD is answered too. -/
def Route.method : Route → String
  | .health => "GET"
  | .metrics => "GET"
  | .reconcile _ => "POST"
  | .backfill _ => "POST"

end Polyglot.Admin
