import Polyglot.Store.World

namespace Polyglot

inductive CallKind where
  | byCode
  | byId
  | active
  | base
  | items
  | hasItem
  | records
  | insert
  | overwriteCopy
  | write
deriving DecidableEq

inductive Site where
  | directory
  | contentType (name : String)
deriving DecidableEq

def Lookup.kind : Lookup → CallKind
  | .byCode _ => .byCode
  | .byId _ => .byId
  | .active => .active
  | .base => .base

def Lookup.key? : Lookup → Option Int
  | .byId id => some id
  | _ => none

def Query.kind : Query → CallKind
  | .language l => l.kind
  | .items => .items
  | .hasItem _ => .hasItem
  | .records _ => .records
  | .insert .. => .insert
  | .overwriteCopy .. => .overwriteCopy
  | .write .. => .write

def Query.key? : Query → Option Int
  | .language l => l.key?
  | .items => none
  | .hasItem item => some item
  | .records item => some item
  | .insert item _ _ => some item
  | .overwriteCopy id _ _ => some id
  | .write id _ _ _ => some id

namespace Call

def site : Call → Site
  | .directory _ => .directory
  | .content type _ => .contentType type

def kind : Call → CallKind
  | .directory l => l.kind
  | .content _ q => q.kind

def key? : Call → Option Int
  | .directory l => l.key?
  | .content _ q => q.key?

def refuse (e : Error) : (c : Call) → c.Reply
  | .directory _ => .error e
  | .content _ _ => .error e

end Call

/-- What happens to a call. -/
inductive Interference where
  | refuse (e : Error)
  /-- The call never returns. -/
  | breakOff
  | before (change : World → World)
  | after (change : World → World)

/-- An interference with calls of one kind, after `skip` of them and for `times` of them. -/
structure Intervention where
  site : Site
  kind : CallKind
  key? : Option Int
  skip : Nat
  times : Nat
  action : Interference

def Intervention.concerns (i : Intervention) (c : Call) : Bool :=
  i.site = c.site && i.kind = c.kind && (i.key?.isNone || i.key? = c.key?)

/-- Finds the intervention for a call: the first one that is about it, has nothing left to skip
and is not used up. Those before it that still skip have one less to skip. -/
def Intervention.fire (c : Call) :
    List Intervention → Option Interference × List Intervention
  | [] => (none, [])
  | i :: rest =>
      if !i.concerns c then
        let (found, rest) := fire c rest
        (found, i :: rest)
      else if 0 < i.skip then
        let (found, rest) := fire c rest
        (found, { i with skip := i.skip - 1 } :: rest)
      else if 0 < i.times then (some i.action, { i with times := i.times - 1 } :: rest)
      else
        let (found, rest) := fire c rest
        (found, i :: rest)

structure Stage where
  world : World
  interventions : List Intervention

namespace Stage

def answer : Backend Stage := fun c s =>
  let (found, interventions) := Intervention.fire c s.interventions
  match found with
  | none =>
      let (reply, world) := World.answer c s.world
      (some reply, { world, interventions })
  | some (.refuse e) => (some (Call.refuse e c), { s with interventions })
  | some .breakOff => (none, { s with interventions })
  | some (.before change) =>
      let (reply, world) := World.answer c (change s.world)
      (some reply, { world, interventions })
  | some (.after change) =>
      let (reply, world) := World.answer c s.world
      (some reply, { world := change world, interventions })

end Stage

end Polyglot
