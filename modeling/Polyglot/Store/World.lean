import Polyglot.Store.Basic

namespace Polyglot

structure World where
  directory : Directory
  stores : List Store
deriving DecidableEq

namespace World

def store? (w : World) (type : String) : Option Store := w.stores.find? (·.name = type)

def update (w : World) (type : String) (f : Store → Store) : World :=
  { w with stores := w.stores.map fun s => if s.name = type then f s else s }

def answer : (c : Call) → World → c.Reply × World
  | .directory l, w => (.ok (w.directory.answer l), w)
  | .content type q, w =>
      match w.store? type with
      | none => (.error (.notFound .contentType type), w)
      | some s =>
          let (reply, t) := s.answer w.directory q
          (reply, w.update type fun _ => t)

/-- All records with the names of their content types. -/
def records (w : World) : List (String × Record) :=
  w.stores.flatMap fun s => s.records.map (s.name, ·)

/-- The records that are new in the second world or were written since the first. -/
def written (before after : World) : List (String × Record) :=
  after.records.filter fun r => r ∉ before.records

def removed (before after : World) : List (String × RecordId) :=
  (before.records.map fun r => (r.1, r.2.id)).filter fun id =>
    id ∉ after.records.map fun r => (r.1, r.2.id)

end World

end Polyglot
