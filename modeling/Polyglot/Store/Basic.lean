import Polyglot.Flow.Query
import Polyglot.Repeat

/-!
The store of one content type, held in memory. It keeps one record per item and language,
inserts whole batches or nothing, and can be told to fail. `Store.answer` is how it answers the
questions of a flow; a failed call leaves it as it was.
-/

namespace Polyglot

/-- Which operations of a store are made to fail. -/
structure Faults where
  listing : Bool
  copyInserts : Bool
  overwritesIn : List LanguageId
deriving DecidableEq

def Faults.none : Faults := ⟨false, false, []⟩

structure Store where
  name : String
  /-- Every item, with the mark whether it is live; the others are deleted but kept. -/
  items : SortedMap ItemId Bool
  records : List Record
  nextId : RecordId
  clock : Instant
  faults : Faults
deriving DecidableEq

namespace Store

def named (name : String) : Store := ⟨name, .empty, [], 1, 0, .none⟩

/-- Adds an item; a deleted one is live again. -/
def addItem (s : Store) (item : ItemId) : Store :=
  { s with items := s.items.insert item true }

def softDelete (s : Store) (item : ItemId) : Store :=
  if s.items.contains item then { s with items := s.items.insert item false } else s

def delete (s : Store) (item : ItemId) : Store :=
  { s with
    items := s.items.erase item
    records := s.records.filter (·.item ≠ item) }

def live (s : Store) (item : ItemId) : Bool := s.items.get? item == some true

/-- The live items, in the order of ids. -/
def liveItems (s : Store) : List ItemId := (s.items.entries.filter (·.2)).map (·.1)

def recordsOf (s : Store) (item : ItemId) : List Record :=
  (s.records.filter (·.item = item)).mergeSort fun a b => a.language ≤ b.language

def record? (s : Store) (id : RecordId) : Option Record := s.records.find? (·.id = id)

def recordIn? (s : Store) (item : ItemId) (language : LanguageId) : Option Record :=
  s.records.find? fun r => r.item = item && r.language = language

def languagesOf (s : Store) (item : ItemId) : List LanguageId :=
  (s.records.filter (·.item = item)).map (·.language)

/-- The records of a batch, with ids counted up from `id`. -/
def enrol (item : ItemId) (actor : Actor) (now : Instant) : RecordId → List Draft → List Record
  | _, [] => []
  | id, d :: rest => d.record item actor now id :: enrol item actor now (id + 1) rest

def append (s : Store) (item : ItemId) (drafts : List Draft) (actor : Actor) : Store :=
  { s with
    records := s.records ++ enrol item actor s.clock s.nextId drafts
    nextId := s.nextId + drafts.length
    clock := s.clock + 1 }

def insert (s : Store) (item : ItemId) (drafts : List Draft) (actor : Actor) :
    Except Error Store :=
  if s.faults.copyInserts && drafts.any (·.follows) then .error (.storage (.insert s.name))
  else if !s.items.contains item then .error (.noItem item)
  else
    match firstRepeat (s.languagesOf item) (drafts.map (·.language)) with
    | some language => .error (.storage (.duplicate item language))
    | none => .ok (s.append item drafts actor)

def put (s : Store) (id : RecordId) (text : Text) (follows : Bool) (actor : Actor) : Store :=
  { s with
    records := s.records.map fun r =>
      if r.id = id then { r with text, follows, updatedBy := actor, updatedAt := s.clock } else r
    clock := s.clock + 1 }

def overwriteCopy (s : Store) (id : RecordId) (text : Text) (actor : Actor) :
    Except Error (Bool × Store) :=
  match s.record? id with
  | none => .error (.noRecord id)
  | some r =>
      if r.language ∈ s.faults.overwritesIn then .error (.storage (.write id))
      else if r.follows then .ok (true, s.put id text true actor)
      else .ok (false, s)

def write (s : Store) (id : RecordId) (text : Text) (follows : Bool) (actor : Actor) :
    Except Error Store :=
  match s.record? id with
  | none => .error (.noRecord id)
  | some _ => .ok (s.put id text follows actor)

def list (s : Store) : Except Error (List ItemId) :=
  if s.faults.listing then .error (.storage (.listing s.name)) else .ok s.liveItems

end Store

def Directory.answer (d : Directory) : (l : Lookup) → l.Answer
  | .byCode code => d.byCode code
  | .byId id => d.byId id
  | .active => d.active
  | .base => d.base

/-- The new state of a call that yields one, and its reply. -/
def Store.settle (s : Store) : Except Error Store → Except Error Unit × Store
  | .ok t => (.ok (), t)
  | .error e => (.error e, s)

def Store.answer (d : Directory) : (q : Query) → Store → q.Reply × Store
  | .language l, s => (.ok (d.answer l), s)
  | .items, s => (s.list, s)
  | .hasItem item, s => (.ok (s.live item), s)
  | .records item, s => (.ok (s.recordsOf item), s)
  | .insert item drafts actor, s => s.settle (s.insert item drafts actor)
  | .overwriteCopy id text actor, s =>
      match s.overwriteCopy id text actor with
      | .ok (written, t) => (.ok written, t)
      | .error e => (.error e, s)
  | .write id text follows actor, s => s.settle (s.write id text follows actor)

end Polyglot
