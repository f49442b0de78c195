import Polyglot.Engine.Registry
import Polyglot.Sql.Commands

/-!
Stores in a database: each question becomes one statement, and the reply is decoded from what
comes back. The database is whatever answers statements; here that is a script of responses.
-/

namespace Polyglot.Sql

inductive Response where
  | rows (rows : List (List Value))
  | affected (n : Nat)
  | failed (text : String)
deriving DecidableEq

/-- A program over a database. -/
abbrev Conversation := Program Exchange fun _ => Response

abbrev Dialogue := ExceptT Error Conversation

def fetch (x : Exchange) : Dialogue (List Row) := do
  match ← ExceptT.lift (Program.query x) with
  | .rows rows => return rows.map fun row => x.statement.outputNames.zip row
  | .affected _ => return []
  | .failed text => throw (.storage (.database text))

def execute (x : Exchange) : Dialogue Nat := do
  match ← ExceptT.lift (Program.query x) with
  | .rows _ => return 0
  | .affected n => return n
  | .failed text => throw (.storage (.database text))

def decoded {α : Type} (result : Except Error α) : Dialogue α := ExceptT.mk (pure result)

def firstLanguage (rows : List Row) : Except Error (Option Language) :=
  rows.head?.mapM Row.language

def lookup (baseCode : String) : (l : Lookup) → Dialogue l.Answer
  | .byCode code => do decoded (firstLanguage (← fetch (lookupExchange baseCode (.byCode code))))
  | .byId id => do decoded (firstLanguage (← fetch (lookupExchange baseCode (.byId id))))
  | .active => do decoded ((← fetch (lookupExchange baseCode .active)).mapM Row.language)
  | .base => do decoded (firstLanguage (← fetch (lookupExchange baseCode .base)))

def answer (baseCode : String) (l : Layout) : (q : Query) → Dialogue q.Answer
  | .language look => lookup baseCode look
  | .items => do decoded ((← fetch ⟨l.listItems, []⟩).mapM (Row.int · "id"))
  | .hasItem item => do
      match ← fetch ⟨l.itemExists, [.int item]⟩ with
      | [] => decoded undecodable
      | row :: _ => decoded (Row.bool row "exists")
  | .records item => do
      decoded ((← fetch ⟨l.selectRecords, [.int item]⟩).mapM (Row.record l.textFields))
  | .insert item drafts actor =>
      if drafts.isEmpty then pure ()
      else do
        let _ ← execute (← decoded (l.insertExchange item drafts actor))
  | .overwriteCopy id text actor => do
      return decide (0 < (← execute (← decoded (l.overwriteExchange id text actor))))
  | .write id text follows actor => do
      let changed ← execute (← decoded (l.writeExchange id text follows actor))
      if changed = 0 then throw (.noRecord id)

/-- A database behind which a script of responses stands, and what was sent to it. -/
structure Script where
  responses : List Response
  sent : List Exchange
deriving DecidableEq

/-- The next response; a script that has run out fails. -/
def Script.respond (x : Exchange) (s : Script) : Response × Script :=
  match s.responses with
  | [] => (.failed "no response", { s with sent := s.sent ++ [x] })
  | r :: rest => (r, { responses := rest, sent := s.sent ++ [x] })

structure Database where
  baseCode : String
  layouts : List Layout
deriving DecidableEq

namespace Database

def call (db : Database) : (c : Call) → Conversation c.Reply
  | .directory l => (lookup db.baseCode l).run
  | .content type q =>
      match db.layouts.find? (·.name = type) with
      | none => return .error (.notFound .contentType type)
      | some l => (answer db.baseCode l q).run

def backend (db : Database) : Backend Script := fun c s =>
  let (reply, s) := (db.call c).run Script.respond s
  (some reply, s)

/-- The registry of the database's content types, whose layouts are checked once more. -/
def registry (db : Database) (interval : Nat) : Except SetupError Registry :=
  db.layouts.foldlM
    (fun r l => do
      l.validate
      match r.register l.name (l.interval.getD interval) with
      | .ok r => .ok r
      | .error _ => .error (.unregistered l.name))
    .empty

end Database

end Polyglot.Sql
