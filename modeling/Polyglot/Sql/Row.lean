import Polyglot.Flow.Query

namespace Polyglot.Sql

inductive Value where
  | null
  | bool (b : Bool)
  | int (i : Int)
  | text (s : String)
  | instant (t : Instant)
deriving DecidableEq

abbrev Row := List (String × Value)

/-- A column is missing, is NULL where it cannot be, or holds a value of another kind. -/
def undecodable {α : Type} : Except Error α := .error (.storage .undecodable)

namespace Row

/-- A column that may be NULL. -/
def value (r : Row) (column : String) : Except Error Value :=
  match r.lookup column with
  | some v => .ok v
  | none => undecodable

def int (r : Row) (column : String) : Except Error Int := do
  match ← value r column with
  | .int i => return i
  | _ => undecodable

def bool (r : Row) (column : String) : Except Error Bool := do
  match ← value r column with
  | .bool b => return b
  | _ => undecodable

def text (r : Row) (column : String) : Except Error String := do
  match ← value r column with
  | .text s => return s
  | _ => undecodable

def text? (r : Row) (column : String) : Except Error (Option String) := do
  match ← value r column with
  | .text s => return some s
  | .null => return none
  | _ => undecodable

def instant (r : Row) (column : String) : Except Error Instant := do
  match ← value r column with
  | .instant t => return t
  | _ => undecodable

def instant? (r : Row) (column : String) : Except Error (Option Instant) := do
  match ← value r column with
  | .instant t => return some t
  | .null => return none
  | _ => undecodable

def language (r : Row) : Except Error Language := do
  return {
    id := ← int r "id"
    code := ← text r "code"
    name := ← text r "name"
    active := ← bool r "is_active"
    deleted := (← instant? r "deleted_at").isSome }

/-- The text of the given columns; a NULL is a field without a value. -/
def fields (r : Row) : List String → Except Error Text
  | [] => .ok .empty
  | column :: rest => do
      let value ← text? r column
      let others ← fields r rest
      match value with
      | some s => return others.insert column s
      | none => return others

def record (columns : List String) (r : Row) : Except Error Record := do
  return {
    text := ← fields r columns
    id := ← int r "id"
    item := ← int r "content_id"
    language := ← int r "language_id"
    follows := ← bool r "is_synced"
    createdBy := ← text r "created_by"
    updatedBy := ← text r "updated_by"
    createdAt := ← instant r "created_at"
    updatedAt := ← instant r "updated_at" }

end Row

end Polyglot.Sql
