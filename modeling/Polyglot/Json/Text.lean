import Polyglot.Json.Value
import Polyglot.Record

namespace Polyglot

/-- A text is an object of strings; of members with one name the last counts. -/
def Text.ofJson? (j : Json) : Option Text := do
  let members ← j.object?
  let pairs ← members.mapM fun
    | (.text name, .string (.text value)) => some (name, value)
    | _ => none
  return .ofList pairs

def Text.toJson (t : Text) : Json :=
  .ofMembers (t.entries.map fun e => (e.1, .ofString e.2))

def Submission.ofJson? (j : Json) : Option Submission := do
  match ← j.fields? ["language_id", "fields"] with
  | [some language, some text] =>
      return { language := ← language.int64?, text := ← Text.ofJson? text }
  | _ => none

def Submission.listOfJson? (j : Json) : Option (List Submission) := do
  (← j.array?).mapM Submission.ofJson?

end Polyglot
