import Polyglot.Flow.Copies
import Polyglot.Repeat

namespace Polyglot

inductive BaseChoice where
  | configured
  | firstSupplied
deriving DecidableEq

namespace Creation

structure Report where
  given : Nat
  derived : Nat
  base : LanguageId
deriving DecidableEq

def repeatedLanguage (inputs : List Submission) : Option LanguageId :=
  firstRepeat [] (inputs.map (·.language))

/-- The text that copies are made of: the one in the base language, else the first. -/
def chooseBase (inputs : List Submission) (base : Option Language) :
    Option (Submission × BaseChoice) :=
  match base.bind fun b => inputs.find? (·.language = b.id) with
  | some input => some (input, .configured)
  | none => inputs.head?.map (·, .firstSupplied)

/-- The available languages for which nothing is supplied, in the order of the list. -/
def remaining (active : List Language) (supplied : List LanguageId) : List Language :=
  active.filter fun l => l.available && l.id ∉ supplied

def requireLanguages : List LanguageId → Attempt Unit
  | [] => pure ()
  | id :: rest => do
      match ← Flow.languageById id with
      | none => throw (.notFound .language (toString id))
      | some _ => requireLanguages rest

/-- Adds the copies in `targets`, as far as the item has no records there by now. -/
def derive (item : ItemId) (targets : List LanguageId) (text : Text) (actor : Actor) :
    Attempt Nat :=
  match targets with
  | [] => pure 0
  | _ :: _ => do Copies.fillGaps item (← Flow.records item) targets text actor

def writeBatches (item : ItemId) (inputs : List Submission) (active : List Language)
    (base : Submission) (actor : Actor) : Attempt Report := do
  Flow.insert item (inputs.map (·.draft)) actor
  let targets := (remaining active (inputs.map (·.language))).map (·.id)
  let derived ← derive item targets base.text actor
  return { given := inputs.length, derived, base := base.language }

/-- Writes the texts of an item that has none. All checks and look-ups come before the first write.
The two batches are separate: when the second one fails, the first one stays. -/
def create (item : ItemId) (inputs : List Submission) (actor : Actor) : Attempt Report :=
  match inputs, repeatedLanguage inputs with
  | [], _ => throw (.invalid .noTexts)
  | _ :: _, some language => throw (.invalid (.repeatedLanguage language))
  | first :: _, none => do
      requireLanguages (inputs.map (·.language))
      let configured ← Flow.baseLanguage
      let active ← Flow.activeLanguages
      let (base, _) := (chooseBase inputs configured).getD (first, .firstSupplied)
      writeBatches item inputs active base actor

end Creation

end Polyglot
