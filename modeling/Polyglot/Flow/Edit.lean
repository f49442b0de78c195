import Polyglot.Event
import Polyglot.Flow.Query

namespace Polyglot.Edit

structure Report where
  record : RecordId
  published : Bool
deriving DecidableEq

def load (item : ItemId) (language : LanguageId) : Attempt (List Record × Record) := do
  match ← Flow.hasItem item with
  | false => throw (.noItem item)
  | true =>
      let records ← Flow.records item
      match records.find? (·.language = language) with
      | none => throw (.noRecordIn item language)
      | some record => return (records, record)

/-- Writes an editor's text and pins the record. The second component is the event to publish. -/
def edit (contentType : String) (item : ItemId) (language : LanguageId) (text : Text)
    (actor : Actor) : Attempt (Report × Option Event) :=
  if text.isEmpty then throw (.invalid .emptyText)
  else do
    let (_, record) ← load item language
    let base ← Flow.baseLanguage
    Flow.write record.id text false actor
    let event :=
      if base.any (·.id = language) then some { contentType, item, language, text, actor }
      else none
    return ({ record := record.id, published := event.isSome }, event)

/-- Resets a record to the base text and lets it follow again. -/
def unpin (item : ItemId) (language : LanguageId) (actor : Actor) : Attempt RecordId := do
  match ← Flow.baseLanguage with
  | none => throw .noBaseLanguage
  | some base =>
      if base.id = language then throw (.invalid .baseCannotFollow)
      else do
        let (records, record) ← load item language
        match records.find? (·.language = base.id) with
        | none => throw (.noBaseRecord item base.id)
        | some baseRecord =>
            Flow.write record.id baseRecord.text true actor
            return record.id

end Polyglot.Edit
