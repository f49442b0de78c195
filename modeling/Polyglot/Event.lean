import Polyglot.Record

namespace Polyglot

/-- The news that the base text of an item was edited. -/
structure Event where
  contentType : String
  item : ItemId
  language : LanguageId
  text : Text
  actor : Actor
deriving DecidableEq

end Polyglot
