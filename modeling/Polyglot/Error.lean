import Polyglot.Record

namespace Polyglot

inductive Entity where
  | language
  | baseLanguage
  | item
  | record
  | baseRecord
  | contentType
deriving DecidableEq

def Entity.noun : Entity → String
  | .language => "language"
  | .baseLanguage => "base language"
  | .item => "content item"
  | .record => "translation"
  | .baseRecord => "base translation"
  | .contentType => "content type"

inductive Invalid where
  | noTexts
  | repeatedLanguage (language : LanguageId)
  | emptyText
  | baseCannotFollow
  | repeatedContentType (name : String)
  | unknownField (contentType field : String)
  | other (text : String)
deriving DecidableEq

def Invalid.message : Invalid → String
  | .noTexts => "at least one translation is required"
  | .repeatedLanguage language => s!"language {language} supplied more than once"
  | .emptyText => "no fields to write"
  | .baseCannotFollow => "the base translation cannot be auto-synced"
  | .repeatedContentType name => s!"content type '{name}' registered twice"
  | .unknownField contentType field => s!"{contentType} has no text field '{field}'"
  | .other text => text

inductive StorageFault where
  | listing (contentType : String)
  | insert (contentType : String)
  | write (record : RecordId)
  | duplicate (item : ItemId) (language : LanguageId)
  | database (text : String)
  | undecodable
  | other (text : String)
deriving DecidableEq

def StorageFault.message : StorageFault → String
  | .listing contentType => s!"{contentType}: simulated listing failure"
  | .insert contentType => s!"{contentType}: simulated insert failure"
  | .write record => s!"simulated write failure for translation {record}"
  | .duplicate item language => s!"duplicate translation for content {item} language {language}"
  | .database text => s!"error returned from database: {text}"
  | .undecodable => "decode"
  | .other text => text

inductive Error where
  | invalid (cause : Invalid)
  | notFound (entity : Entity) (key : String)
  | storage (cause : StorageFault)
deriving DecidableEq

namespace Error

def message : Error → String
  | .invalid cause => s!"validation failed: {cause.message}"
  | .notFound entity key => s!"{entity.noun} not found: {key}"
  | .storage cause => s!"storage error: {cause.message}"

def isNotFound : Error → Bool
  | .notFound .. => true
  | _ => false

def noRecord (id : RecordId) : Error := .notFound .record (toString id)

def noItem (id : ItemId) : Error := .notFound .item (toString id)

def noRecordIn (item : ItemId) (language : LanguageId) : Error :=
  .notFound .record s!"{item}/{language}"

def noBaseRecord (item : ItemId) (base : LanguageId) : Error :=
  .notFound .baseRecord s!"{item}/{base}"

/-- The configured base language is missing or not available. -/
def noBaseLanguage : Error := .notFound .baseLanguage "configured code"

end Error

end Polyglot
