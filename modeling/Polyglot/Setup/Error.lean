namespace Polyglot

/-- What is wrong with the layout of a content type. -/
inductive Flaw where
  | badName (role name : String)
  | noFields
  | badField (field : String)
  | managedField (field : String)
  | repeatedField (field : String)
deriving DecidableEq

def Flaw.message : Flaw → String
  | .badName role name => s!"invalid {role} '{name}'"
  | .noFields => "at least one text field is required"
  | .badField field => s!"invalid text field '{field}'"
  | .managedField field => s!"text field '{field}' clashes with a managed column"
  | .repeatedField field => s!"text field '{field}' listed twice"

inductive SetupError where
  | noDatabaseUrl
  | blankBaseCode
  | intervalOutOfRange (minutes : Nat)
  | unreadableFile (path : String)
  | malformedFile (path : String)
  | blankName
  | flawed (name : String) (flaw : Flaw)
  | repeatedType (name : String)
  | unregistered (name : String)
  | unreachableDatabase
  | noInterval
  | intervalOverDay (minutes : Nat)
  | unevenInterval (minutes : Nat)
deriving DecidableEq

def SetupError.message : SetupError → String
  | .noDatabaseUrl => "DATABASE_URL not set"
  | .blankBaseCode => "BASE_LANGUAGE_CODE must not be empty"
  | .intervalOutOfRange minutes =>
      s!"RECONCILE_INTERVAL_MINUTES must be between 1 and 1440, got {minutes}"
  | .unreadableFile path => s!"Failed to read content types file {path}"
  | .malformedFile path => s!"Failed to parse content types file {path}"
  | .blankName => "Content type name must not be empty"
  | .flawed name flaw => s!"{name}: {flaw.message}"
  | .repeatedType name => s!"Content type '{name}' defined twice"
  | .unregistered name => s!"Failed to register content type {name}"
  | .unreachableDatabase => "Failed to connect to PostgreSQL"
  | .noInterval => "Reconcile interval must be at least 1 minute"
  | .intervalOverDay minutes => s!"Reconcile interval {minutes} exceeds one day"
  | .unevenInterval minutes =>
      s!"Reconcile interval {minutes} must be under an hour or a whole number of hours"

end Polyglot
