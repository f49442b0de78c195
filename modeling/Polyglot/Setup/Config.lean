import Polyglot.Setup.Layout

namespace Polyglot

structure Config where
  databaseUrl : String
  baseCode : String
  /-- Minutes between two reconciliations of a content type. -/
  interval : Nat
  layoutsPath : Option String
  actor : String
  adminKey : Option String
  listenOn : Nat
deriving DecidableEq

/-- A decimal number below `bound`, perhaps with a plus sign before it. -/
def readUnsigned (bound : Nat) (s : String) : Option Nat :=
  let digits :=
    match s.toList with
    | '+' :: rest => rest
    | cs => cs
  if digits.isEmpty || !digits.all Char.isDigit then none
  else
    let value := digits.foldl (fun n c => n * 10 + (c.toNat - '0'.toNat)) 0
    if value < bound then some value else none

namespace Config

def defaultInterval : Nat := 60

def read (env : String → Option String) : Except SetupError Config := do
  let filled (name : String) := (env name).filter (!isBlank ·)
  match env "DATABASE_URL" with
  | none => .error .noDatabaseUrl
  | some databaseUrl =>
      return {
        databaseUrl
        baseCode := (env "BASE_LANGUAGE_CODE").getD "ko"
        interval :=
          ((env "RECONCILE_INTERVAL_MINUTES").bind (readUnsigned 0x100000000)).getD defaultInterval
        layoutsPath := filled "CONTENT_TYPES_FILE"
        actor := (env "SYSTEM_ACTOR").getD "system"
        adminKey := filled "ADMIN_API_KEY"
        listenOn := ((env "PORT").bind (readUnsigned 0x10000)).getD 8080 }

def validate (c : Config) : Except SetupError Unit :=
  if isBlank c.baseCode then .error .blankBaseCode
  else if 1 ≤ c.interval ∧ c.interval ≤ 1440 then .ok ()
  else .error (.intervalOutOfRange c.interval)

def ofEnvironment (env : String → Option String) : Except SetupError Config := do
  let c ← read env
  c.validate
  return c

def layouts (c : Config) (read : String → Option String) : Except SetupError (List Layout) :=
  Layout.load read c.layoutsPath

def intervalFor (c : Config) (l : Layout) : Nat := l.interval.getD c.interval

/-- The entries of the registry that a configuration asks for. -/
def entries (c : Config) (layouts : List Layout) : List (String × Nat) :=
  layouts.map fun l => (l.name, c.intervalFor l)

end Config

end Polyglot
