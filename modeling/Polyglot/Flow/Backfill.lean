import Polyglot.Flow.Reconciliation

/-!
Giving every item a text in a language that has become available. Each content type is filled
on its own: a failure is entered for that type and the others still run. A reconciliation of
every type follows, for base texts that were edited meanwhile.
-/

namespace Polyglot.Backfill

structure Entry where
  created : Nat
  synced : Nat
  failed : Bool
  itemFailures : Nat
  /-- What stopped the type before its first item, if anything did. -/
  error : Option Error
deriving DecidableEq

def Entry.zero : Entry := ⟨0, 0, false, 0, none⟩

/-- Why a backfill does nothing. -/
inductive Refusal where
  | languageInactive
  | languageUnknown
  | baseUnresolved
  | lookup (e : Error)
deriving DecidableEq

def Refusal.message : Refusal → String
  | .languageInactive => "language is not active"
  | .languageUnknown => "language not found"
  | .baseUnresolved => "base language could not be resolved"
  | .lookup e => e.message

structure Summary where
  code : String
  aborted : Option Refusal
  entries : SortedMap String Entry
deriving DecidableEq

def Summary.totalCreated (s : Summary) : Nat :=
  s.entries.values.foldl (fun sum entry => sum + entry.created) 0

def Summary.anyFailed (s : Summary) : Bool :=
  s.aborted.isSome || s.entries.values.any (·.failed)

/-- Gives one item its text in the new language, if it lacks one and has a base text. -/
def fillItem (language base : LanguageId) (actor : Actor) (item : ItemId) : Attempt Nat := do
  let records ← Flow.records item
  if records.any (·.language = language) then return 0
  else
    match records.find? (·.language = base) with
    | none => return 0
    | some baseRecord => Copies.fillGaps item records [language] baseRecord.text actor

def Entry.enter (t : Entry) : Except Error Nat → Entry
  | .ok created => { t with created := t.created + created }
  | .error _ => { t with itemFailures := t.itemFailures + 1 }

def fillItems (language base : LanguageId) (actor : Actor) : List ItemId → Entry → Flow Entry
  | [], entry => pure entry
  | item :: rest, entry => do
      let outcome ← (fillItem language base actor item).run
      fillItems language base actor rest (entry.enter outcome)

def fill (language base : LanguageId) (actor : Actor) : Flow Entry := do
  match ← Flow.items.run with
  | .error e => return { Entry.zero with error := some e, failed := true }
  | .ok items =>
      let entry ← fillItems language base actor items .zero
      return { entry with failed := decide (0 < entry.itemFailures) }

def Entry.conclude (t : Entry) (r : Reconciliation.Report) : Entry :=
  { t with
    synced := t.synced + r.synced
    created := t.created + r.created
    failed := t.failed || !r.isClean }

def resolve (code : String) : Service (Except Refusal (LanguageId × LanguageId)) := do
  match ← Program.query (A := Call.Reply) (.directory (.byCode code)) with
  | .error e => return .error (.lookup e)
  | .ok none => return .error .languageUnknown
  | .ok (some language) =>
      if !language.available then return .error .languageInactive
      else
        match ← Program.query (A := Call.Reply) (.directory .base) with
        | .error e => return .error (.lookup e)
        | .ok none => return .error .baseUnresolved
        | .ok (some base) => return .ok (language.id, base.id)

def fillTypes (language base : LanguageId) (actor : Actor) :
    List String → SortedMap String Entry → Service (SortedMap String Entry)
  | [], entries => pure entries
  | type :: rest, entries => do
      let entry ← (fill language base actor).on type
      fillTypes language base actor rest (entries.insert type entry)

def concludeTypes (actor : Actor) :
    List String → SortedMap String Entry → Metrics →
      Service (SortedMap String Entry × Metrics)
  | [], entries, metrics => pure (entries, metrics)
  | type :: rest, entries, metrics => do
      let pass ← (Reconciliation.run type actor).on type
      let entry := ((entries.get? type).getD .zero).conclude pass.report
      concludeTypes actor rest (entries.insert type entry) (metrics + pass.metrics)

/-- Fills every content type in the language of `code`. The second component is what the run
adds to the counters. -/
def run (types : List String) (actor : Actor) (code : String) : Service (Summary × Metrics) := do
  let metrics := Metrics.zero.countBackfillRun
  match ← resolve code with
  | .error refusal => return ({ code, aborted := some refusal, entries := .empty }, metrics)
  | .ok (language, base) =>
      let entries ← fillTypes language base actor types .empty
      let (entries, metrics) ← concludeTypes actor types entries metrics
      return ({ code, aborted := none, entries }, metrics)

end Polyglot.Backfill
