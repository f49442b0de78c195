import Polyglot.Error
import Polyglot.Program

/-!
What a flow may ask of a store: language look-ups, and the operations on one content type's
items and records. Every question can fail.
-/

namespace Polyglot

inductive Lookup where
  | byCode (code : String)
  | byId (id : LanguageId)
  | active
  | base
deriving DecidableEq

@[reducible] def Lookup.Answer : Lookup → Type
  | .byCode _ => Option Language
  | .byId _ => Option Language
  | .active => List Language
  | .base => Option Language

inductive Query where
  | language (l : Lookup)
  | items
  /-- Whether an item is there and not deleted. -/
  | hasItem (item : ItemId)
  | records (item : ItemId)
  /-- Inserts every draft or none. -/
  | insert (item : ItemId) (drafts : List Draft) (actor : Actor)
  /-- Writes a text only while the record follows; the answer says whether it was written. -/
  | overwriteCopy (record : RecordId) (text : Text) (actor : Actor)
  /-- Writes a text and the flag together, whatever they were. -/
  | write (record : RecordId) (text : Text) (follows : Bool) (actor : Actor)
deriving DecidableEq

@[reducible] def Query.Answer : Query → Type
  | .language l => l.Answer
  | .items => List ItemId
  | .hasItem _ => Bool
  | .records _ => List Record
  | .insert .. => Unit
  | .overwriteCopy .. => Bool
  | .write .. => Unit

abbrev Query.Reply (q : Query) : Type := Except Error q.Answer

abbrev Flow := Program Query Query.Reply

abbrev Attempt := ExceptT Error Flow

namespace Flow

def demand (q : Query) : Attempt q.Answer :=
  ExceptT.mk (Program.query (A := Query.Reply) q)

def items : Attempt (List ItemId) := demand .items

def hasItem (item : ItemId) : Attempt Bool := demand (.hasItem item)

def records (item : ItemId) : Attempt (List Record) := demand (.records item)

def insert (item : ItemId) (drafts : List Draft) (actor : Actor) : Attempt Unit :=
  demand (.insert item drafts actor)

def overwriteCopy (record : RecordId) (text : Text) (actor : Actor) : Attempt Bool :=
  demand (.overwriteCopy record text actor)

def write (record : RecordId) (text : Text) (follows : Bool) (actor : Actor) : Attempt Unit :=
  demand (.write record text follows actor)

def languageById (id : LanguageId) : Attempt (Option Language) :=
  demand (.language (.byId id))

def activeLanguages : Attempt (List Language) := demand (.language .active)

def baseLanguage : Attempt (Option Language) := demand (.language .base)

section Run

variable {α β : Type}

def onward (f : α → Attempt β) : Except Error α → Flow (Except Error β)
  | .ok a => (f a).run
  | .error e => .done (.error e)

@[simp] theorem onward_ok (f : α → Attempt β) (a : α) : onward f (.ok a) = (f a).run := rfl

@[simp] theorem onward_error (f : α → Attempt β) (e : Error) :
    onward f (.error e) = .done (.error e) := rfl

theorem run_demand_bind (q : Query) (f : q.Answer → Attempt β) :
    (demand q >>= f).run = Program.ask q (onward f) := by
  simp only [demand, Program.query, ExceptT.run_bind, ExceptT.run_mk, Program.ask_bind,
    Program.done_bind]
  congr 1
  funext reply
  cases reply <;> rfl

@[simp] theorem run_items_bind (f : List ItemId → Attempt β) :
    (items >>= f).run = .ask .items (onward f) :=
  run_demand_bind .items f

@[simp] theorem run_hasItem_bind (item : ItemId) (f : Bool → Attempt β) :
    (hasItem item >>= f).run = .ask (.hasItem item) (onward f) :=
  run_demand_bind (.hasItem item) f

@[simp] theorem run_records_bind (item : ItemId) (f : List Record → Attempt β) :
    (records item >>= f).run = .ask (.records item) (onward f) :=
  run_demand_bind (.records item) f

@[simp] theorem run_insert_bind (item : ItemId) (drafts : List Draft) (actor : Actor)
    (f : Unit → Attempt β) :
    (insert item drafts actor >>= f).run = .ask (.insert item drafts actor) (onward f) :=
  run_demand_bind (.insert item drafts actor) f

@[simp] theorem run_overwriteCopy_bind (id : RecordId) (text : Text) (actor : Actor)
    (f : Bool → Attempt β) :
    (overwriteCopy id text actor >>= f).run = .ask (.overwriteCopy id text actor) (onward f) :=
  run_demand_bind (.overwriteCopy id text actor) f

@[simp] theorem run_write_bind (id : RecordId) (text : Text) (follows : Bool) (actor : Actor)
    (f : Unit → Attempt β) :
    (write id text follows actor >>= f).run = .ask (.write id text follows actor) (onward f) :=
  run_demand_bind (.write id text follows actor) f

@[simp] theorem run_languageById_bind (id : LanguageId) (f : Option Language → Attempt β) :
    (languageById id >>= f).run = .ask (.language (.byId id)) (onward f) :=
  run_demand_bind (.language (.byId id)) f

@[simp] theorem run_activeLanguages_bind (f : List Language → Attempt β) :
    (activeLanguages >>= f).run = .ask (.language .active) (onward f) :=
  run_demand_bind (.language .active) f

@[simp] theorem run_baseLanguage_bind (f : Option Language → Attempt β) :
    (baseLanguage >>= f).run = .ask (.language .base) (onward f) :=
  run_demand_bind (.language .base) f

@[simp] theorem run_items :
    items.run = Program.query (A := Query.Reply) .items := rfl

@[simp] theorem run_hasItem (item : ItemId) :
    (hasItem item).run = Program.query (A := Query.Reply) (.hasItem item) := rfl

@[simp] theorem run_records (item : ItemId) :
    (records item).run = Program.query (A := Query.Reply) (.records item) := rfl

@[simp] theorem run_overwriteCopy (id : RecordId) (text : Text) (actor : Actor) :
    (overwriteCopy id text actor).run =
      Program.query (A := Query.Reply) (.overwriteCopy id text actor) := rfl

@[simp] theorem run_baseLanguage :
    baseLanguage.run = Program.query (A := Query.Reply) (.language .base) := rfl

end Run

end Flow

/-- A question with its addressee: the shared directory, or the store of a content type. -/
inductive Call where
  | directory (l : Lookup)
  | content (type : String) (q : Query)
deriving DecidableEq

@[reducible] def Call.Reply : Call → Type
  | .directory l => Except Error l.Answer
  | .content _ q => q.Reply

abbrev Service := Program Call Call.Reply

/-- What answers the calls of a service: a reply, or nothing if the call never returns. -/
abbrev Backend (σ : Type) := (c : Call) → σ → Option c.Reply × σ

def Flow.on {α : Type} (type : String) (f : Flow α) : Service α :=
  f.through fun q => Program.query (A := Call.Reply) (.content type q)

end Polyglot
