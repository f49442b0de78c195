import Polyglot.Language
import Polyglot.SortedMap

/-!
The texts of content items. An item has at most one record per language. A record either
follows the base text of its item or is pinned: its text is the caller's own.
-/

namespace Polyglot

abbrev ItemId := Int
abbrev RecordId := Int

abbrev Actor := String

abbrev Instant := Nat

/-- The named fields of one text. A field without a value has no entry. -/
abbrev Text := SortedMap String String

structure Record where
  id : RecordId
  item : ItemId
  language : LanguageId
  text : Text
  /-- The record is a copy that follows the base text; otherwise it is pinned. -/
  follows : Bool
  createdBy : Actor
  updatedBy : Actor
  createdAt : Instant
  updatedAt : Instant
deriving DecidableEq

structure Draft where
  language : LanguageId
  text : Text
  follows : Bool
deriving DecidableEq

def Draft.pinned (language : LanguageId) (text : Text) : Draft := ⟨language, text, false⟩

def Draft.copy (language : LanguageId) (text : Text) : Draft := ⟨language, text, true⟩

def Draft.record (d : Draft) (item : ItemId) (actor : Actor) (now : Instant) (id : RecordId) :
    Record :=
  { id, item, language := d.language, text := d.text, follows := d.follows
    createdBy := actor, updatedBy := actor, createdAt := now, updatedAt := now }

/-- A text that a caller supplies for one language of a new item. -/
structure Submission where
  language : LanguageId
  text : Text
deriving DecidableEq

def Submission.draft (s : Submission) : Draft := .pinned s.language s.text

end Polyglot
