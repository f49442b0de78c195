namespace Polyglot

abbrev LanguageId := Int

structure Language where
  id : LanguageId
  code : String
  name : String
  active : Bool
  deleted : Bool
deriving DecidableEq

/-- Whether texts are kept up in this language. -/
def Language.available (l : Language) : Bool := l.active && !l.deleted

structure Directory where
  languages : List Language
  baseCode : String
deriving DecidableEq

namespace Directory

def withBase (code : String) : Directory := ⟨[], code⟩

def place (l : Language) : List Language → List Language
  | [] => [l]
  | m :: rest => if l.id < m.id then l :: m :: rest else m :: place l rest

/-- Adds a language, in the place of the one with its id if there is one. -/
def upsert (d : Directory) (l : Language) : Directory :=
  { d with languages := place l (d.languages.filter (·.id ≠ l.id)) }

def switch (code : String) (active : Bool) : List Language → List Language
  | [] => []
  | l :: rest => if l.code = code then { l with active } :: rest else l :: switch code active rest

/-- Switches a language on or off; the answer says whether the code is known. -/
def setActive (d : Directory) (code : String) (active : Bool) : Bool × Directory :=
  if d.languages.any (·.code = code) then
    (true, { d with languages := switch code active d.languages })
  else (false, d)

def setBaseCode (d : Directory) (code : String) : Directory := { d with baseCode := code }

/-- The language of a code. Deleted languages are absent. -/
def byCode (d : Directory) (code : String) : Option Language :=
  d.languages.find? fun l => l.code = code && !l.deleted

def byId (d : Directory) (id : LanguageId) : Option Language :=
  d.languages.find? fun l => l.id = id && !l.deleted

def active (d : Directory) : List Language := d.languages.filter (·.available)

def base (d : Directory) : Option Language :=
  d.languages.find? fun l => l.code = d.baseCode && l.available

theorem id_mem_active {d : Directory} {code : String} {language : Language}
    (hcode : d.byCode code = some language) (havailable : language.available = true) :
    language.id ∈ d.active.map (·.id) := by
  refine List.mem_map_of_mem (List.mem_filter.mpr ⟨List.mem_of_find?_eq_some hcode, ?_⟩)
  exact havailable

end Directory

end Polyglot
