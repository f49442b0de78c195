import Polyglot.Error

namespace Polyglot

structure Registry where
  /-- Each name with its minutes between two reconciliations. -/
  entries : List (String × Nat)
deriving DecidableEq

namespace Registry

def empty : Registry := ⟨[]⟩

def names (r : Registry) : List String := r.entries.map (·.1)

def intervals (r : Registry) : List Nat := r.entries.map (·.2)

def size (r : Registry) : Nat := r.entries.length

def isEmpty (r : Registry) : Bool := r.entries.isEmpty

def get? (r : Registry) (name : String) : Option (String × Nat) :=
  r.entries.find? (·.1 = name)

def has (r : Registry) (name : String) : Bool := (r.get? name).isSome

/-- Adds a content type at the end, unless its name is taken. -/
def register (r : Registry) (name : String) (interval : Nat) : Except Error Registry :=
  if r.has name then .error (.invalid (.repeatedContentType name))
  else .ok ⟨r.entries ++ [(name, interval)]⟩

def ofEntries (entries : List (String × Nat)) : Except Error Registry :=
  entries.foldlM (fun r e => r.register e.1 e.2) empty

end Registry

end Polyglot
