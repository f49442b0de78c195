/-!
The few forms of SQL statements that are needed, as trees, with the text that each is sent as.
A statement is written out as tokens first: words, and single characters between them.
-/

namespace Polyglot.Sql

inductive Operand where
  /-- A parameter by its number, from 1. -/
  | parameter (n : Nat)
  | yes
  | now
deriving DecidableEq

inductive Condition where
  | equals (column : String) (operand : Operand)
  | isNull (column : String)
deriving DecidableEq

/-- A column of a result, perhaps under another name. -/
structure Output where
  column : String
  newName : Option String
deriving DecidableEq

inductive Statement where
  | select (outputs : List Output) (table : String) (conditions : List Condition)
      (order : Option String)
  /-- Whether any row of the table meets the conditions. -/
  | anyRow (table : String) (conditions : List Condition)
  | insert (table : String) (columns : List String) (rows : List (List Operand))
  | update (table : String) (assignments : List (String × Operand))
      (conditions : List Condition)
deriving DecidableEq

def Output.of (column : String) : Output := ⟨column, none⟩

def Output.name (o : Output) : String := o.newName.getD o.column

inductive Token where
  | word (w : String)
  | mark (c : Char)
deriving DecidableEq

def Token.text : Token → String
  | .word w => w
  | .mark c => String.singleton c

/-- Words with a space before each. -/
def spaced (words : List String) : List Token :=
  words.flatMap fun w => [.mark ' ', .word w]

/-- The parts with a comma and a space between them. -/
def commaSeparated : List (List Token) → List Token
  | [] => []
  | [part] => part
  | part :: rest => part ++ [.mark ',', .mark ' '] ++ commaSeparated rest

def bracketed (inside : List Token) : List Token := [.mark '('] ++ inside ++ [.mark ')']

def Operand.tokens : Operand → List Token
  | .parameter n => [.mark '$', .word (toString n)]
  | .yes => [.word "true"]
  | .now => [.word "now", .mark '(', .mark ')']

def equation (column : String) (operand : Operand) : List Token :=
  [.word column, .mark ' ', .mark '=', .mark ' '] ++ operand.tokens

def Condition.tokens : Condition → List Token
  | .equals column operand => equation column operand
  | .isNull column => .word column :: spaced ["IS", "NULL"]

def conjunction : List Condition → List Token
  | [] => []
  | [c] => c.tokens
  | c :: rest => c.tokens ++ spaced ["AND"] ++ [.mark ' '] ++ conjunction rest

def whereClause : List Condition → List Token
  | [] => []
  | c :: rest => spaced ["WHERE"] ++ [.mark ' '] ++ conjunction (c :: rest)

def orderClause : Option String → List Token
  | none => []
  | some column => spaced ["ORDER", "BY", column]

def Output.tokens (o : Output) : List Token :=
  match o.newName with
  | none => [.word o.column]
  | some name => .word o.column :: spaced ["AS", name]

namespace Statement

def tokens : Statement → List Token
  | .select outputs table conditions order =>
      [.word "SELECT", .mark ' '] ++ commaSeparated (outputs.map (·.tokens)) ++
        spaced ["FROM", table] ++ whereClause conditions ++ orderClause order
  | .anyRow table conditions =>
      .word "SELECT" :: spaced ["EXISTS"] ++ [.mark ' '] ++
        bracketed (.word "SELECT" :: spaced ["1", "FROM", table] ++ whereClause conditions)
  | .insert table columns rows =>
      .word "INSERT" :: spaced ["INTO", table] ++ [.mark ' '] ++
        bracketed (commaSeparated (columns.map fun c => [.word c])) ++ spaced ["VALUES"] ++
        [.mark ' '] ++
        commaSeparated (rows.map fun row => bracketed (commaSeparated (row.map (·.tokens))))
  | .update table assignments conditions =>
      .word "UPDATE" :: spaced [table, "SET"] ++ [.mark ' '] ++
        commaSeparated (assignments.map fun a => equation a.1 a.2) ++ whereClause conditions

def text (s : Statement) : String := s.tokens.foldl (fun out t => out ++ t.text) ""

def outputNames : Statement → List String
  | .select outputs _ _ _ => outputs.map (·.name)
  | .anyRow _ _ => ["exists"]
  | .insert .. => []
  | .update .. => []

end Statement

end Polyglot.Sql
