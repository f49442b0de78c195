import Polyglot.Proofs.Sql.Columns
import Polyglot.Sql.Database

namespace Polyglot

namespace Sql

def placeholders : List Token → List String
  | .mark '$' :: .word w :: rest => w :: placeholders rest
  | _ :: rest => placeholders rest
  | [] => []

def Operand.numbers : Operand → List Nat
  | .parameter n => [n]
  | _ => []

def Condition.numbers : Condition → List Nat
  | .equals _ operand => operand.numbers
  | .isNull _ => []

namespace Statement

/-- The numbers of the parameters that a statement refers to, in the order of its text. -/
def numbers : Statement → List Nat
  | .select _ _ conditions _ => conditions.flatMap (·.numbers)
  | .anyRow _ conditions => conditions.flatMap (·.numbers)
  | .insert _ _ rows => rows.flatMap (·.flatMap (·.numbers))
  | .update _ assignments conditions =>
      assignments.flatMap (·.2.numbers) ++ conditions.flatMap (·.numbers)

def assignments : Statement → List (String × Operand)
  | .update _ assignments _ => assignments
  | _ => []

def conditions : Statement → List Condition
  | .select _ _ conditions _ => conditions
  | .anyRow _ conditions => conditions
  | .insert .. => []
  | .update _ _ conditions => conditions

/-- What the columns of the new rows are filled with. -/
def newRows : Statement → List (List Operand)
  | .insert _ _ rows => rows
  | _ => []

end Statement

/-- The tokens refer to these parameters, whatever follows them. -/
def Refers (tokens : List Token) (numbers : List Nat) : Prop :=
  ∀ rest, placeholders (tokens ++ rest) = numbers.map toString ++ placeholders rest

namespace Refers

variable {tokens tokens' : List Token} {numbers numbers' : List Nat} {α : Type}
  {f : α → List Token} {g : α → List Nat}

theorem append (h : Refers tokens numbers) (h' : Refers tokens' numbers') :
    Refers (tokens ++ tokens') (numbers ++ numbers') := by
  intro rest
  rw [List.append_assoc, h, h', List.map_append, List.append_assoc]

theorem plain (h : Token.mark '$' ∉ tokens) : Refers tokens [] := by
  intro rest
  induction tokens with
  | nil => rfl
  | cons t tokens ih =>
      have hfirst : Token.mark '$' ≠ t := List.ne_of_not_mem_cons h
      have hlater : Token.mark '$' ∉ tokens := List.not_mem_of_not_mem_cons h
      have hskip : placeholders (t :: (tokens ++ rest)) = placeholders (tokens ++ rest) := by
        match t, hfirst with
        | .word w, _ => rfl
        | .mark c, hfirst =>
            rw [placeholders]
            exact fun _ _ heq _ => hfirst heq.symm
      rw [List.cons_append, hskip, ih hlater]

theorem of_eq (h : Refers tokens numbers) (heq : numbers = numbers') : Refers tokens numbers' :=
  heq ▸ h

theorem word (w : String) : Refers [.word w] [] := plain (by simp)

theorem space : Refers [.mark ' '] [] := plain (by decide)

theorem comma : Refers [.mark ',', .mark ' '] [] := plain (by decide)

theorem spaced (words : List String) : Refers (spaced words) [] :=
  plain (by simp [Sql.spaced])

theorem operand (o : Operand) : Refers o.tokens o.numbers := by
  cases o with
  | parameter n => exact fun rest => rfl
  | yes => exact plain (by decide)
  | now => exact plain (by decide)

theorem equation (column : String) (o : Operand) : Refers (equation column o) o.numbers :=
  (plain (by simp)).append (operand o)

theorem condition (c : Condition) : Refers c.tokens c.numbers := by
  cases c with
  | equals column o => exact equation column o
  | isNull column => exact (word column).append (spaced _)

theorem commaSeparated (h : ∀ a, Refers (f a) (g a)) (as : List α) :
    Refers (commaSeparated (as.map f)) (as.flatMap g) := by
  induction as with
  | nil => exact plain (by simp [Sql.commaSeparated])
  | cons a rest ih =>
      cases rest with
      | nil => simpa [Sql.commaSeparated] using h a
      | cons b rest => exact of_eq (((h a).append comma).append ih) (by simp)

theorem conjunction (cs : List Condition) :
    Refers (conjunction cs) (cs.flatMap (·.numbers)) := by
  induction cs with
  | nil => exact plain (by simp [Sql.conjunction])
  | cons c rest ih =>
      cases rest with
      | nil => simpa [Sql.conjunction] using condition c
      | cons d rest =>
          exact of_eq ((((condition c).append (spaced ["AND"])).append space).append ih) (by simp)

theorem whereClause (cs : List Condition) :
    Refers (whereClause cs) (cs.flatMap (·.numbers)) := by
  cases cs with
  | nil => exact plain (by simp [Sql.whereClause])
  | cons c rest => exact ((spaced _).append space).append (conjunction (c :: rest))

theorem output (o : Output) : Refers o.tokens [] := by
  rw [Output.tokens]
  cases o.newName with
  | none => exact word o.column
  | some name => exact (word o.column).append (spaced _)

theorem orderClause (order : Option String) : Refers (orderClause order) [] := by
  cases order with
  | none => exact plain (by simp [Sql.orderClause])
  | some column => exact spaced _

theorem bracketed (h : Refers tokens numbers) : Refers (bracketed tokens) numbers := by
  have hclosed := ((plain (by decide) : Refers [.mark '('] []).append h).append
    (plain (by decide) : Refers [.mark ')'] [])
  rwa [List.nil_append, List.append_nil] at hclosed

/-- The numbers of a statement are those in its text. -/
theorem statement (s : Statement) : Refers s.tokens s.numbers := by
  cases s with
  | select outputs table conditions order =>
      have houtputs := (plain (by decide) : Refers [.word "SELECT", .mark ' '] []).append
        (commaSeparated output outputs)
      refine of_eq (((houtputs.append (spaced ["FROM", table])).append
        (whereClause conditions)).append (orderClause order)) ?_
      simp [Statement.numbers]
  | anyRow table conditions =>
      have hinside := ((word "SELECT").append (spaced ["1", "FROM", table])).append
        (whereClause conditions)
      refine of_eq ((((word "SELECT").append (spaced ["EXISTS"])).append space).append
        (bracketed hinside)) ?_
      simp [Statement.numbers]
  | insert table columns rows =>
      have hcolumns := bracketed (commaSeparated word columns)
      have hrows := commaSeparated (fun row => bracketed (commaSeparated operand row)) rows
      refine of_eq (((((((word "INSERT").append (spaced ["INTO", table])).append space).append
        hcolumns).append (spaced ["VALUES"])).append space).append hrows) ?_
      simp [Statement.numbers]
  | update table assignments conditions =>
      have hassignments := commaSeparated (fun a : String × Operand => equation a.1 a.2) assignments
      refine of_eq (((((word "UPDATE").append (spaced [table, "SET"])).append space).append
        hassignments).append (whereClause conditions)) ?_
      simp [Statement.numbers]

end Refers

theorem placeholders_tokens (s : Statement) :
    placeholders s.tokens = s.numbers.map toString := by
  have hrefers := Refers.statement s []
  rwa [List.append_nil, placeholders, List.append_nil] at hrefers

theorem numbers_assignFrom (first : Nat) (columns : List String) :
    (assignFrom first columns).flatMap (·.2.numbers) = List.range' first columns.length := by
  induction columns generalizing first with
  | nil => rfl
  | cons column rest ih =>
      rw [assignFrom, List.flatMap_cons, ih, List.length_cons, List.range'_succ]
      rfl

theorem getElem?_assignFrom (first : Nat) (columns : List String) (k : Nat) :
    (assignFrom first columns)[k]? = columns[k]?.map fun column =>
      (column, .parameter (first + k)) := by
  induction columns generalizing first k with
  | nil => simp [assignFrom]
  | cons column rest ih =>
      cases k with
      | zero => rfl
      | succ k => simp [assignFrom, ih, Nat.add_assoc, Nat.add_comm 1 k]

@[simp] theorem length_assignFrom (first : Nat) (columns : List String) :
    (assignFrom first columns).length = columns.length := by
  rw [← List.length_map (·.1), map_fst_assignFrom]

theorem assignFrom_append (first : Nat) (columns columns' : List String) :
    assignFrom first (columns ++ columns') =
      assignFrom first columns ++ assignFrom (first + columns.length) columns' := by
  induction columns generalizing first with
  | nil => rfl
  | cons column rest ih =>
      simp [assignFrom, ih, Nat.add_assoc, Nat.add_comm 1 rest.length]

theorem numbers_parameterRows (width first rows : Nat) :
    (parameterRows width first rows).flatMap (·.flatMap (·.numbers)) =
      List.range' first (rows * width) := by
  induction rows generalizing first with
  | zero => simp [parameterRows]
  | succ rows ih =>
      have hrow : ((List.range' first width).map Operand.parameter).flatMap (·.numbers) =
          List.range' first width := by
        simp [List.flatMap_map, Operand.numbers]
      rw [parameterRows, List.flatMap_cons, ih, hrow, Nat.succ_mul, Nat.add_comm (rows * width),
        ← List.range'_append_1]

theorem getElem?_parameterRows (width first rows i : Nat) (h : i < rows) :
    (parameterRows width first rows)[i]? =
      some ((List.range' (first + i * width) width).map .parameter) := by
  induction rows generalizing first i with
  | zero => cases h
  | succ rows ih =>
      cases i with
      | zero => simp [parameterRows]
      | succ i =>
          rw [parameterRows, List.getElem?_cons_succ, ih _ _ (Nat.lt_of_succ_lt_succ h),
            Nat.succ_mul, Nat.add_comm (i * width), Nat.add_assoc]

/-- The number of rows that a statement has changed. -/
def Response.count : Response → Except Error Nat
  | .rows _ => .ok 0
  | .affected n => .ok n
  | .failed text => .error (.storage (.database text))

def Response.table (names : List String) : Response → Except Error (List Row)
  | .rows found => .ok (found.map fun row => names.zip row)
  | .affected _ => .ok []
  | .failed text => .error (.storage (.database text))

/-- The conversation sends this and nothing else. -/
def Sends {α : Type} (p : Conversation α) (x : Exchange) : Prop :=
  ∃ reply : Response → α, p = .ask x fun r => .done (reply r)

section Conversation

variable {α β : Type} {l : Layout} {baseCode : String} {item : ItemId} {id : RecordId}
  {text : Text} {follows : Bool} {drafts : List Draft} {actor : Actor} {x : Exchange}

def proceed (f : α → Dialogue β) : Except Error α → Conversation (Except Error β)
  | .ok a => (f a).run
  | .error e => .done (.error e)

theorem run_decoded_bind (result : Except Error α) (f : α → Dialogue β) :
    (decoded result >>= f).run = proceed f result := by
  cases result <;> rfl

theorem run_execute_bind (x : Exchange) (f : Nat → Dialogue β) :
    (execute x >>= f).run = .ask x fun r => proceed f r.count := by
  refine congrArg (Program.ask x) (funext fun r => ?_)
  cases r <;> rfl

theorem run_fetch_bind (x : Exchange) (f : List Row → Dialogue β) :
    (fetch x >>= f).run = .ask x fun r => proceed f (r.table x.statement.outputNames) := by
  refine congrArg (Program.ask x) (funext fun r => ?_)
  cases r <;> rfl

theorem answer_records (l : Layout) (baseCode : String) (item : ItemId) :
    (answer baseCode l (.records item)).run = .ask ⟨l.selectRecords, [.int item]⟩ fun r =>
      .done (r.table l.selectRecords.outputNames >>= (·.mapM (Row.record l.textFields))) := by
  rw [answer, run_fetch_bind]
  congr 1
  funext r
  cases r.table l.selectRecords.outputNames <;> rfl

theorem answer_insert (hdrafts : drafts ≠ [])
    (h : l.insertExchange item drafts actor = .ok x) :
    (answer baseCode l (.insert item drafts actor)).run = .ask x fun r =>
      .done (r.count.map fun _ => ()) := by
  have hsome : drafts.isEmpty = false := by simpa using hdrafts
  rw [answer, hsome, if_neg Bool.false_ne_true, run_decoded_bind, h, proceed, run_execute_bind]
  congr 1
  funext r
  cases r.count <;> rfl

theorem answer_overwriteCopy (h : l.overwriteExchange id text actor = .ok x) :
    (answer baseCode l (.overwriteCopy id text actor)).run = .ask x fun r =>
      .done (r.count.map fun n => decide (0 < n)) := by
  rw [answer, run_decoded_bind, h, proceed, run_execute_bind]
  congr 1
  funext r
  cases r.count <;> rfl

theorem answer_write (h : l.writeExchange id text follows actor = .ok x) :
    (answer baseCode l (.write id text follows actor)).run = .ask x fun r =>
      .done (r.count >>= fun n => if n = 0 then .error (.noRecord id) else .ok ()) := by
  rw [answer, run_decoded_bind, h, proceed, run_execute_bind]
  congr 1
  funext r
  cases r.count with
  | error e => rfl
  | ok n => cases n <;> rfl

end Conversation

theorem mapM_eq_ok {α β : Type} {f : α → Except Error β} {g : α → β} {as : List α}
    (h : ∀ a ∈ as, f a = .ok (g a)) : as.mapM f = .ok (as.map g) := by
  induction as with
  | nil => rfl
  | cons a rest ih =>
      obtain ⟨ha, hrest⟩ := List.forall_mem_cons.mp h
      rw [List.mapM_cons, ha, ih hrest]
      rfl

/-- The value of a text's field: NULL where it has none. -/
def fieldValue (text : Text) (field : String) : Value :=
  match text.get? field with
  | some value => .text value
  | none => .null

end Sql

def Query.texts : Query → List Text
  | .insert _ drafts _ => drafts.map (·.text)
  | .overwriteCopy _ text _ => [text]
  | .write _ text _ _ => [text]
  | _ => []

namespace Layout

open Sql

variable {l : Layout} {text : Text} {drafts : List Draft} {item : ItemId} {actor : Actor}

/-- The text fields with their values. -/
def fieldSettings (l : Layout) (text : Text) : List (String × Value) :=
  l.textFields.map fun field => (field, fieldValue text field)

def draftSettings (l : Layout) (item : ItemId) (actor : Actor) (d : Draft) :
    List (String × Value) :=
  [(l.foreignKey, .int item), ("language_id", .int d.language)] ++ l.fieldSettings d.text ++
    [("is_synced", .bool d.follows), ("created_by", .text actor), ("updated_by", .text actor)]

/-- The text has this field, for which there is no column. -/
def Unknown (l : Layout) (field : String) (text : Text) : Prop :=
  field ∈ text.keys ∧ field ∉ l.textFields

theorem fieldValues_eq_ok (h : text.keys ⊆ l.textFields) :
    l.fieldValues text = .ok ((l.fieldSettings text).map (·.2)) := by
  have hfind : text.keys.find? (· ∉ l.textFields) = none := by
    simpa using fun field hfield => h hfield
  rw [fieldValues, hfind, fieldSettings, List.map_map]
  rfl

theorem fieldValues_eq_error (h : ¬ text.keys ⊆ l.textFields) :
    ∃ field, l.Unknown field text ∧
      l.fieldValues text = .error (.invalid (.unknownField l.name field)) := by
  cases hfind : text.keys.find? (· ∉ l.textFields) with
  | none =>
      refine absurd (fun field hfield => ?_) h
      simpa using List.find?_eq_none.mp hfind field hfield
  | some field =>
      refine ⟨field, ⟨List.mem_of_find?_eq_some hfind, by simpa using List.find?_some hfind⟩, ?_⟩
      rw [fieldValues, hfind]

theorem draftValues_eq_ok {d : Draft} (h : d.text.keys ⊆ l.textFields) :
    l.draftValues item actor d = .ok ((l.draftSettings item actor d).map (·.2)) := by
  rw [draftValues, fieldValues_eq_ok h, draftSettings, List.map_append, List.map_append]
  rfl

theorem mapM_draftValues_eq_ok (h : ∀ d ∈ drafts, d.text.keys ⊆ l.textFields) :
    drafts.mapM (l.draftValues item actor) =
      .ok (drafts.map fun d => (l.draftSettings item actor d).map (·.2)) :=
  mapM_eq_ok fun d hd => draftValues_eq_ok (h d hd)

theorem mapM_draftValues_eq_error (h : ¬ ∀ d ∈ drafts, d.text.keys ⊆ l.textFields) :
    ∃ d ∈ drafts, ∃ field, l.Unknown field d.text ∧
      drafts.mapM (l.draftValues item actor) =
        .error (.invalid (.unknownField l.name field)) := by
  induction drafts with
  | nil => exact absurd (List.forall_mem_nil _) h
  | cons d rest ih =>
      rw [List.mapM_cons]
      by_cases hd : d.text.keys ⊆ l.textFields
      · have hrest : ¬ ∀ d ∈ rest, d.text.keys ⊆ l.textFields := fun hrest =>
          h (List.forall_mem_cons.mpr ⟨hd, hrest⟩)
        obtain ⟨d', hd', field, hunknown, hmap⟩ := ih hrest
        refine ⟨d', List.mem_cons_of_mem d hd', field, hunknown, ?_⟩
        rw [draftValues_eq_ok hd, hmap]
        rfl
      · obtain ⟨field, hunknown, hvalues⟩ := fieldValues_eq_error hd
        refine ⟨d, List.mem_cons_self, field, hunknown, ?_⟩
        rw [draftValues, hvalues]
        rfl

@[simp] theorem map_fst_fieldSettings (l : Layout) (text : Text) :
    (l.fieldSettings text).map (·.1) = l.textFields := by
  rw [fieldSettings, List.map_map]
  exact List.map_id _

@[simp] theorem length_fieldSettings (l : Layout) (text : Text) :
    (l.fieldSettings text).length = l.textFields.length := List.length_map _

theorem map_fst_draftSettings (l : Layout) (item : ItemId) (actor : Actor) (d : Draft) :
    (l.draftSettings item actor d).map (·.1) = l.insertColumns := by
  simp [draftSettings, insertColumns]

theorem length_insertColumns (l : Layout) :
    l.insertColumns.length = l.textFields.length + 5 := by
  simp [insertColumns]

end Layout

namespace Sql

/-- The exchange sets these columns of the row of an id, each by the parameter that is bound to its
value, and besides them only the time of the change. -/
structure SetsById (settings : List (String × Value)) (id : RecordId) (x : Exchange) : Prop where
  written : x.statement.written = settings.map (·.1) ++ ["updated_at"]
  placeholders : placeholders x.statement.tokens =
    (List.range' 1 (settings.length + 1)).map toString
  bound : x.parameters = settings.map (·.2) ++ [.int id]
  placed : ∀ k column value, settings[k]? = some (column, value) →
    x.statement.assignments[k]? = some (column, Operand.parameter (k + 1)) ∧
      x.parameters[k]? = some value
  tested : Condition.equals "id" (.parameter (settings.length + 1)) ∈ x.statement.conditions

/-- The exchange inserts these rows, each column filled by the parameter that is bound to its
value. -/
structure InsertsRows (columns : List String) (rows : List (List (String × Value)))
    (x : Exchange) : Prop where
  written : x.statement.written = columns
  aligned : ∀ row ∈ rows, row.map (·.1) = columns
  placeholders : placeholders x.statement.tokens =
    (List.range' 1 (rows.length * columns.length)).map toString
  bound : x.parameters = rows.flatMap (·.map (·.2))
  placed : ∀ i row, rows[i]? = some row → ∃ operands, x.statement.newRows[i]? = some operands ∧
    ∀ k column value, row[k]? = some (column, value) →
      operands[k]? = some (Operand.parameter (i * columns.length + k + 1)) ∧
        x.parameters[i * columns.length + k]? = some value

theorem setsById (table : String) (settings : List (String × Value)) (id : RecordId)
    (more : List Condition) (hmore : ∀ c ∈ more, c.numbers = []) :
    SetsById settings id
      ⟨.update table (assignFrom 1 (settings.map (·.1)) ++ [("updated_at", .now)])
        (.equals "id" (.parameter (settings.length + 1)) :: more),
        settings.map (·.2) ++ [.int id]⟩ where
  written := by simp [Statement.written]
  placeholders := by
    have hconditions : (Condition.equals "id" (.parameter (settings.length + 1)) :: more).flatMap
        (·.numbers) = [settings.length + 1] := by
      rw [List.flatMap_cons, List.flatMap_eq_nil_iff.mpr hmore]
      rfl
    rw [placeholders_tokens, Statement.numbers, hconditions, List.flatMap_append,
      numbers_assignFrom, List.length_map, List.range'_1_concat, Nat.add_comm 1]
    simp [Operand.numbers]
  bound := rfl
  placed k column value hk := by
    have hlt : k < settings.length := (List.getElem?_eq_some_iff.mp hk).1
    refine ⟨?_, ?_⟩
    · rw [Statement.assignments, List.getElem?_append_left (by simpa using hlt),
        getElem?_assignFrom, List.getElem?_map, hk, Nat.add_comm k]
      rfl
    · rw [List.getElem?_append_left (by simpa using hlt), List.getElem?_map, hk]
      rfl
  tested := List.mem_cons_self

theorem getElem?_flatten {α : Type} {lists : List (List α)} {width i k : Nat} {list : List α}
    (hwidth : ∀ list ∈ lists, list.length = width) (hi : lists[i]? = some list) (hk : k < width) :
    lists.flatten[i * width + k]? = list[k]? := by
  induction lists generalizing i with
  | nil => simp at hi
  | cons first rest ih =>
      obtain ⟨hfirst, hrest⟩ := List.forall_mem_cons.mp hwidth
      cases i with
      | zero =>
          obtain rfl : first = list := by simpa using hi
          rw [List.flatten_cons, Nat.zero_mul, Nat.zero_add,
            List.getElem?_append_left (by rwa [hfirst])]
      | succ i =>
          rw [List.flatten_cons, List.getElem?_append_right (by rw [hfirst, Nat.succ_mul]; omega),
            ← ih hrest (by simpa using hi), hfirst]
          congr 1
          rw [Nat.succ_mul]
          omega

theorem insertsRows (table : String) {columns : List String}
    {rows : List (List (String × Value))} (h : ∀ row ∈ rows, row.map (·.1) = columns) :
    InsertsRows columns rows
      ⟨.insert table columns (parameterRows columns.length 1 rows.length),
        (rows.map (·.map (·.2))).flatten⟩ where
  written := rfl
  aligned := h
  placeholders := by
    rw [placeholders_tokens, Statement.numbers, numbers_parameterRows]
  bound := rfl
  placed i row hi := by
    have hlength {row : List (String × Value)} (hrow : row ∈ rows) :
        row.length = columns.length := by
      simpa using congrArg List.length (h row hrow)
    have hlt : i < rows.length := (List.getElem?_eq_some_iff.mp hi).1
    refine ⟨_, getElem?_parameterRows columns.length 1 rows.length i hlt, ?_⟩
    intro k column value hk
    have hklt : k < columns.length := by
      rw [← hlength (List.mem_of_getElem? hi)]
      exact (List.getElem?_eq_some_iff.mp hk).1
    refine ⟨?_, ?_⟩
    · rw [List.getElem?_map, List.getElem?_range' hklt]
      simp only [Option.map_some, Nat.one_mul]
      congr 2
      omega
    · have hvalues : ∀ values ∈ rows.map (·.map (·.2)), values.length = columns.length := by
        intro values hvalues
        obtain ⟨row, hrow, rfl⟩ := List.mem_map.mp hvalues
        rw [List.length_map, hlength hrow]
      rw [getElem?_flatten hvalues (by rw [List.getElem?_map, hi]; rfl) hklt, List.getElem?_map, hk]
      rfl

end Sql

namespace Layout

open Sql

variable {l : Layout} {text : Text} {drafts : List Draft} {item : ItemId} {actor : Actor}
  {id : RecordId} {follows : Bool}

theorem overwriteExchange_eq_ok (h : text.keys ⊆ l.textFields) :
    l.overwriteExchange id text actor =
      .ok ⟨l.overwriteRecord, (l.fieldSettings text).map (·.2) ++ [.text actor, .int id]⟩ := by
  rw [overwriteExchange, fieldValues_eq_ok h]
  rfl

theorem writeExchange_eq_ok (h : text.keys ⊆ l.textFields) :
    l.writeExchange id text follows actor =
      .ok ⟨l.writeRecord,
        (l.fieldSettings text).map (·.2) ++ [.bool follows, .text actor, .int id]⟩ := by
  rw [writeExchange, fieldValues_eq_ok h]
  rfl

theorem insertExchange_eq_ok (h : ∀ d ∈ drafts, d.text.keys ⊆ l.textFields) :
    l.insertExchange item drafts actor =
      .ok ⟨l.insertRecords drafts.length,
        (drafts.map fun d => (l.draftSettings item actor d).map (·.2)).flatten⟩ := by
  rw [insertExchange, mapM_draftValues_eq_ok h]
  rfl

theorem setsById_overwriteRecord (l : Layout) (id : RecordId) (text : Text) (actor : Actor) :
    SetsById (l.fieldSettings text ++ [("updated_by", .text actor)]) id
      ⟨l.overwriteRecord, (l.fieldSettings text).map (·.2) ++ [.text actor, .int id]⟩ := by
  have hsets := setsById l.recordTable (l.fieldSettings text ++ [("updated_by", .text actor)]) id
    [.equals "is_synced" .yes] (by simp [Condition.numbers, Operand.numbers])
  simpa [overwriteRecord, assignFrom_append, assignFrom, Nat.add_comm 1] using hsets

theorem setsById_writeRecord (l : Layout) (id : RecordId) (text : Text) (follows : Bool)
    (actor : Actor) :
    SetsById (l.fieldSettings text ++ [("is_synced", .bool follows), ("updated_by", .text actor)])
      id ⟨l.writeRecord,
        (l.fieldSettings text).map (·.2) ++ [.bool follows, .text actor, .int id]⟩ := by
  have hsets := setsById l.recordTable
    (l.fieldSettings text ++ [("is_synced", .bool follows), ("updated_by", .text actor)]) id []
    (List.forall_mem_nil _)
  simpa [writeRecord, assignFrom_append, assignFrom, Nat.add_comm 1] using hsets

theorem insertsRows_insertRecords (l : Layout) (item : ItemId) (drafts : List Draft)
    (actor : Actor) :
    InsertsRows l.insertColumns (drafts.map (l.draftSettings item actor))
      ⟨l.insertRecords drafts.length,
        (drafts.map fun d => (l.draftSettings item actor d).map (·.2)).flatten⟩ := by
  have haligned : ∀ row ∈ drafts.map (l.draftSettings item actor),
      row.map (·.1) = l.insertColumns := by
    intro row hrow
    obtain ⟨d, _, rfl⟩ := List.mem_map.mp hrow
    exact map_fst_draftSettings l item actor d
  simpa [insertRecords, Function.comp_def] using insertsRows l.recordTable haligned

/-- A text with a field that has no column is refused, and nothing is sent. -/
theorem answer_of_unknown (l : Layout) (baseCode : String) {q : Query}
    (h : ∃ text ∈ q.texts, ¬ text.keys ⊆ l.textFields) :
    ∃ field, (∃ text ∈ q.texts, l.Unknown field text) ∧
      (answer baseCode l q).run = .done (.error (.invalid (.unknownField l.name field))) := by
  obtain ⟨text, htext, hunknown⟩ := h
  cases q with
  | insert item drafts actor =>
      obtain ⟨d, hd, rfl⟩ := List.mem_map.mp htext
      obtain ⟨d', hd', field, hfield, hvalues⟩ : ∃ d ∈ drafts, ∃ field, l.Unknown field d.text ∧
          drafts.mapM (l.draftValues item actor) =
            .error (.invalid (.unknownField l.name field)) :=
        mapM_draftValues_eq_error fun hall => hunknown (hall d hd)
      refine ⟨field, ⟨_, List.mem_map_of_mem hd', hfield⟩, ?_⟩
      have hsome : drafts.isEmpty = false := by
        simpa using List.ne_nil_of_mem hd
      rw [answer, hsome, if_neg Bool.false_ne_true, run_decoded_bind, insertExchange, hvalues]
      rfl
  | overwriteCopy id text' actor =>
      obtain rfl := List.mem_singleton.mp htext
      obtain ⟨field, hfield, hvalues⟩ := fieldValues_eq_error hunknown
      refine ⟨field, ⟨text, htext, hfield⟩, ?_⟩
      rw [answer, run_decoded_bind, overwriteExchange, hvalues]
      rfl
  | write id text' follows actor =>
      obtain rfl := List.mem_singleton.mp htext
      obtain ⟨field, hfield, hvalues⟩ := fieldValues_eq_error hunknown
      refine ⟨field, ⟨text, htext, hfield⟩, ?_⟩
      rw [answer, run_decoded_bind, writeExchange, hvalues]
      rfl
  | language | items | hasItem | records => cases htext

/-- Placeholders and bound parameters line up. Each of the three statements that write texts refers
to its parameters from 1 on, once each and in order, and the parameter of each column is bound to
the column's value; only texts whose fields all have columns are sent. -/
theorem parameters_line_up (l : Layout) (baseCode : String) (actor : Actor) :
    l.insertColumns.length = l.textFields.length + 5 ∧
    (∀ id text, text.keys ⊆ l.textFields → ∃ x,
      Sends (answer baseCode l (.overwriteCopy id text actor)).run x ∧
        SetsById (l.fieldSettings text ++ [("updated_by", .text actor)]) id x) ∧
    (∀ id text follows, text.keys ⊆ l.textFields → ∃ x,
      Sends (answer baseCode l (.write id text follows actor)).run x ∧
        SetsById (l.fieldSettings text ++
          [("is_synced", .bool follows), ("updated_by", .text actor)]) id x) ∧
    (∀ item drafts, drafts ≠ [] → (∀ d ∈ drafts, d.text.keys ⊆ l.textFields) → ∃ x,
      Sends (answer baseCode l (.insert item drafts actor)).run x ∧
        InsertsRows l.insertColumns (drafts.map (l.draftSettings item actor)) x) ∧
    ∀ q : Query, (∃ text ∈ q.texts, ¬ text.keys ⊆ l.textFields) →
      ∃ field, (∃ text ∈ q.texts, l.Unknown field text) ∧
        (answer baseCode l q).run = .done (.error (.invalid (.unknownField l.name field))) := by
  refine ⟨l.length_insertColumns, ?_, ?_, ?_, fun q => answer_of_unknown l baseCode⟩
  · intro id text h
    exact ⟨_, ⟨_, answer_overwriteCopy (overwriteExchange_eq_ok h)⟩,
      setsById_overwriteRecord l id text actor⟩
  · intro id text follows h
    exact ⟨_, ⟨_, answer_write (writeExchange_eq_ok h)⟩,
      setsById_writeRecord l id text follows actor⟩
  · intro item drafts hdrafts h
    exact ⟨_, ⟨_, answer_insert hdrafts (insertExchange_eq_ok h)⟩,
      insertsRows_insertRecords l item drafts actor⟩

example : story.overwriteRecord.text = "UPDATE story_translations SET title = $1, " ++
    "summary = $2, content = $3, updated_by = $4, updated_at = now() " ++
    "WHERE id = $5 AND is_synced = true" := by
  decide

/-- A story without a summary, of which two texts are inserted and one is overwritten, and one whose
title is misspelt. -/
theorem story_parameters_line_up :
    let text : Text := .ofList [("content", "Long ago."), ("title", "Once")]
    (∃ x, Sends (answer "en" story (.overwriteCopy 5 text "ann")).run x ∧
      placeholders x.statement.tokens = ["1", "2", "3", "4", "5"] ∧
      x.parameters = [.text "Once", .null, .text "Long ago.", .text "ann", .int 5]) ∧
    (∃ x, Sends (answer "en" story (.insert 7 [.pinned 1 text, .copy 2 text] "ann")).run x ∧
      x.parameters.length = 16) ∧
    ∃ field, (answer "en" story (.write 5 (.ofList [("titel", "Once")]) true "ann")).run =
      .done (.error (.invalid (.unknownField "story" field))) := by
  intro text
  obtain ⟨-, hoverwrite, -, hinsert, hunknown⟩ := parameters_line_up story "en" "ann"
  have hknown : text.keys ⊆ story.textFields := by decide
  refine ⟨?_, ?_, ?_⟩
  · obtain ⟨x, hsends, hsets⟩ := hoverwrite 5 text hknown
    exact ⟨x, hsends, hsets.placeholders, hsets.bound⟩
  · obtain ⟨x, hsends, hinserts⟩ := hinsert 7 [.pinned 1 text, .copy 2 text] (by decide)
      (by simp [Draft.pinned, Draft.copy, hknown])
    exact ⟨x, hsends, congrArg List.length hinserts.bound⟩
  · obtain ⟨field, -, hrefused⟩ := hunknown
      (.write 5 (.ofList [("titel", "Once")]) true "ann") ⟨_, List.mem_singleton_self _, by decide⟩
    exact ⟨field, hrefused⟩

end Layout

end Polyglot
