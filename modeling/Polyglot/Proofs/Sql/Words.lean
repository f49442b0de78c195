import Polyglot.Proofs.Sql.Table

/-!
The words of a text. A text can be cut in one way into words and single characters between them, if
no word is to stand right behind another. If all names in a statement are words, its text is cut
into the very tokens that it was written out of.
-/

namespace Polyglot.Sql

def isWordChar (c : Char) : Bool := isIdentifierChar c || ('A' ≤ c && c ≤ 'Z')

def isWord (w : String) : Bool := !w.toList.isEmpty && w.toList.all isWordChar

/-- A character before tokens. If it is a word's, it becomes part of a word that stands first. -/
def join (c : Char) (tokens : List Token) : List Token :=
  if isWordChar c then
    match tokens with
    | .word w :: rest => .word (String.ofList (c :: w.toList)) :: rest
    | _ => .word (String.ofList [c]) :: tokens
  else .mark c :: tokens

/-- Cuts a text into its words, each as long as it can be, and the single characters between. -/
def cut (text : List Char) : List Token := text.foldr join []

def spelt (tokens : List Token) : List Char := tokens.flatMap fun t => t.text.toList

/-- Words and other characters, with no word right behind another one. `afterWord` says whether
there is a word right before them. -/
def Apart : Bool → List Token → Prop
  | _, [] => True
  | _, .mark c :: rest => isWordChar c = false ∧ Apart false rest
  | afterWord, .word w :: rest => afterWord = false ∧ isWord w = true ∧ Apart true rest

/-- Whether tokens end in a word; `afterWord` answers for no tokens. -/
def endsInWord : Bool → List Token → Bool
  | afterWord, [] => afterWord
  | _, .mark _ :: rest => endsInWord false rest
  | _, .word _ :: rest => endsInWord true rest

variable {tokens tokens' : List Token} {afterWord : Bool} {α : Type}

theorem isWord_ofList_iff {cs : List Char} :
    isWord (String.ofList cs) = true ↔ cs ≠ [] ∧ cs.all isWordChar = true := by
  simp [isWord]

theorem apart_append :
    Apart afterWord (tokens ++ tokens') ↔
      Apart afterWord tokens ∧ Apart (endsInWord afterWord tokens) tokens' := by
  induction tokens generalizing afterWord with
  | nil => simp [Apart, endsInWord]
  | cons t rest ih => cases t <;> simp only [List.cons_append, Apart, endsInWord, ih, and_assoc]

theorem join_mark {c : Char} (hc : isWordChar c = false) (tokens : List Token) :
    join c tokens = .mark c :: tokens :=
  if_neg (by simp [hc])

theorem endsInWord_append : endsInWord afterWord (tokens ++ tokens') =
    endsInWord (endsInWord afterWord tokens) tokens' := by
  induction tokens generalizing afterWord with
  | nil => rfl
  | cons t rest ih => cases t <;> exact ih

theorem spelt_join (c : Char) (tokens : List Token) :
    spelt (join c tokens) = c :: spelt tokens := by
  cases hc : isWordChar c with
  | false => simp [join_mark hc, spelt, Token.text]
  | true =>
      match tokens with
      | [] => simp [join, hc, spelt, Token.text]
      | .mark _ :: _ => simp [join, hc, spelt, Token.text]
      | .word _ :: _ => simp [join, hc, spelt, Token.text]

theorem apart_join (c : Char) (h : Apart false tokens) : Apart false (join c tokens) := by
  cases hc : isWordChar c with
  | false => exact join_mark hc tokens ▸ ⟨hc, h⟩
  | true =>
      match tokens, h with
      | [], h => simp [join, hc, Apart, isWord]
      | .mark _ :: _, h => simpa [join, hc, Apart, isWord] using h
      | .word w :: _, ⟨_, hword, hrest⟩ =>
          rw [isWord, Bool.and_eq_true] at hword
          simpa [join, hc, Apart, isWord, hword.2] using hrest

/-- The characters of a word come together again before anything that is no word. -/
theorem foldr_join (h : Apart true tokens) {cs : List Char} (hcs : cs ≠ [])
    (hword : cs.all isWordChar = true) :
    cs.foldr join tokens = .word (String.ofList cs) :: tokens := by
  induction cs with
  | nil => exact absurd rfl hcs
  | cons c rest ih =>
      rw [List.all_cons, Bool.and_eq_true] at hword
      rw [List.foldr_cons]
      cases rest with
      | nil =>
          match tokens, h with
          | [], _ => exact if_pos hword.1
          | .mark _ :: _, _ => exact if_pos hword.1
          | .word _ :: _, h => cases h.1
      | cons d rest =>
          rw [ih (List.cons_ne_nil _ _) hword.2]
          simp only [join, hword.1, if_true, String.toList_ofList]

theorem cut_spelt (h : Apart afterWord tokens) : cut (spelt tokens) = tokens := by
  induction tokens generalizing afterWord with
  | nil => rfl
  | cons t rest ih =>
      rw [cut, spelt, List.flatMap_cons, List.foldr_append, ← spelt, ← cut]
      cases t with
      | mark c =>
          rw [ih h.2, Token.text, String.toList_singleton, List.foldr_cons, List.foldr_nil,
            join_mark h.1]
      | word w =>
          obtain ⟨-, hword, hrest⟩ := h
          rw [← String.ofList_toList (s := w), isWord_ofList_iff] at hword
          rw [ih hrest, Token.text, foldr_join hrest hword.1 hword.2, String.ofList_toList]

/-- The cut of a text is the one list of tokens that spells it with its words apart. -/
theorem cut_eq_iff {text : List Char} :
    cut text = tokens ↔ Apart false tokens ∧ spelt tokens = text := by
  constructor
  · rintro rfl
    induction text with
    | nil => exact ⟨trivial, rfl⟩
    | cons c rest ih => exact ⟨apart_join c ih.1, (spelt_join c _).trans (congrArg _ ih.2)⟩
  · rintro ⟨h, rfl⟩
    exact cut_spelt h

theorem apart_spaced {words : List String} :
    Apart afterWord (spaced words) ↔ ∀ w ∈ words, isWord w = true := by
  have hspace : isWordChar ' ' = false := by decide
  induction words generalizing afterWord with
  | nil => simp [spaced, Apart]
  | cons w rest ih =>
      rw [spaced, List.flatMap_cons, ← spaced, apart_append, List.forall_mem_cons]
      exact and_congr (by simp [Apart, hspace]) ih

theorem commaSeparated_cons (part : List Token) {rest : List (List Token)} (h : rest ≠ []) :
    commaSeparated (part :: rest) = part ++ [.mark ',', .mark ' '] ++ commaSeparated rest := by
  cases rest with
  | nil => exact absurd rfl h
  | cons => rfl

theorem apart_commaSeparated {f : α → List Token} {as : List α}
    (h : ∀ a ∈ as, Apart false (f a)) : Apart false (commaSeparated (as.map f)) := by
  induction as with
  | nil => trivial
  | cons a rest ih =>
      obtain ⟨ha, hrest⟩ := List.forall_mem_cons.mp h
      cases rest with
      | nil => exact ha
      | cons b rest =>
          rw [List.map_cons, commaSeparated_cons _ (by simp)]
          simp only [apart_append, endsInWord_append]
          exact ⟨⟨ha, by decide, by decide, trivial⟩, ih hrest⟩

theorem apart_bracketed (h : Apart false tokens) : Apart afterWord (bracketed tokens) := by
  rw [bracketed, apart_append, apart_append]
  exact ⟨⟨⟨by decide, trivial⟩, h⟩, by decide, trivial⟩

theorem isWord_toString (n : Nat) : isWord (toString n) = true := by
  rw [Nat.toString_eq_ofList_toDigits, isWord_ofList_iff]
  refine ⟨Nat.toDigits_ne_nil, List.all_eq_true.mpr fun c hc => ?_⟩
  have hdigit : ('0' ≤ c && c ≤ '9') = true :=
    Nat.isDigit_of_mem_toDigits (by decide) (by decide) hc
  rw [isWordChar, isIdentifierChar, hdigit, Bool.or_true, Bool.true_or]

theorem apart_operand (o : Operand) : Apart false o.tokens := by
  cases o with
  | parameter n => exact ⟨by decide, rfl, isWord_toString n, trivial⟩
  | yes => exact ⟨rfl, by decide, trivial⟩
  | now => exact ⟨rfl, by decide, by decide, by decide, trivial⟩

theorem apart_equation {column : String} (h : isWord column = true) (o : Operand) :
    Apart false (equation column o) := by
  rw [equation, apart_append]
  exact ⟨⟨rfl, h, by decide, by decide, by decide, trivial⟩, apart_operand o⟩

theorem apart_condition {c : Condition} (h : isWord c.column = true) : Apart false c.tokens := by
  cases c with
  | equals column o => exact apart_equation h o
  | isNull column => exact ⟨rfl, h, apart_spaced.mpr (by decide)⟩

theorem conjunction_cons (c : Condition) {rest : List Condition} (h : rest ≠ []) :
    conjunction (c :: rest) = c.tokens ++ spaced ["AND"] ++ [.mark ' '] ++ conjunction rest := by
  cases rest with
  | nil => exact absurd rfl h
  | cons => rfl

theorem apart_conjunction {cs : List Condition} (h : ∀ c ∈ cs, isWord c.column = true) :
    Apart false (conjunction cs) := by
  induction cs with
  | nil => trivial
  | cons c rest ih =>
      obtain ⟨hc, hrest⟩ := List.forall_mem_cons.mp h
      cases rest with
      | nil => exact apart_condition hc
      | cons d rest =>
          rw [conjunction_cons c (List.cons_ne_nil _ _)]
          simp only [apart_append, endsInWord_append]
          exact ⟨⟨⟨apart_condition hc, apart_spaced.mpr (by decide)⟩, by decide, trivial⟩, ih hrest⟩

theorem apart_whereClause {cs : List Condition} (h : ∀ c ∈ cs, isWord c.column = true) :
    Apart afterWord (whereClause cs) := by
  cases cs with
  | nil => trivial
  | cons c rest =>
      rw [whereClause, apart_append, apart_append]
      exact ⟨⟨apart_spaced.mpr (by decide), by decide, trivial⟩, apart_conjunction h⟩

theorem apart_orderClause {order : Option String} (h : ∀ column ∈ order, isWord column = true) :
    Apart afterWord (orderClause order) := by
  cases order with
  | none => trivial
  | some column => exact apart_spaced.mpr (by simpa using ⟨by decide, by decide, h column rfl⟩)

theorem apart_output {o : Output} (h : isWord o.column = true)
    (hname : ∀ name ∈ o.newName, isWord name = true) : Apart false o.tokens := by
  rw [Output.tokens]
  cases hnew : o.newName with
  | none => exact ⟨rfl, h, trivial⟩
  | some name => exact ⟨rfl, h, apart_spaced.mpr (by simpa using ⟨by decide, hname name hnew⟩)⟩

/-- The names in a statement: those of its table and of columns, in the table and in the result. -/
def Statement.names (s : Statement) : List String :=
  s.table :: s.columns ++ s.outputNames

theorem Statement.toList_text (s : Statement) : s.text.toList = spelt s.tokens := by
  have hfold (tokens : List Token) (out : String) :
      (tokens.foldl (fun out t => out ++ t.text) out).toList = out.toList ++ spelt tokens := by
    induction tokens generalizing out with
    | nil => simp [spelt]
    | cons t rest ih => simp [ih, spelt]
  exact hfold s.tokens ""

theorem Statement.apart_tokens {s : Statement} (h : ∀ name ∈ s.names, isWord name = true) :
    Apart false s.tokens := by
  cases s with
  | select outputs table conditions order =>
      simp only [names, Statement.table, columns, outputNames, List.forall_mem_append,
        List.forall_mem_cons, List.forall_mem_map, Option.mem_toList] at h
      obtain ⟨⟨htable, ⟨houtputs, hconditions⟩, horder⟩, hnewNames⟩ := h
      have houtput : ∀ o ∈ outputs, Apart false o.tokens := fun o ho =>
        apart_output (houtputs o ho) fun name hname => by
          simpa [Output.name, Option.mem_def.mp hname] using hnewNames o ho
      simp only [tokens, apart_append]
      exact ⟨⟨⟨⟨⟨rfl, by decide, by decide, trivial⟩, apart_commaSeparated houtput⟩,
        apart_spaced.mpr (by simpa using ⟨by decide, htable⟩)⟩, apart_whereClause hconditions⟩,
        apart_orderClause horder⟩
  | anyRow table conditions =>
      simp only [names, Statement.table, columns, List.forall_mem_append, List.forall_mem_cons,
        List.forall_mem_map] at h
      obtain ⟨⟨htable, hconditions⟩, -⟩ := h
      have hselect : Apart false (.word "SELECT" :: spaced ["1", "FROM", table] ++
          whereClause conditions) := by
        simp only [List.cons_append, Apart, apart_append]
        exact ⟨trivial, by decide, apart_spaced.mpr (by simpa using ⟨by decide, by decide, htable⟩),
          apart_whereClause hconditions⟩
      simp only [tokens, List.cons_append, Apart, apart_append]
      exact ⟨trivial, by decide, ⟨apart_spaced.mpr (by decide), by decide, trivial⟩,
        apart_bracketed hselect⟩
  | insert table columns rows =>
      simp only [names, Statement.table, Statement.columns, List.forall_mem_append,
        List.forall_mem_cons] at h
      obtain ⟨⟨htable, hcolumns⟩, -⟩ := h
      have hcolumn : ∀ column ∈ columns, Apart false [.word column] := fun column hcolumn =>
        ⟨rfl, hcolumns column hcolumn, trivial⟩
      have hrow : ∀ row ∈ rows, Apart false (bracketed (commaSeparated (row.map (·.tokens)))) :=
        fun row _ => apart_bracketed (apart_commaSeparated fun o _ => apart_operand o)
      simp only [tokens, List.cons_append, Apart, apart_append, endsInWord_append]
      exact ⟨trivial, by decide, ⟨⟨⟨⟨apart_spaced.mpr (by simpa using ⟨by decide, htable⟩),
        by decide, trivial⟩, apart_bracketed (apart_commaSeparated hcolumn)⟩,
        apart_spaced.mpr (by decide)⟩, by decide, trivial⟩, apart_commaSeparated hrow⟩
  | update table assignments conditions =>
      simp only [names, Statement.table, columns, List.forall_mem_append, List.forall_mem_cons,
        List.forall_mem_map] at h
      obtain ⟨⟨htable, hassignments, hconditions⟩, -⟩ := h
      have hequation : ∀ a ∈ assignments, Apart false (equation a.1 a.2) := fun a ha =>
        apart_equation (hassignments a ha) a.2
      simp only [tokens, List.cons_append, Apart, apart_append, endsInWord_append]
      exact ⟨trivial, by decide, ⟨⟨apart_spaced.mpr (by simpa using ⟨htable, by decide⟩),
        by decide, trivial⟩, apart_commaSeparated hequation⟩, apart_whereClause hconditions⟩

/-- If its names are words, a statement's text is cut into the tokens it was written out of. -/
theorem Statement.cut_text {s : Statement} (h : ∀ name ∈ s.names, isWord name = true) :
    cut s.text.toList = s.tokens := by
  rw [s.toList_text]
  exact cut_spelt (apart_tokens h)

end Polyglot.Sql
