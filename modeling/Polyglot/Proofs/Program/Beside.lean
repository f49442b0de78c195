import Polyglot.Program

namespace Polyglot.Program

variable {Q : Type} {A : Q → Type} {α β σ : Type}

/-- A question with the state that it was asked of. It is the program's own or one of the
others'. -/
structure Asked (Q σ : Type) where
  own : Bool
  question : Q
  state : σ

inductive Meanwhile (answer : (q : Q) → σ → A q × σ) :
    List (Program Q A β) → σ → List (Asked Q σ) → List (Program Q A β) → σ → Prop where
  | rest (others : List (Program Q A β)) (s : σ) : Meanwhile answer others s [] others s
  | ask (before after : List (Program Q A β)) (q : Q) (next : A q → Program Q A β) {s t : σ}
      {log : List (Asked Q σ)} {others : List (Program Q A β)}
      (h : Meanwhile answer (before ++ next (answer q s).1 :: after) (answer q s).2 log others t) :
      Meanwhile answer (before ++ .ask q next :: after) s (⟨false, q, s⟩ :: log) others t

/-- A program that goes on to its end while others go on as well. -/
inductive Beside (answer : (q : Q) → σ → A q × σ) :
    Program Q A α → List (Program Q A β) → σ → List (Asked Q σ) → α → σ → Prop where
  | done (a : α) {others others' : List (Program Q A β)} {s t : σ} {log : List (Asked Q σ)}
      (h : Meanwhile answer others s log others' t) :
      Beside answer (.done a) others s log a t
  | ask (q : Q) (next : A q → Program Q A α) {others others' : List (Program Q A β)}
      {s s' t : σ} {between log : List (Asked Q σ)} {a : α}
      (hbetween : Meanwhile answer others s between others' s')
      (h : Beside answer (next (answer q s').1) others' (answer q s').2 log a t) :
      Beside answer (.ask q next) others s (between ++ ⟨true, q, s'⟩ :: log) a t

section

variable {answer : (q : Q) → σ → A q × σ} {others others' : List (Program Q A β)} {s t : σ}
  {log : List (Asked Q σ)}

theorem Meanwhile.not_own (h : Meanwhile answer others s log others' t) :
    ∀ x ∈ log, x.own = false := by
  induction h with
  | rest others s => nofun
  | ask before after q next _ ih =>
      intro x hx
      rcases List.mem_cons.mp hx with rfl | hx
      · rfl
      · exact ih x hx

end

section Play

variable (answer : (q : Q) → σ → A q × σ)

def playOthers : List Nat → List (Program Q A β) → σ →
    List (Asked Q σ) × List (Program Q A β) × σ
  | [], others, s => ([], others, s)
  | place :: turns, others, s =>
      match others.drop place with
      | .ask q next :: after =>
          let (a, s') := answer q s
          let (log, others', t) := playOthers turns (others.take place ++ next a :: after) s'
          (⟨false, q, s⟩ :: log, others', t)
      | _ => playOthers turns others s

/-- Lets the others take these turns before each of the program's own questions, and the last of
them after its end. -/
def play : Program Q A α → List (List Nat) → List (Program Q A β) → σ →
    List (Asked Q σ) × α × σ
  | .done a, turns, others, s =>
      let (log, _, t) := playOthers answer turns.flatten others s
      (log, a, t)
  | .ask q next, turns, others, s =>
      let (between, others', s') := playOthers answer (turns.headD []) others s
      let (a, s'') := answer q s'
      let (log, result, t) := (next a).play turns.tail others' s''
      (between ++ ⟨true, q, s'⟩ :: log, result, t)

variable {answer}

theorem meanwhile_playOthers (turns : List Nat) (others : List (Program Q A β)) (s : σ) :
    Meanwhile answer others s (playOthers answer turns others s).1
      (playOthers answer turns others s).2.1 (playOthers answer turns others s).2.2 := by
  induction turns generalizing others s with
  | nil => exact .rest others s
  | cons place turns ih =>
      have hsplit := (List.take_append_drop place others).symm
      rw [playOthers]
      split
      · rename_i q next after hdrop
        rw [hdrop] at hsplit
        have hask : Meanwhile answer (others.take place ++ .ask q next :: after) s _ _ _ :=
          .ask (others.take place) after q next (ih _ _)
        rwa [← hsplit] at hask
      · exact ih others s

theorem beside_play (p : Program Q A α) (turns : List (List Nat)) (others : List (Program Q A β))
    (s : σ) :
    Beside answer p others s (p.play answer turns others s).1 (p.play answer turns others s).2.1
      (p.play answer turns others s).2.2 := by
  induction p generalizing turns others s with
  | done a => exact .done a (meanwhile_playOthers turns.flatten others s)
  | ask q next ih => exact .ask q next (meanwhile_playOthers (turns.headD []) others s) (ih _ _ _ _)

end Play

end Polyglot.Program
