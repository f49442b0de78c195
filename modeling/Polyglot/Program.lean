/-!
Computations that ask questions of someone else, as data. A flow over a store is written once
as a program; who answers decides whether it runs alone, against a failing store, against a
database or step by step beside other flows.
-/

namespace Polyglot

inductive Program (Q : Type) (A : Q → Type) (α : Type) where
  | done (result : α)
  | ask (q : Q) (next : A q → Program Q A α)

namespace Program

variable {Q : Type} {A : Q → Type} {α β σ : Type}

def bind (p : Program Q A α) (f : α → Program Q A β) : Program Q A β :=
  match p with
  | .done a => f a
  | .ask q next => .ask q fun answer => (next answer).bind f

instance : Monad (Program Q A) where
  pure := .done
  bind := bind

@[simp] theorem pure_eq_done (a : α) : (pure a : Program Q A α) = .done a := rfl

@[simp] theorem done_bind (a : α) (f : α → Program Q A β) : (.done a >>= f) = f a := rfl

@[simp] theorem ask_bind (q : Q) (next : A q → Program Q A α) (f : α → Program Q A β) :
    (.ask q next >>= f) = .ask q fun answer => next answer >>= f := rfl

theorem bind_done (p : Program Q A α) : (p >>= fun a => .done a) = p := by
  induction p with
  | done a => rfl
  | ask q next ih => simp [ih]

theorem bind_assoc {γ : Type} (p : Program Q A α) (f : α → Program Q A β)
    (g : β → Program Q A γ) : (p >>= f >>= g) = p >>= fun a => f a >>= g := by
  induction p with
  | done a => rfl
  | ask q next ih => simp [ih]

instance : LawfulMonad (Program Q A) :=
  LawfulMonad.mk' (Program Q A) bind_done (fun _ _ => rfl) bind_assoc

def query (q : Q) : Program Q A (A q) := .ask q .done

def run (answer : (q : Q) → σ → A q × σ) : Program Q A α → σ → α × σ
  | .done a, s => (a, s)
  | .ask q next, s =>
      let (a, s) := answer q s
      (next a).run answer s

/-- Runs a program against a state that may leave a question without an answer. The program
then breaks off there, and what it did so far stays. -/
def attempt (answer : (q : Q) → σ → Option (A q) × σ) : Program Q A α → σ → Option α × σ
  | .done a, s => (some a, s)
  | .ask q next, s =>
      match answer q s with
      | (some a, s) => (next a).attempt answer s
      | (none, s) => (none, s)

/-- Answers each question by a program over other questions. -/
def through {P : Type} {B : P → Type} (answer : (q : Q) → Program P B (A q)) :
    Program Q A α → Program P B α
  | .done a => .done a
  | .ask q next => answer q >>= fun a => (next a).through answer

section Run

variable (answer : (q : Q) → σ → A q × σ)

@[simp] theorem run_done (a : α) (s : σ) : (done a : Program Q A α).run answer s = (a, s) := rfl

@[simp] theorem run_ask (q : Q) (next : A q → Program Q A α) (s : σ) :
    (ask q next).run answer s = (next (answer q s).1).run answer (answer q s).2 := rfl

@[simp] theorem run_query (q : Q) (s : σ) : (query q).run answer s = answer q s := rfl

@[simp] theorem run_bind (p : Program Q A α) (f : α → Program Q A β) (s : σ) :
    (p >>= f).run answer s = (f (p.run answer s).1).run answer (p.run answer s).2 := by
  induction p generalizing s with
  | done a => rfl
  | ask q next ih => simp [ih]

/-- Where every question is answered, no program breaks off. -/
theorem attempt_eq_run (p : Program Q A α) (s : σ) :
    p.attempt (fun q s => (some (answer q s).1, (answer q s).2)) s =
      (some (p.run answer s).1, (p.run answer s).2) := by
  induction p generalizing s with
  | done a => rfl
  | ask q next ih => simp [attempt, ih]

end Run

end Program

end Polyglot
