import Polyglot.Proofs.Program.Grounded

namespace Polyglot.Program

variable {Q : Type} {A : Q → Type} {α β σ : Type}

/-- The questions of a run in the order in which they are asked, each with the answer to it. -/
def transcript (answer : (q : Q) → σ → A q × σ) : Program Q A α → σ → List (Answered Q A)
  | .done _, _ => []
  | .ask q next, s =>
      let (a, s) := answer q s
      ⟨q, a⟩ :: (next a).transcript answer s

variable (answer : (q : Q) → σ → A q × σ)

@[simp] theorem transcript_done (a : α) (s : σ) :
    (done a : Program Q A α).transcript answer s = [] := rfl

@[simp] theorem transcript_ask (q : Q) (next : A q → Program Q A α) (s : σ) :
    (ask q next).transcript answer s =
      ⟨q, (answer q s).1⟩ :: (next (answer q s).1).transcript answer (answer q s).2 := rfl

@[simp] theorem transcript_query (q : Q) (s : σ) :
    (query q).transcript answer s = [⟨q, (answer q s).1⟩] := rfl

@[simp] theorem transcript_bind (p : Program Q A α) (f : α → Program Q A β) (s : σ) :
    (p >>= f).transcript answer s = p.transcript answer s ++
      (f (p.run answer s).1).transcript answer (p.run answer s).2 := by
  induction p generalizing s with
  | done a => rfl
  | ask q next ih => simp [ih]

end Polyglot.Program
