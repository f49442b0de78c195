import Mathlib.Data.List.Nodup
import Polyglot.Proofs.Program.Grounded

/-!
Windows on a state. What a program comes to is settled by what it sees of the state, whatever else
there is, also where other programs that do not touch what it sees go on between its questions.
-/

namespace Polyglot

namespace Program

variable {Q : Type} {A : Q → Type} {α β σ τ : Type}

def Asks (these : Q → Prop) : Program Q A α → Prop
  | .done _ => True
  | .ask q next => these q ∧ ∀ answer, (next answer).Asks these

theorem Asks.mono {these those : Q → Prop} {p : Program Q A α} (h : p.Asks these)
    (himp : ∀ q, these q → those q) : p.Asks those := by
  induction p with
  | done a => trivial
  | ask q next ih => exact ⟨himp q h.1, fun answer => ih answer (h.2 answer)⟩

theorem Asks.kept {these : Q → Prop} {answer : (q : Q) → σ → A q × σ} {view : σ → τ}
    {p : Program Q A α} (hp : p.Asks these)
    (h : ∀ q s, these q → view (answer q s).2 = view s) (s : σ) :
    view (p.run answer s).2 = view s := by
  induction p generalizing s with
  | done a => rfl
  | ask q next ih => exact (ih _ (hp.2 _) _).trans (h q s hp.1)

/-- The questions that are `seen` are answered from the view alone; others leave it as it is. -/
structure Window (answer : (q : Q) → σ → A q × σ) (seen : Q → Prop) (view : σ → τ)
    (serve : (q : Q) → τ → A q × τ) : Prop where
  own : ∀ q s, seen q → ((answer q s).1, view (answer q s).2) = serve q (view s)
  other : ∀ q s, ¬ seen q → view (answer q s).2 = view s

section Run

variable {answer : (q : Q) → σ → A q × σ} {seen : Q → Prop} {view : σ → τ}
  {serve : (q : Q) → τ → A q × τ}

theorem Window.own_run (h : Window answer seen view serve) {q : Q} (hq : seen q)
    {next : A q → Program Q A α} {s : σ} :
    (next (answer q s).1).run serve (view (answer q s).2) =
      (Program.ask q next).run serve (view s) := by
  rw [run_ask, ← h.own q s hq]

theorem Window.run (h : Window answer seen view serve) {p : Program Q A α} (hp : p.Asks seen)
    (s : σ) : ((p.run answer s).1, view (p.run answer s).2) = p.run serve (view s) := by
  induction p generalizing s with
  | done a => rfl
  | ask q next ih => exact (ih _ (hp.2 _) _).trans (h.own_run hp.1)

theorem Window.run_other (h : Window answer seen view serve) {p : Program Q A α}
    (hp : p.Asks (¬ seen ·)) (s : σ) : view (p.run answer s).2 = view s :=
  hp.kept h.other s

end Run

/-- Programs that run side by side, each under a name: whichever of them is at a question may have
it answered next, until all are done. Their results stand in the order of the programs. -/
inductive Joined (answer : (q : Q) → σ → A q × σ) :
    List (String × Program Q A α) → σ → List (String × α) → σ → Prop where
  | done (results : List (String × α)) (s : σ) :
      Joined answer (results.map fun r => (r.1, .done r.2)) s results s
  | ask (before rest : List (String × Program Q A α)) (name : String) (q : Q)
      (next : A q → Program Q A α) {s t : σ} {results : List (String × α)}
      (h : Joined answer (before ++ (name, next (answer q s).1) :: rest) (answer q s).2
        results t) :
      Joined answer (before ++ (name, .ask q next) :: rest) s results t

namespace Joined

variable {answer : (q : Q) → σ → A q × σ} {programs : List (String × Program Q A α)} {s t : σ}
  {results : List (String × α)}

theorem names (h : Joined answer programs s results t) :
    results.map (·.1) = programs.map (·.1) := by
  induction h with
  | done results s => simp
  | ask before rest name q next _ ih => simpa using ih

theorem cons_done (h : Joined answer programs s results t) (name : String) (a : α) :
    Joined answer ((name, .done a) :: programs) s ((name, a) :: results) t := by
  induction h with
  | done results s => exact .done ((name, a) :: results) s
  | ask before rest other q next _ ih =>
      exact .ask ((name, .done a) :: before) rest other q next ih

/-- The first program may run to its end before the others begin. -/
theorem cons (name : String) (p : Program Q A α)
    (h : Joined answer programs (p.run answer s).2 results t) :
    Joined answer ((name, p) :: programs) s ((name, (p.run answer s).1) :: results) t := by
  induction p generalizing s with
  | done a => exact h.cons_done name a
  | ask q next ih => exact .ask [] programs name q next (ih _ h)

/-- A program that all others keep out of the way of comes to the same as by itself. What it will
come to from here on does not change with any question, its own or another's. -/
theorem apart {seen : Q → Prop} {view : σ → τ} {serve : (q : Q) → τ → A q × τ}
    (hwindow : Window answer seen view serve) (h : Joined answer programs s results t)
    (hnames : (programs.map (·.1)).Nodup) {name : String} {p : Program Q A α}
    (hp : (name, p) ∈ programs) (hown : p.Asks seen)
    (hothers : ∀ r ∈ programs, r.1 ≠ name → r.2.Asks (¬ seen ·)) :
    ∃ a, (name, a) ∈ results ∧ (a, view t) = p.run serve (view s) := by
  induction h generalizing p with
  | done results s =>
      obtain ⟨⟨_, a⟩, ha, heq⟩ := List.mem_map.mp hp
      cases heq
      exact ⟨a, ha, rfl⟩
  | @ask before rest other q next s t results _ ih =>
      have hmem {r p' : _} : r ∈ before ++ (other, p') :: rest ↔
          r = (other, p') ∨ r ∈ before ++ rest :=
        List.perm_middle.mem_iff.trans List.mem_cons
      have hnames' : ((before ++ (other, next (answer q s).1) :: rest).map (·.1)).Nodup := by
        simpa using hnames
      have hothers' : ∀ r ∈ before ++ (other, next (answer q s).1) :: rest, r.1 ≠ name →
          r.2.Asks (¬ seen ·) := by
        intro r hr hne
        rcases hmem.mp hr with rfl | hr
        · exact (hothers _ (hmem.mpr (Or.inl rfl)) hne).2 _
        · exact hothers r (hmem.mpr (Or.inr hr)) hne
      by_cases hother : other = name
      · subst hother
        cases List.inj_on_of_nodup_map hnames hp (hmem.mpr (Or.inl rfl)) rfl
        obtain ⟨a, ha, hrun⟩ := ih hnames' (hmem.mpr (Or.inl rfl)) (hown.2 _) hothers'
        rw [hwindow.own_run hown.1] at hrun
        exact ⟨a, ha, hrun⟩
      · have hquiet := (hothers _ (hmem.mpr (Or.inl rfl)) hother).1
        have hp' : (name, p) ∈ before ++ (other, next (answer q s).1) :: rest := by
          rcases hmem.mp hp with heq | hp
          · exact absurd (Prod.mk.inj heq).1.symm hother
          · exact hmem.mpr (Or.inr hp)
        obtain ⟨a, ha, hrun⟩ := ih hnames' hp' hown hothers'
        rw [hwindow.other q s hquiet] at hrun
        exact ⟨a, ha, hrun⟩

end Joined

end Program

end Polyglot
