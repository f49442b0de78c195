import Mathlib.Data.ENat.Lattice
import Polyglot.Setup.Retry

namespace Polyglot

variable {ε α : Type}

/-- `first` is the number of the first call that succeeds. -/
structure FirstSuccess (operation : Nat → Except ε α) (first : ℕ∞) : Prop where
  one_le : 1 ≤ first
  fails : ∀ number : Nat, 1 ≤ number → number < first → ∃ e, operation number = .error e
  succeeds : ∀ number : Nat, number = first → ∃ a, operation number = .ok a

theorem exists_firstSuccess (operation : Nat → Except ε α) :
    ∃ first, FirstSuccess operation first := by
  -- Whether any call succeeds is not decidable: the operation is arbitrary.
  classical
  have herror {number : Nat} (h : ¬ ∃ a, operation number = .ok a) :
      ∃ e, operation number = .error e := by
    cases hresult : operation number with
    | error e => exact ⟨e, rfl⟩
    | ok a => exact absurd ⟨a, hresult⟩ h
  by_cases h : ∃ number, 1 ≤ number ∧ ∃ a, operation number = .ok a
  · obtain ⟨hone, hok⟩ := Nat.find_spec h
    refine ⟨Nat.find h, by exact_mod_cast hone, fun number hnumber hlt => ?_, fun number heq => ?_⟩
    · have hnot := Nat.find_min h (Nat.cast_lt.mp hlt)
      exact herror fun hsuccess => hnot ⟨hnumber, hsuccess⟩
    · rwa [Nat.cast_inj.mp heq]
  · refine ⟨⊤, le_top, fun number hnumber _ => ?_, fun number heq => ?_⟩
    · exact herror fun hsuccess => h ⟨number, hnumber, hsuccess⟩
    · exact absurd heq (ENat.natCast_ne_top number)

namespace FirstSuccess

variable {operation : Nat → Except ε α} {first : ℕ∞} {number : Nat}

theorem le_of_fails (h : FirstSuccess operation first)
    (hfails : ∀ n, 1 ≤ n → n < number → ∃ e, operation n = .error e) : number ≤ first := by
  by_contra hlt
  obtain ⟨n, rfl⟩ := ENat.ne_top_iff_exists.mp (ne_top_of_lt (not_le.mp hlt))
  have hone : 1 ≤ n := by exact_mod_cast h.one_le
  obtain ⟨e, herror⟩ := hfails n hone (Nat.cast_lt.mp (not_le.mp hlt))
  obtain ⟨a, hok⟩ := h.succeeds n rfl
  rw [herror] at hok
  cases hok

theorem le_of_succeeds (h : FirstSuccess operation first) (hone : 1 ≤ number) {a : α}
    (hok : operation number = .ok a) : first ≤ number := by
  by_contra hlt
  obtain ⟨e, herror⟩ := h.fails number hone (not_le.mp hlt)
  rw [herror] at hok
  cases hok

theorem eq_min (h : FirstSuccess operation first) {bound : Nat} (hone : 1 ≤ number)
    (hle : number ≤ bound) (hfails : ∀ n, 1 ≤ n → n < number → ∃ e, operation n = .error e)
    (hstops : number < bound → ∃ a, operation number = .ok a) :
    (number : ℕ∞) = min first bound := by
  refine le_antisymm (le_min (h.le_of_fails hfails) (Nat.cast_le.mpr hle)) ?_
  rcases Nat.lt_or_ge number bound with hlt | hge
  · obtain ⟨a, hok⟩ := hstops hlt
    exact min_le_of_left_le (h.le_of_succeeds hone hok)
  · exact min_le_of_right_le (Nat.cast_le.mpr hge)

end FirstSuccess

namespace RetryPolicy

/-- Calls from `number` on, with a pause after each but the last; `failures` come before it. -/
def alternating (p : RetryPolicy) (number failures : Nat) : List RetryStep :=
  (List.range' number failures).flatMap (fun n => [.call n, .pause (p.pauseAfter n)]) ++
    [.call (number + failures)]

variable (p : RetryPolicy) (operation : Nat → Except ε α)

theorem alternating_succ (number failures : Nat) :
    p.alternating number (failures + 1) =
      .call number :: .pause (p.pauseAfter number) :: p.alternating (number + 1) failures := by
  simp [alternating, List.range'_succ, Nat.add_assoc, Nat.add_comm 1]

theorem countP_alternating (number failures : Nat) :
    (p.alternating number failures).countP (·.isCall) = failures + 1 := by
  induction failures generalizing number with
  | zero => rfl
  | succ failures ih =>
      rw [alternating_succ, List.countP_cons_of_pos rfl, List.countP_cons_of_neg Bool.false_ne_true,
        ih]

theorem filterMap_alternating (number failures : Nat) :
    (p.alternating number failures).filterMap (·.length?) =
      (List.range' number failures).map p.pauseAfter := by
  induction failures generalizing number with
  | zero => rfl
  | succ failures ih =>
      rw [alternating_succ, List.range'_succ, List.map_cons, ← ih]
      rfl

/-- The calls up to the first success, or as many as there are attempts. -/
theorem retryFrom_cases (attempts number : Nat) :
    ∃ failures ≤ attempts,
      p.retryFrom operation attempts number =
        ⟨p.alternating number failures, operation (number + failures)⟩ ∧
      (∀ n, number ≤ n → n < number + failures → ∃ e, operation n = .error e) ∧
      (failures < attempts → ∃ a, operation (number + failures) = .ok a) := by
  induction attempts generalizing number with
  | zero => exact ⟨0, le_rfl, rfl, by omega, nofun⟩
  | succ attempts ih =>
      rw [retryFrom]
      cases hresult : operation number with
      | ok a =>
          refine ⟨0, Nat.zero_le _, ?_, by omega, fun _ => ⟨a, hresult⟩⟩
          change _ = RetryOutcome.mk [.call number] (operation number)
          rw [hresult]
      | error e =>
          obtain ⟨failures, hle, hlater, hfails, hsucceeds⟩ := ih (number + 1)
          rw [Nat.add_right_comm] at hlater hfails hsucceeds
          refine ⟨failures + 1, Nat.succ_le_succ hle, ?_, fun n hlow hhigh => ?_, fun hlt => ?_⟩
          · rw [hlater, alternating_succ]
            rfl
          · rcases Nat.eq_or_lt_of_le hlow with rfl | hlow
            · exact ⟨e, hresult⟩
            · exact hfails n hlow hhigh
          · exact hsucceeds (Nat.lt_of_succ_lt_succ hlt)

structure Retries (first : ℕ∞) (o : RetryOutcome ε α) : Prop where
  calls : o.calls = min first (max 1 p.maxAttempts : Nat)
  steps : o.steps = p.alternating 1 (o.calls - 1)
  waits : o.waits = (List.range' 1 (o.calls - 1)).map p.pauseAfter
  bounded : ∀ length ∈ o.waits, length ≤ p.longest
  last : o.result = operation o.calls
  reached : first ≤ (max 1 p.maxAttempts : Nat) → o.calls = first ∧ ∃ a, o.result = .ok a
  exhausted : (max 1 p.maxAttempts : Nat) < first → ∃ e, o.result = .error e

/-- Whatever the operation does, it is called up to its first success or until the attempts run
out, and the last call gives the result. -/
theorem retry_until_first_success :
    ∃ first, FirstSuccess operation first ∧ p.Retries operation first (p.retry operation) := by
  obtain ⟨first, hfirst⟩ := exists_firstSuccess operation
  obtain ⟨failures, hle, hretry, hfails, hstops⟩ :=
    p.retryFrom_cases operation (max p.maxAttempts 1 - 1) 1
  rw [Nat.add_comm 1] at hretry hfails hstops
  rw [← retry] at hretry
  have hcalls : (p.retry operation).calls = failures + 1 := by
    rw [hretry]
    exact p.countP_alternating 1 failures
  have hwaits : (p.retry operation).waits = (List.range' 1 failures).map p.pauseAfter := by
    rw [hretry]
    exact p.filterMap_alternating 1 failures
  have hlast : (p.retry operation).result = operation (failures + 1) := by rw [hretry]
  have hmin : ((failures + 1 : Nat) : ℕ∞) = min first (max 1 p.maxAttempts : Nat) :=
    hfirst.eq_min (Nat.le_add_left 1 failures) (by omega) hfails fun hlt => hstops (by omega)
  refine ⟨first, hfirst, ?_⟩
  constructor
  case calls => rw [hcalls, hmin]
  case steps => rw [hcalls, hretry, Nat.add_sub_cancel]
  case waits => rw [hcalls, hwaits, Nat.add_sub_cancel]
  case last => rw [hcalls, hlast]
  case bounded =>
    rw [hwaits]
    intro length hlength
    obtain ⟨n, -, rfl⟩ := List.mem_map.mp hlength
    exact Nat.min_le_right _ _
  case reached =>
    intro hreached
    rw [min_eq_left hreached] at hmin
    rw [hcalls, hlast]
    exact ⟨hmin, hfirst.succeeds _ hmin⟩
  case exhausted =>
    intro hexhausted
    rw [hlast]
    refine hfirst.fails _ (Nat.le_add_left 1 failures) ?_
    rwa [hmin, min_eq_right hexhausted.le]

/-- An operation without attempts is called all the same. -/
example : ((RetryPolicy.new 0 1000).retry fun n => if n = 1 then .error "down" else .ok n).steps =
    [.call 1] := rfl

end RetryPolicy

end Polyglot
