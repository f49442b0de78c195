namespace Polyglot

structure RetryPolicy where
  /-- How often the operation is tried; below one counts as one. -/
  maxAttempts : Nat
  firstPause : Nat
  /-- The longest pause, in whole milliseconds. -/
  longestPause : Nat
  multiplier : Float
  /-- What the longest pause has over these milliseconds, in nanoseconds. -/
  longestRest : Fin 1000000 := 0

inductive RetryStep where
  | call (number : Nat)
  | pause (length : Nat)
deriving DecidableEq

def RetryStep.isCall : RetryStep → Bool
  | .call _ => true
  | .pause _ => false

def RetryStep.length? : RetryStep → Option Nat
  | .call _ => none
  | .pause length => some length

structure RetryOutcome (ε α : Type) where
  steps : List RetryStep
  result : Except ε α

namespace RetryOutcome

variable {ε α : Type}

def calls (o : RetryOutcome ε α) : Nat := o.steps.countP (·.isCall)

/-- The pauses between calls, in nanoseconds. -/
def waits (o : RetryOutcome ε α) : List Nat := o.steps.filterMap (·.length?)

def pauses (o : RetryOutcome ε α) : List Nat := o.waits.map (· / 1000000)

end RetryOutcome

namespace RetryPolicy

def new (maxAttempts firstPause : Nat) : RetryPolicy :=
  { maxAttempts, firstPause, longestPause := 30000, multiplier := 2.0 }

def databaseConnect : RetryPolicy := { new 5 500000 with longestPause := 8000 }

/-- `a` to the power of `n`, by squaring: `acc` holds the product so far. -/
def powerFrom (acc a : Float) (n : Nat) : Float :=
  let acc := if n % 2 = 1 then acc * a else acc
  if n / 2 = 0 then acc else powerFrom acc (a * a) (n / 2)
termination_by n
decreasing_by omega

def power (a : Float) (n : Int) : Float :=
  if n < 0 then 1.0 / powerFrom 1.0 a n.natAbs else powerFrom 1.0 a n.natAbs

def longest (p : RetryPolicy) : Nat := p.longestPause * 1000000 + p.longestRest

/-- The pause after so many failures, in nanoseconds: the first pause in whole milliseconds times a
power of the multiplier, cut to milliseconds that fit in 64 bits, and no longer than the longest
pause. The exponent is a signed integer of 32 bits. -/
def pauseAfter (p : RetryPolicy) (failures : Nat) : Nat :=
  let exponent := Int32.ofNat (failures - 1)
  let pause := (p.firstPause / 1000).toFloat * power p.multiplier exponent.toInt
  min (pause.toUInt64.toNat * 1000000) p.longest

def retryFrom {ε α : Type} (p : RetryPolicy) (operation : Nat → Except ε α) :
    (attempts number : Nat) → RetryOutcome ε α
  | 0, number => ⟨[.call number], operation number⟩
  | attempts + 1, number =>
      match operation number with
      | .ok a => ⟨[.call number], .ok a⟩
      | .error _ =>
          let later := p.retryFrom operation attempts (number + 1)
          { later with steps := .call number :: .pause (p.pauseAfter number) :: later.steps }

/-- Calls `operation` until it succeeds or the attempts run out; the last failure counts. -/
def retry {ε α : Type} (p : RetryPolicy) (operation : Nat → Except ε α) : RetryOutcome ε α :=
  p.retryFrom operation (max p.maxAttempts 1 - 1) 1

end RetryPolicy

end Polyglot
