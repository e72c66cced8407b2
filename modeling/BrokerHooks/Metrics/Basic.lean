import BrokerHooks.Report

namespace BrokerHooks

/-- Counts by key; a key that was never counted is absent. -/
abbrev Tally (κ : Type) := List (κ × Nat)

namespace Tally

variable {κ : Type} [DecidableEq κ]

def count : Tally κ → κ → Nat
  | [], _ => 0
  | (k, n) :: rest, key => if key = k then n else count rest key

def bump : Tally κ → κ → Tally κ
  | [], key => [(key, 1)]
  | (k, n) :: rest, key => if key = k then (k, n + 1) :: rest else (k, n) :: bump rest key

theorem count_bump (t : Tally κ) (key k : κ) :
    (t.bump key).count k = t.count k + if k = key then 1 else 0 := by
  induction t with
  | nil => simp [bump, count]
  | cons e rest ih =>
    unfold bump
    split
    · rename_i h
      subst h
      by_cases hk : k = e.1 <;> simp [count, hk]
    · rename_i h
      by_cases hk : k = e.1
      · subst hk
        simp [count, Ne.symm h]
      · simp [count, hk, ih]

end Tally

structure Metrics where
  chains : Tally (Point × String) := []
  extensionErrors : Tally Point := []
  timeouts : Tally Fallback := []
  denied : Nat := 0
  aliasBytes : Int := 0
  aliases : Int := 0
deriving DecidableEq, Repr, Inhabited

namespace Metrics

def chainCompleted (m : Metrics) (point : Point) (o : Outcome) : Metrics :=
  { m with chains := m.chains.bump (point, o.label) }

def extensionError (m : Metrics) (point : Point) : Metrics :=
  { m with extensionErrors := m.extensionErrors.bump point }

def timedOut (m : Metrics) (fallback : Fallback) : Metrics :=
  { m with timeouts := m.timeouts.bump fallback }

def serviceDenied (m : Metrics) : Metrics := { m with denied := m.denied + 1 }

def observeAliases (m : Metrics) (bytes aliases : Int) : Metrics :=
  { m with aliasBytes := bytes, aliases }

end Metrics
end BrokerHooks
