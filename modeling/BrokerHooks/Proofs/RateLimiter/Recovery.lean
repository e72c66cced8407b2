import Mathlib.Order.Monotone.Basic
import BrokerHooks.Proofs.RateLimiter.Verdict

namespace BrokerHooks.RateLimiter

def lastCall (t : Nat → Nat) : Nat → Nat
  | 0 => 0
  | n + 1 => t n

section

variable {t : Nat → Nat} {limit : Int} {n : Nat}

theorem elim_le_lastCall (ht : Monotone t) {o : Option Nat} (ho : ∀ m, o = some m → m < n) :
    o.elim 0 t ≤ lastCall t n := by
  cases o with
  | none => exact Nat.zero_le _
  | some m =>
    have hlt := ho m rfl
    cases n with
    | zero => omega
    | succ n => exact ht (Nat.le_of_lt_succ hlt)

/-- The first call after a pause opens a window and refills the reserve, whatever came before. -/
theorem refills_of_pause (ht : Monotone t) (hpause : lastCall t n + 10000 < t n) : Refills t n := by
  have hopener := elim_le_lastCall ht fun m (h : opener? t n = some m) => latest?_lt h
  have hrefiller := elim_le_lastCall ht fun m (h : refiller? t n = some m) => latest?_lt h
  refine ⟨?_, ?_⟩
  · unfold Opens
    omega
  · omega

/-- No other window opens before the one that opened with call `n` has ended. -/
theorem opener?_within (ht : Monotone t) (hopens : Opens t n) {m : Nat} (hle : n ≤ m) (hm : t m < t n + 1000) :
    opener? t (m + 1) = some n := by
  induction m, hle using Nat.le_induction with
  | base => rw [opener?_succ, if_pos hopens]
  | succ m hle ih =>
    have hopener := ih (Nat.lt_of_le_of_lt (ht (Nat.le_succ m)) hm)
    have hclosed : ¬Opens t (m + 1) := by
      unfold Opens
      rw [hopener, Option.elim_some]
      omega
    rw [opener?_succ, if_neg hclosed]
    exact hopener

theorem not_opens_within (ht : Monotone t) (hopens : Opens t n) {m : Nat} (hle : n ≤ m)
    (hm : t (m + 1) < t n + 1000) : ¬Opens t (m + 1) := by
  unfold Opens
  rw [opener?_within ht hopens hle (Nat.lt_of_le_of_lt (ht (Nat.le_succ m)) hm), Option.elim_some]
  omega

theorem windowCalls_within (ht : Monotone t) (hopens : Opens t n) {m : Nat} (hle : n ≤ m)
    (hm : t m < t n + 1000) : windowCalls t (m + 1) = m + 1 - n := by
  unfold windowCalls
  rw [opener?_within ht hopens hle hm, Option.getD_some]

/-- Within the window that opened with the refill, the reserve is drawn on by each call beyond the limit. -/
theorem drawn_within (ht : Monotone t) (hlimit : 0 < limit) (hrefills : Refills t n) {m : Nat} (hle : n ≤ m)
    (hm : t m < t n + 1000) : (drawn t limit (m + 1) : Int) = 1 + max 0 (m + 1 - n - limit) := by
  induction m, hle using Nat.le_induction with
  | base =>
    rw [drawn_of_refills hrefills]
    omega
  | succ m hle ih =>
    have hdrawn := ih (Nat.lt_of_le_of_lt (ht (Nat.le_succ m)) hm)
    have hclosed := not_opens_within ht hrefills.1 hle hm
    have hdraws : Draws t limit (m + 1) ↔ limit < m + 2 - n := by
      unfold Draws
      rw [windowCalls_within ht hrefills.1 (Nat.le_succ_of_le hle) hm, and_iff_right hclosed]
      omega
    rw [drawn_of_not_refills fun h => hclosed h.1]
    push_cast
    rw [hdrawn]
    by_cases hlt : limit < m + 2 - n
    · rw [if_pos (hdraws.2 hlt)]
      omega
    · rw [if_neg (mt hdraws.1 hlt)]
      omega

end

/-- Whatever calls were made and denied before: if a limiter has rested for more than ten seconds, since the last
call or since it was made, the next call and those within a second of it find both the window and the reserve as
good as new. The reserve has been charged for the call that refilled it, so one less than twice the limit are
admitted, and then all are denied. -/
theorem heals_after_pause (limit : Int) (hlimit : 0 < limit) (t : Nat → Nat) (ht : Monotone t) (n : Nat)
    (hpause : lastCall t n + 10000 < t n) (k : Nat) (hk : t (n + k) < t n + 1000) :
    denied t limit (n + k) = false ↔ (k : Int) < 2 * limit - 1 := by
  have hle : n ≤ n + k := Nat.le_add_right n k
  have hrefills := refills_of_pause ht hpause
  have hoverdraws : Overdraws t limit (n + k) ↔ ¬(k : Int) < 2 * limit - 1 := by
    unfold Overdraws Draws
    rw [windowCalls_within ht hrefills.1 hle hk, drawn_within ht hlimit hrefills hle hk]
    constructor
    · rintro ⟨⟨-, hwindow⟩, hreserve⟩
      omega
    · intro hlate
      -- The call that opened the window comes early enough, so this is one of those after it.
      obtain ⟨j, rfl⟩ : ∃ j, k = j + 1 := ⟨k - 1, by omega⟩
      exact ⟨⟨not_opens_within ht hrefills.1 (Nat.le_add_right n j) hk, by omega⟩, by omega⟩
  rw [← Bool.not_eq_true, denied_eq_true_iff hlimit, hoverdraws, not_not]

/-- Nine calls at once, more than a limit of two admits; and then, little more than ten seconds later, one call in
every millisecond. -/
def burstThenPause (n : Nat) : Nat := if n < 9 then 5 else 10006 + (n - 9)

theorem monotone_burstThenPause : Monotone burstThenPause := by
  apply monotone_nat_of_le_succ
  intro n
  unfold burstThenPause
  split <;> split <;> omega

theorem burst_heals : (0 : Int) < 2 ∧ Monotone burstThenPause ∧
    lastCall burstThenPause 9 + 10000 < burstThenPause 9 ∧ denied burstThenPause 2 8 = true ∧
      denied burstThenPause 2 (9 + 2) = false ∧ denied burstThenPause 2 (9 + 3) = true := by
  have hpause : lastCall burstThenPause 9 + 10000 < burstThenPause 9 := by decide
  have hheals := heals_after_pause 2 (by decide) burstThenPause monotone_burstThenPause 9 hpause
  refine ⟨by decide, monotone_burstThenPause, hpause, by decide +kernel, ?_, ?_⟩
  · exact (hheals 2 (by decide)).2 (by decide)
  · rw [← Bool.not_eq_false, hheals 3 (by decide)]
    decide

end BrokerHooks.RateLimiter
