import Mathlib.Algebra.Order.Floor.Div
import Mathlib.GroupTheory.GroupAction.Ring
import Mathlib.Tactic.GCongr
import Mathlib.Tactic.Linarith
import Mathlib.Tactic.Positivity
import Mathlib.Tactic.Ring
import BrokerHooks.RateLimiter

namespace BrokerHooks.RateLimiter

def admitted (r : RateLimiter) : List Nat → List Nat
  | [] => []
  | now :: times =>
    if (r.exceeded now).1 then admitted (r.exceeded now).2 times
    else now :: admitted (r.exceeded now).2 times

theorem mem_of_mem_admitted {r : RateLimiter} {times : List Nat} {x : Nat} (h : x ∈ r.admitted times) :
    x ∈ times := by
  induction times generalizing r with
  | nil => exact h
  | cons now times ih =>
    unfold admitted at h
    split at h
    · exact List.mem_cons_of_mem _ (ih h)
    · rcases List.mem_cons.1 h with rfl | h
      · exact List.mem_cons_self ..
      · exact List.mem_cons_of_mem _ (ih h)

/-- How many windows can still open from `s` on and before `u`. -/
def windowsLeft (r : RateLimiter) (s u : Nat) : Nat := (u - max s (r.windowStart + 1000)) ⌈/⌉ 1000

/-- How many times the reserve can still be refilled from `s` on and before `u`. -/
def refillsLeft (r : RateLimiter) (s u : Nat) : Nat := (u - max s (r.reserveStart + 10001)) ⌈/⌉ 10001

/-- An upper bound on the calls that can still be admitted from `s` on and before `u`: what the open
window and the reserve have left, and what each new window and each refill adds. -/
def allowance (r : RateLimiter) (s u : Nat) : Int :=
  max 0 (r.limit - r.calls) + max 0 (r.limit - r.reserve) + r.windowsLeft s u * r.limit +
    r.refillsLeft s u * (r.limit - 1)

theorem windowsLeft_le {s s' u : Nat} (r : RateLimiter) (h : s ≤ s') :
    r.windowsLeft s' u ≤ r.windowsLeft s u := by
  unfold windowsLeft
  rw [Nat.ceilDiv_eq_add_pred_div, Nat.ceilDiv_eq_add_pred_div]
  omega

theorem refillsLeft_le {s s' u : Nat} (r : RateLimiter) (h : s ≤ s') :
    r.refillsLeft s' u ≤ r.refillsLeft s u := by
  unfold refillsLeft
  rw [Nat.ceilDiv_eq_add_pred_div, Nat.ceilDiv_eq_add_pred_div]
  omega

/-- A window that opens before `u` is one of those that were left. -/
theorem windowsLeft_open {r r' : RateLimiter} {s now u : Nat} (hs : s ≤ now) (hu : now < u)
    (hopen : r.windowStart + 1000 ≤ now) (hstart : r'.windowStart = now) :
    r'.windowsLeft now u + 1 ≤ r.windowsLeft s u := by
  unfold windowsLeft
  rw [Nat.ceilDiv_eq_add_pred_div, Nat.ceilDiv_eq_add_pred_div, hstart]
  omega

theorem refillsLeft_refill {r r' : RateLimiter} {s now u : Nat} (hs : s ≤ now) (hu : now < u)
    (hopen : r.reserveStart + 10001 ≤ now) (hstart : r'.reserveStart = now) :
    r'.refillsLeft now u + 1 ≤ r.refillsLeft s u := by
  unfold refillsLeft
  rw [Nat.ceilDiv_eq_add_pred_div, Nat.ceilDiv_eq_add_pred_div, hstart]
  omega

section

variable {r : RateLimiter} {s now u : Nat}

theorem allowance_nonneg (hlimit : 0 < r.limit) (s u : Nat) : 0 ≤ r.allowance s u := by
  unfold allowance
  have hwindows : 0 ≤ (r.windowsLeft s u : Int) * r.limit := by positivity
  have hrefills : 0 ≤ (r.refillsLeft s u : Int) * (r.limit - 1) :=
    mul_nonneg (by positivity) (by omega)
  omega

/-- Each new window admits as many calls as the limit says, and each refill one call less: the call
that refills the reserve is charged against it. -/
theorem allowance_le (hlimit : 0 < r.limit) (s k : Nat) :
    r.allowance s (s + 1000 * k) ≤
      (k + 1) * r.limit + r.limit + ((1000 * k) ⌈/⌉ 10001 : Nat) * (r.limit - 1) := by
  have hwindows : r.windowsLeft s (s + 1000 * k) ≤ k := by
    unfold windowsLeft
    rw [Nat.ceilDiv_eq_add_pred_div]
    omega
  have hrefills : r.refillsLeft s (s + 1000 * k) ≤ (1000 * k) ⌈/⌉ 10001 := by
    unfold refillsLeft
    rw [Nat.ceilDiv_eq_add_pred_div, Nat.ceilDiv_eq_add_pred_div]
    omega
  have hcalls : max 0 (r.limit - r.calls) ≤ r.limit := by omega
  have hreserve : max 0 (r.limit - r.reserve) ≤ r.limit := by omega
  unfold allowance
  calc
    _ ≤ r.limit + r.limit + (k : Int) * r.limit +
        ((1000 * k) ⌈/⌉ 10001 : Nat) * (r.limit - 1) := by
      gcongr
      omega
    _ = _ := by ring

/-- The call that opens a window takes it out of the windows that were left. -/
theorem allowance_openWindow (hlimit : 0 < r.limit) (hs : s ≤ now) (hu : now < u)
    (hopen : r.windowStart + 1000 ≤ now) :
    1 + (r.openWindow now).allowance now u ≤ r.allowance s u := by
  have hstart : (r.openWindow now).windowStart = now := by
    unfold openWindow
    dsimp only
    split <;> rfl
  have hcalls : (r.openWindow now).calls = 1 := by
    unfold openWindow
    dsimp only
    split <;> rfl
  have hwindows : ((r.openWindow now).windowsLeft now u + 1 : Int) * r.limit ≤
      r.windowsLeft s u * r.limit := by
    have h := windowsLeft_open hs hu hopen hstart
    gcongr
    exact_mod_cast h
  -- The reserve is refilled with one call less, or is left as it is.
  have hreserve : max 0 (r.limit - (r.openWindow now).reserve) +
      (r.openWindow now).refillsLeft now u * (r.limit - 1) ≤
        max 0 (r.limit - r.reserve) + r.refillsLeft s u * (r.limit - 1) := by
    by_cases hrefill : now - r.reserveStart > reserveWindow
    · have hreserved : (r.openWindow now).reserve = 1 := by simp [openWindow, hrefill]
      have hrefilled : (r.openWindow now).reserveStart = now := by simp [openWindow, hrefill]
      have hleft := refillsLeft_refill (r := r) hs hu (by unfold reserveWindow at hrefill; omega) hrefilled
      have hmul : ((r.openWindow now).refillsLeft now u + 1 : Int) * (r.limit - 1) ≤
          r.refillsLeft s u * (r.limit - 1) := by
        gcongr
        · omega
        · exact_mod_cast hleft
      have hfirst : max 0 (r.limit - ((1 : Nat) : Int)) = r.limit - 1 := max_eq_right (by omega)
      have hroom : (0 : Int) ≤ max 0 (r.limit - r.reserve) := le_max_left ..
      rw [hreserved, hfirst]
      linarith
    · have hkept : (r.openWindow now).reserve = r.reserve := by simp [openWindow, hrefill]
      have hstays : (r.openWindow now).refillsLeft now u = r.refillsLeft now u := by
        simp [openWindow, hrefill, refillsLeft]
      have hmul : (r.refillsLeft now u : Int) * (r.limit - 1) ≤ r.refillsLeft s u * (r.limit - 1) := by
        have h := refillsLeft_le (u := u) r hs
        gcongr
        omega
      rw [hkept, hstays]
      linarith
  unfold allowance
  rw [limit_openWindow, hcalls]
  have hroom : (0 : Int) ≤ max 0 (r.limit - r.calls) := le_max_left ..
  have hfirst : max 0 (r.limit - ((1 : Nat) : Int)) = r.limit - 1 := max_eq_right (by omega)
  rw [hfirst]
  linarith

/-- A call in an open window takes one off what the window has left, or else off what the reserve has
left; where neither has anything left it is denied. -/
theorem allowance_exceeded (hlimit : 0 < r.limit) (hs : s ≤ now) (hu : now < u) :
    (if (r.exceeded now).1 then 0 else 1) + (r.exceeded now).2.allowance now u ≤ r.allowance s u := by
  have hpos : ¬r.limit ≤ 0 := by omega
  by_cases hopen : now - r.windowStart ≥ window
  · have h := allowance_openWindow (s := s) hlimit hs hu (by unfold window at hopen; omega)
    simpa [exceeded, hpos, hopen] using h
  · have hwindows : (r.windowsLeft now u : Int) * r.limit ≤ r.windowsLeft s u * r.limit := by
      have h := windowsLeft_le (u := u) r hs
      gcongr
    have hrefills : (r.refillsLeft now u : Int) * (r.limit - 1) ≤ r.refillsLeft s u * (r.limit - 1) := by
      have h := refillsLeft_le (u := u) r hs
      gcongr
      omega
    -- Within the window either its own calls or the reserve pay for the call, unless it is denied.
    by_cases hcalls : ((r.calls + 1 : Nat) : Int) ≤ r.limit
    · have hnext : r.exceeded now = (false, { r with calls := r.calls + 1 }) := by
        unfold exceeded
        rw [if_neg hpos, if_neg hopen]
        exact if_pos hcalls
      rw [hnext]
      simp only [allowance, windowsLeft, refillsLeft] at hwindows hrefills ⊢
      push_cast at hcalls ⊢
      omega
    · have hnext : r.exceeded now = (decide (r.limit < ((r.reserve + 1 : Nat) : Int)),
          { r with calls := r.calls + 1, reserve := r.reserve + 1 }) := by
        unfold exceeded
        rw [if_neg hpos, if_neg hopen]
        exact if_neg hcalls
      rw [hnext]
      simp only [allowance, windowsLeft, refillsLeft, decide_eq_true_eq] at hwindows hrefills ⊢
      push_cast at hcalls ⊢
      split <;> omega

end

/-- Of the calls that come from `s` on, those before `u` are admitted at the expense of the allowance. -/
theorem countP_admitted_le (r : RateLimiter) (hlimit : 0 < r.limit) (s u : Nat) (times : List Nat)
    (hsorted : times.Pairwise (· ≤ ·)) (hfrom : ∀ now ∈ times, s ≤ now) :
    ((r.admitted times).countP (· < u) : Int) ≤ r.allowance s u := by
  induction times generalizing r s with
  | nil => simpa [admitted] using allowance_nonneg hlimit s u
  | cons now times ih =>
    obtain ⟨hle, hsorted⟩ := List.pairwise_cons.1 hsorted
    have hs : s ≤ now := hfrom now (List.mem_cons_self ..)
    by_cases hu : now < u
    · have hrest := ih (r.exceeded now).2 (by simpa using hlimit) now hsorted hle
      have hstep := allowance_exceeded (r := r) hlimit hs hu
      unfold admitted
      split <;> rename_i hdenied
      · rw [if_pos hdenied] at hstep
        linarith
      · rw [if_neg hdenied] at hstep
        rw [List.countP_cons_of_pos (by simpa using hu)]
        push_cast
        linarith
    · -- This call and all that come after it are too late.
      have hnone : (r.admitted (now :: times)).countP (· < u) = 0 := by
        rw [List.countP_eq_zero]
        intro x hx
        have hmem := mem_of_mem_admitted hx
        rcases List.mem_cons.1 hmem with rfl | hmem
        · simpa using hu
        · have := hle x hmem
          simp
          omega
      rw [hnone]
      exact allowance_nonneg hlimit s u

def admittedIn (r : RateLimiter) (t u : Nat) (times : List Nat) : Nat :=
  (r.admitted times).countP fun now => t ≤ now ∧ now < u

theorem admittedIn_le (r : RateLimiter) (hlimit : 0 < r.limit) (t k : Nat) (times : List Nat)
    (hsorted : times.Pairwise (· ≤ ·)) :
    (r.admittedIn t (t + 1000 * k) times : Int) ≤
      (k + 1) * r.limit + r.limit + ((1000 * k) ⌈/⌉ 10001 : Nat) * (r.limit - 1) := by
  induction times generalizing r with
  | nil =>
    have hbound := (allowance_nonneg hlimit t (t + 1000 * k)).trans (allowance_le hlimit t k)
    simpa [admittedIn, admitted] using hbound
  | cons now times ih =>
    obtain ⟨hle, hsorted'⟩ := List.pairwise_cons.1 hsorted
    by_cases ht : t ≤ now
    · -- From here on all calls come in the interval or after it.
      have hfrom : ∀ x ∈ now :: times, t ≤ x := by
        intro x hx
        rcases List.mem_cons.1 hx with rfl | hx
        · exact ht
        · exact ht.trans (hle x hx)
      have hcount : r.admittedIn t (t + 1000 * k) (now :: times) =
          (r.admitted (now :: times)).countP (· < t + 1000 * k) := by
        apply List.countP_congr
        intro x hx
        have := hfrom x (mem_of_mem_admitted hx)
        simpa using fun _ => this
      rw [hcount]
      exact (countP_admitted_le r hlimit t _ _ hsorted hfrom).trans (allowance_le hlimit t k)
    · have hcount : r.admittedIn t (t + 1000 * k) (now :: times) =
          (r.exceeded now).2.admittedIn t (t + 1000 * k) times := by
        unfold admittedIn
        rw [admitted]
        split
        · rfl
        · exact List.countP_cons_of_neg (by simp [ht])
      have hrest := ih (r.exceeded now).2 (by simpa using hlimit) hsorted'
      rwa [hcount, ← limit_exceeded r now]

/-- However the calls are spread, a limiter that has just been made admits in any `k` seconds no more
than the limit for each of `k + 1` windows, the reserve, and what refills add to it. -/
theorem admitted_in_interval_le (limit : Int) (hlimit : 0 < limit) (times : List Nat)
    (hsorted : times.Pairwise (· ≤ ·)) (t : Nat) :
    (∀ k : Nat, (admittedIn { limit } t (t + 1000 * k) times : Int) ≤
        (k + 1) * limit + limit + ((1000 * k) ⌈/⌉ 10001 : Nat) * (limit - 1)) ∧
      (admittedIn { limit } t (t + 1000) times : Int) ≤ 4 * limit - 1 ∧
      (admittedIn { limit } t (t + 10000) times : Int) ≤ 13 * limit - 1 := by
  have h (k : Nat) := admittedIn_le { limit } hlimit t k times hsorted
  have hone : (1000 * 1) ⌈/⌉ 10001 = 1 := by decide
  have hten : (1000 * 10) ⌈/⌉ 10001 = 1 := by decide
  have hsecond := h 1
  have htenSeconds := h 10
  rw [hone] at hsecond
  rw [hten] at htenSeconds
  refine ⟨h, ?_, ?_⟩
  · push_cast at hsecond
    linarith
  · push_cast at htenSeconds
    linarith

/-- Calls around a refill: a window that is used up with the reserve, and the next, which refills it. -/
def aroundRefill : List Nat := [9500, 10499, 10499, 10499, 10499, 10500, 10500, 10500, 10500]

theorem admitted_around_refill :
    (0 : Int) < 2 ∧ aroundRefill.Pairwise (· ≤ ·) ∧
      admittedIn { limit := 2 } 9501 (9501 + 1000) aroundRefill = 6 ∧
      (admittedIn { limit := 2 } 9501 (9501 + 1000) aroundRefill : Int) ≤ 4 * 2 - 1 := by
  have hsorted : aroundRefill.Pairwise (· ≤ ·) := by decide
  exact ⟨by decide, hsorted, by decide,
    (admitted_in_interval_le 2 (by decide) aroundRefill hsorted 9501).2.1⟩

end BrokerHooks.RateLimiter
