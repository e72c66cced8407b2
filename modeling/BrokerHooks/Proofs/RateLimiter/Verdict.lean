import Mathlib.Data.Nat.Count
import BrokerHooks.Proofs.RateLimiter.Compliance

namespace BrokerHooks.RateLimiter

section

variable {r : RateLimiter} {now : Nat}

theorem openWindow_refilling (h : r.reserveStart + 10000 < now) :
    r.openWindow now = { r with windowStart := now, calls := 1, reserveStart := now, reserve := 1 } := by
  have hrefill : now - r.reserveStart > reserveWindow := by unfold reserveWindow; omega
  unfold openWindow
  exact if_pos hrefill

theorem openWindow_keeping (h : ¬r.reserveStart + 10000 < now) :
    r.openWindow now = { r with windowStart := now, calls := 1 } := by
  have hkeep : ¬now - r.reserveStart > reserveWindow := by unfold reserveWindow; omega
  unfold openWindow
  exact if_neg hkeep

/-- Within an open window the reserve is spared up to the limit. -/
theorem exceeded_sparing (hlimit : 0 < r.limit) (hopen : now < r.windowStart + 1000)
    (hcalls : ((r.calls + 1 : Nat) : Int) ≤ r.limit) :
    r.exceeded now = (false, { r with calls := r.calls + 1 }) := by
  have hpos : ¬r.limit ≤ 0 := by omega
  have hwindow : ¬now - r.windowStart ≥ window := by unfold window; omega
  unfold exceeded
  rw [if_neg hpos, if_neg hwindow]
  exact if_pos hcalls

theorem exceeded_drawing (hlimit : 0 < r.limit) (hopen : now < r.windowStart + 1000)
    (hcalls : r.limit < ((r.calls + 1 : Nat) : Int)) :
    r.exceeded now = (decide (r.limit < ((r.reserve + 1 : Nat) : Int)),
      { r with calls := r.calls + 1, reserve := r.reserve + 1 }) := by
  have hpos : ¬r.limit ≤ 0 := by omega
  have hwindow : ¬now - r.windowStart ≥ window := by unfold window; omega
  have hbeyond : ¬((r.calls + 1 : Nat) : Int) ≤ r.limit := by omega
  unfold exceeded
  rw [if_neg hpos, if_neg hwindow]
  exact if_neg hbeyond

end

section

/-- The latest of the first `n` calls that is of some kind, where it matters which was the latest before it. -/
def latest? (kind : Option Nat → Nat → Prop) [∀ earlier, DecidablePred (kind earlier)] : Nat → Option Nat
  | 0 => none
  | n + 1 => if kind (latest? kind n) n then some n else latest? kind n

variable (t : Nat → Nat)

/-- The latest of the first `n` calls that opened a window. A call opens one if it comes at least a second after
the call that opened the window before, or after the limiter was made. -/
def opener? (n : Nat) : Option Nat := latest? (fun earlier n => earlier.elim 0 t + 1000 ≤ t n) n

def Opens (n : Nat) : Prop := (opener? t n).elim 0 t + 1000 ≤ t n

instance (n : Nat) : Decidable (Opens t n) := inferInstanceAs (Decidable (_ ≤ _))

/-- The latest of the first `n` calls that refilled the reserve: it opened a window, more than ten seconds after
the call that refilled the reserve before, or after the limiter was made. -/
def refiller? (n : Nat) : Option Nat :=
  latest? (fun earlier n => Opens t n ∧ earlier.elim 0 t + 10000 < t n) n

def Refills (n : Nat) : Prop := Opens t n ∧ (refiller? t n).elim 0 t + 10000 < t n

instance (n : Nat) : Decidable (Refills t n) := inferInstanceAs (Decidable (_ ∧ _))

/-- How many of the first `n` calls came since the latest that opened a window, that one included. -/
def windowCalls (n : Nat) : Nat := n - (opener? t n).getD 0

variable (limit : Int)

def Draws (n : Nat) : Prop := ¬Opens t n ∧ limit < windowCalls t (n + 1)

instance (n : Nat) : Decidable (Draws t limit n) := inferInstanceAs (Decidable (_ ∧ _))

/-- How many of the first `n` calls found a used up window since the reserve was refilled; the call that refilled
it counts as one more. -/
def drawn (n : Nat) : Nat :=
  Nat.count (fun m => (refiller? t n).getD 0 ≤ m ∧ Draws t limit m) n + if (refiller? t n).isSome then 1 else 0

def Overdraws (n : Nat) : Prop := Draws t limit n ∧ limit < drawn t limit (n + 1)

instance (n : Nat) : Decidable (Overdraws t limit n) := inferInstanceAs (Decidable (_ ∧ _))

def denied (n : Nat) : Bool := ((after { limit } ((List.range n).map t)).exceeded (t n)).1

end

section

variable {t : Nat → Nat} {limit : Int} {n m : Nat}

theorem opener?_succ (n : Nat) : opener? t (n + 1) = if Opens t n then some n else opener? t n := rfl

theorem refiller?_succ (n : Nat) : refiller? t (n + 1) = if Refills t n then some n else refiller? t n := rfl

theorem latest?_lt {kind : Option Nat → Nat → Prop} [∀ earlier, DecidablePred (kind earlier)]
    (h : latest? kind n = some m) : m < n := by
  induction n with
  | zero => cases h
  | succ n ih =>
    unfold latest? at h
    split at h
    · cases h
      exact Nat.lt_add_one m
    · exact Nat.lt_add_right 1 (ih h)

theorem latest?_getD_le (kind : Option Nat → Nat → Prop) [∀ earlier, DecidablePred (kind earlier)] (n : Nat) :
    (latest? kind n).getD 0 ≤ n := by
  cases h : latest? kind n with
  | none => exact Nat.zero_le n
  | some m => exact Nat.le_of_lt (latest?_lt h)

theorem windowCalls_of_opens (h : Opens t n) : windowCalls t (n + 1) = 1 := by
  unfold windowCalls
  rw [opener?_succ, if_pos h, Option.getD_some]
  omega

theorem windowCalls_of_not_opens (h : ¬Opens t n) : windowCalls t (n + 1) = windowCalls t n + 1 := by
  have hle : (opener? t n).getD 0 ≤ n := latest?_getD_le _ n
  unfold windowCalls
  rw [opener?_succ, if_neg h]
  omega

/-- After a refill only the call that made it has been charged. -/
theorem drawn_of_refills (h : Refills t n) : drawn t limit (n + 1) = 1 := by
  have hnone : Nat.count (fun m => n ≤ m ∧ Draws t limit m) (n + 1) = 0 := by
    rw [Nat.count_iff_forall_not]
    rintro m hm ⟨hle, hdraws⟩
    obtain rfl : m = n := by omega
    exact hdraws.1 h.1
  unfold drawn
  rw [refiller?_succ, if_pos h]
  simp only [Option.getD_some, Option.isSome_some, if_true]
  omega

theorem drawn_of_not_refills (h : ¬Refills t n) :
    drawn t limit (n + 1) = drawn t limit n + if Draws t limit n then 1 else 0 := by
  have hle : (refiller? t n).getD 0 ≤ n := latest?_getD_le _ n
  unfold drawn
  rw [refiller?_succ, if_neg h, Nat.count_succ]
  simp only [hle, true_and]
  omega

end

/-- The counters of the limiter are what the times of the first `n` calls say. -/
structure Follows (r : RateLimiter) (t : Nat → Nat) (n : Nat) : Prop where
  windowStart : r.windowStart = (opener? t n).elim 0 t
  calls : r.calls = windowCalls t n
  reserveStart : r.reserveStart = (refiller? t n).elim 0 t
  reserve : r.reserve = drawn t r.limit n

section

variable {t : Nat → Nat} {r : RateLimiter} {n : Nat}

theorem follows_new (limit : Int) (t : Nat → Nat) : Follows { limit } t 0 where
  windowStart := rfl
  calls := rfl
  reserveStart := rfl
  reserve := rfl

/-- What one call preserves, and its verdict. -/
theorem Follows.exceeded (h : Follows r t n) (hlimit : 0 < r.limit) :
    Follows (r.exceeded (t n)).2 t (n + 1) ∧ ((r.exceeded (t n)).1 = true ↔ Overdraws t r.limit n) := by
  by_cases hopens : Opens t n
  · -- The call opens a window, and draws on nothing.
    have hopen : r.windowStart + 1000 ≤ t n := h.windowStart ▸ hopens
    have hspares : ¬Draws t r.limit n := fun hdraws => hdraws.1 hopens
    have hstart : (opener? t (n + 1)).elim 0 t = t n := by rw [opener?_succ, if_pos hopens, Option.elim_some]
    rw [exceeded_opening hlimit hopen]
    refine ⟨?_, ⟨nofun, fun hoverdraws => absurd hoverdraws.1 hspares⟩⟩
    by_cases hrefills : Refills t n
    · rw [openWindow_refilling (h.reserveStart ▸ hrefills.2)]
      refine ⟨hstart.symm, (windowCalls_of_opens hopens).symm, ?_, (drawn_of_refills hrefills).symm⟩
      rw [refiller?_succ, if_pos hrefills, Option.elim_some]
    · have hkeeps : ¬r.reserveStart + 10000 < t n := fun hlt => hrefills ⟨hopens, h.reserveStart ▸ hlt⟩
      rw [openWindow_keeping hkeeps]
      refine ⟨hstart.symm, (windowCalls_of_opens hopens).symm, ?_, ?_⟩
      · rw [refiller?_succ, if_neg hrefills]
        exact h.reserveStart
      · rw [drawn_of_not_refills hrefills, if_neg hspares]
        exact h.reserve
  · -- The call falls in the open window, and draws on the reserve once that is used up.
    have hopen : t n < r.windowStart + 1000 := by
      rw [h.windowStart]
      exact Nat.lt_of_not_le hopens
    have hrefills : ¬Refills t n := fun hrefills => hopens hrefills.1
    have hcalls : r.calls + 1 = windowCalls t (n + 1) := by
      rw [windowCalls_of_not_opens hopens, h.calls]
    have hstart : r.windowStart = (opener? t (n + 1)).elim 0 t := by
      rw [opener?_succ, if_neg hopens]
      exact h.windowStart
    have hreserveStart : r.reserveStart = (refiller? t (n + 1)).elim 0 t := by
      rw [refiller?_succ, if_neg hrefills]
      exact h.reserveStart
    by_cases hdraws : Draws t r.limit n
    · have hreserve : r.reserve + 1 = drawn t r.limit (n + 1) := by
        rw [drawn_of_not_refills hrefills, if_pos hdraws, h.reserve]
      rw [exceeded_drawing hlimit hopen (hcalls ▸ hdraws.2)]
      refine ⟨⟨hstart, hcalls, hreserveStart, hreserve⟩, ?_⟩
      rw [decide_eq_true_eq, hreserve]
      exact ⟨fun hlt => ⟨hdraws, hlt⟩, fun hoverdraws => hoverdraws.2⟩
    · have hspared : ((r.calls + 1 : Nat) : Int) ≤ r.limit := by
        rw [hcalls]
        exact Int.not_lt.1 fun hlt => hdraws ⟨hopens, hlt⟩
      rw [exceeded_sparing hlimit hopen hspared]
      refine ⟨⟨hstart, hcalls, hreserveStart, ?_⟩, ⟨nofun, fun hoverdraws => absurd hoverdraws.1 hdraws⟩⟩
      rw [drawn_of_not_refills hrefills, if_neg hdraws]
      exact h.reserve

theorem follows_after {limit : Int} (hlimit : 0 < limit) (t : Nat → Nat) (n : Nat) :
    Follows (after { limit } ((List.range n).map t)) t n := by
  induction n with
  | zero => exact follows_new limit t
  | succ n ih =>
    rw [List.range_succ, List.map_append, List.map_singleton, after_concat]
    refine (ih.exceeded ?_).1
    rw [limit_after]
    exact hlimit

theorem denied_eq_true_iff {limit : Int} (hlimit : 0 < limit) (t : Nat → Nat) (n : Nat) :
    denied t limit n = true ↔ Overdraws t limit n := by
  have hsame : (after { limit } ((List.range n).map t)).limit = limit := limit_after ..
  have hverdict := ((follows_after hlimit t n).exceeded (by rwa [hsame])).2
  rw [hsame] at hverdict
  exact hverdict

end

theorem exceeded_off {r : RateLimiter} (hlimit : r.limit ≤ 0) (now : Nat) : r.exceeded now = (false, r) := by
  unfold exceeded
  exact if_pos hlimit

/-- Of any calls, whenever they come, those are denied that find their window and the reserve used up, going by
the times of the calls up to then; and none is denied if there is no limit. -/
theorem denied_iff_overdraws (limit : Int) (t : Nat → Nat) (n : Nat) :
    denied t limit n = true ↔ 0 < limit ∧ Overdraws t limit n := by
  by_cases hpos : 0 < limit
  · exact (denied_eq_true_iff hpos t n).trans (and_iff_right hpos).symm
  · have hsame : (after { limit } ((List.range n).map t)).limit = limit := limit_after ..
    have hadmitted : denied t limit n = false := by
      unfold denied
      rw [exceeded_off (by omega)]
    rw [hadmitted]
    exact ⟨nofun, fun h => absurd h.1 hpos⟩

/-- The reserve is refilled only after more than ten seconds, and then charged for the call that refilled it. -/
example : let t := ([0, 0, 0, 10000, 10000, 11000, 11000].getD · 0)
    (List.range 7).filter (Refills t ·) = [5] ∧ (List.range 7).filter (Overdraws t 1 ·) = [2, 4, 6] ∧
      (List.range 7).filter (denied t 1 ·) = [2, 4, 6] := by decide

end BrokerHooks.RateLimiter
