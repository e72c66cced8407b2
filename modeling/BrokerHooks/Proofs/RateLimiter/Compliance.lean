import Mathlib.Data.List.Induction
import BrokerHooks.RateLimiter

namespace BrokerHooks.RateLimiter

variable {r : RateLimiter} {times : List Nat} {now : Nat}

def after (r : RateLimiter) (times : List Nat) : RateLimiter :=
  times.foldl (fun r now => (r.exceeded now).2) r

@[simp] theorem after_nil (r : RateLimiter) : r.after [] = r := rfl

@[simp] theorem after_concat (r : RateLimiter) (times : List Nat) (now : Nat) :
    r.after (times ++ [now]) = ((r.after times).exceeded now).2 := List.foldl_append

def callsFrom (t : Nat) (times : List Nat) : Nat := times.countP fun x => t ≤ x ∧ x < t + 1000

/-- The open window counts the calls that have come since it began, the one that opened it included. All
earlier calls have come before it ends. -/
structure Counts (r : RateLimiter) (times : List Nat) : Prop where
  start : r.windowStart = 0 ∨ r.windowStart ∈ times
  inWindow : ∀ x ∈ times, x < r.windowStart + 1000
  calls : r.calls = times.countP (r.windowStart ≤ ·)

theorem counts_nil (limit : Int) : Counts { limit } [] where
  start := .inl rfl
  inWindow := List.forall_mem_nil _
  calls := rfl

/-- The call that opens a window is the first one in it. -/
theorem exceeded_opening (hlimit : 0 < r.limit) (hopen : r.windowStart + 1000 ≤ now) :
    r.exceeded now = (false, r.openWindow now) := by
  have hpos : ¬r.limit ≤ 0 := by omega
  have hwindow : now - r.windowStart ≥ window := by unfold window; omega
  unfold exceeded
  rw [if_neg hpos, if_pos hwindow]

theorem openWindow_counts (r : RateLimiter) (now : Nat) :
    (r.openWindow now).windowStart = now ∧ (r.openWindow now).calls = 1 := by
  unfold openWindow
  dsimp only
  split <;> exact ⟨rfl, rfl⟩

/-- Any other call is counted in the open window, and is admitted unless it is beyond the limit. -/
theorem exceeded_within (hlimit : 0 < r.limit) (hopen : now < r.windowStart + 1000) :
    (r.exceeded now).2.windowStart = r.windowStart ∧ (r.exceeded now).2.calls = r.calls + 1 ∧
      (((r.calls + 1 : Nat) : Int) ≤ r.limit → (r.exceeded now).1 = false) := by
  have hpos : ¬r.limit ≤ 0 := by omega
  have hwindow : ¬now - r.windowStart ≥ window := by unfold window; omega
  unfold exceeded
  rw [if_neg hpos, if_neg hwindow]
  by_cases hcalls : ((r.calls + 1 : Nat) : Int) ≤ r.limit
  · rw [if_pos hcalls]
    exact ⟨rfl, rfl, fun _ => rfl⟩
  · rw [if_neg hcalls]
    exact ⟨rfl, rfl, fun h => absurd h hcalls⟩

theorem Counts.le_now (h : Counts r times) (hle : ∀ x ∈ times, x ≤ now) : r.windowStart ≤ now := by
  rcases h.start with hzero | hmem
  · omega
  · exact hle _ hmem

theorem Counts.exceeded (h : Counts r times) (hlimit : 0 < r.limit) (hle : ∀ x ∈ times, x ≤ now) :
    Counts (r.exceeded now).2 (times ++ [now]) := by
  by_cases hopen : r.windowStart + 1000 ≤ now
  · obtain ⟨hstart, hcalls⟩ := openWindow_counts r now
    -- The calls before this one all belong to windows that have ended.
    have hearlier : ∀ x ∈ times, x < now := fun x hx => Nat.lt_of_lt_of_le (h.inWindow x hx) hopen
    have hnone : times.countP (now ≤ ·) = 0 := by
      rw [List.countP_eq_zero]
      intro x hx
      have := hearlier x hx
      simpa using this
    rw [exceeded_opening hlimit hopen]
    refine ⟨.inr ?_, fun x hx => ?_, ?_⟩
    · simp [hstart]
    · have hx : x ≤ now := by
        rcases List.mem_append.1 hx with hx | hx
        · exact hle x hx
        · exact Nat.le_of_eq (List.mem_singleton.1 hx)
      rw [hstart]
      omega
    · rw [hcalls, hstart, List.countP_append, hnone]
      simp
  · obtain ⟨hstart, hcalls, -⟩ := exceeded_within hlimit (Nat.lt_of_not_le hopen)
    have hsince := h.le_now hle
    refine ⟨?_, fun x hx => ?_, ?_⟩
    · rw [hstart]
      exact h.start.imp_right (List.mem_append_left _)
    · rw [hstart]
      rcases List.mem_append.1 hx with hx | hx
      · exact h.inWindow x hx
      · obtain rfl := List.mem_singleton.1 hx
        exact Nat.lt_of_not_le hopen
    · rw [hcalls, hstart, h.calls, List.countP_append]
      simp [hsince]

theorem limit_after (r : RateLimiter) (times : List Nat) : (r.after times).limit = r.limit := by
  induction times using List.reverseRecOn with
  | nil => rfl
  | append_singleton times now ih => rw [after_concat, limit_exceeded, ih]

theorem counts_after {limit : Int} (hlimit : 0 < limit) {times : List Nat} (hsorted : times.Pairwise (· ≤ ·)) :
    Counts (after { limit } times) times := by
  induction times using List.reverseRecOn with
  | nil => exact counts_nil limit
  | append_singleton times now ih =>
    obtain ⟨hearlier, -, hle⟩ := List.pairwise_append.1 hsorted
    rw [after_concat]
    refine (ih hearlier).exceeded ?_ fun x hx => hle x hx now (List.mem_singleton_self now)
    rw [limit_after]
    exact hlimit

/-- A call is admitted if the second in which its window falls holds no more calls than the limit. -/
theorem Counts.admits (h : Counts r times) (hlimit : 0 < r.limit) (hle : ∀ x ∈ times, x ≤ now)
    (hrate : (callsFrom r.windowStart (times ++ [now]) : Int) ≤ r.limit) : (r.exceeded now).1 = false := by
  by_cases hopen : r.windowStart + 1000 ≤ now
  · rw [exceeded_opening hlimit hopen]
  · obtain ⟨-, -, hadmit⟩ := exceeded_within hlimit (Nat.lt_of_not_le hopen)
    -- What the window has counted is what has come in its second.
    have hcount : callsFrom r.windowStart (times ++ [now]) = r.calls + 1 := by
      have hearlier : times.countP (fun x => r.windowStart ≤ x ∧ x < r.windowStart + 1000) =
          times.countP (r.windowStart ≤ ·) := by
        refine List.countP_congr fun x hx => ?_
        have := h.inWindow x hx
        simp [this]
      have hnow : r.windowStart ≤ now ∧ now < r.windowStart + 1000 :=
        ⟨h.le_now hle, Nat.lt_of_not_le hopen⟩
      rw [callsFrom, List.countP_append, hearlier, h.calls]
      simp [hnow]
    rw [hcount] at hrate
    exact hadmit hrate

/-- If no second holds more calls than the limit, none of them is denied, however the windows of the limiter
lie against the calls. -/
theorem compliant_never_denied (limit : Int) (hlimit : 0 < limit) (times : List Nat)
    (hsorted : times.Pairwise (· ≤ ·)) (hrate : ∀ t, (callsFrom t times : Int) ≤ limit)
    (before later : List Nat) (now : Nat) (hcall : times = before ++ now :: later) :
    ((after { limit } before).exceeded now).1 = false := by
  subst hcall
  obtain ⟨hearlier, -, hle⟩ := List.pairwise_append.1 hsorted
  have hcounts := counts_after hlimit hearlier
  have hlimit' : (after { limit } before).limit = limit := limit_after ..
  refine hcounts.admits (by rwa [hlimit']) (fun x hx => hle x hx now (by simp)) ?_
  have hfewer : callsFrom (after { limit } before).windowStart (before ++ [now]) ≤
      callsFrom (after { limit } before).windowStart (before ++ now :: later) := by
    refine List.Sublist.countP_le ?_
    simp
  have htotal := hrate (after { limit } before).windowStart
  rw [hlimit']
  omega

/-- Two calls in any second, in pairs that lie across the edges of the windows. -/
def inPairs : List Nat := [999, 1000, 1999, 2000, 2999, 12999]

theorem inPairs_never_denied :
    (0 : Int) < 2 ∧ inPairs.Pairwise (· ≤ ·) ∧ (∀ t, (callsFrom t inPairs : Int) ≤ 2) ∧
      ((after { limit := 2 } [999, 1000, 1999, 2000, 2999]).exceeded 12999).1 = false := by
  have hsorted : inPairs.Pairwise (· ≤ ·) := by decide
  have hrate : ∀ t, (callsFrom t inPairs : Int) ≤ 2 := by
    intro t
    simp only [callsFrom, inPairs, List.countP_cons, List.countP_nil, decide_eq_true_eq]
    split_ifs <;> omega
  exact ⟨by decide, hsorted, hrate,
    compliant_never_denied 2 (by decide) inPairs hsorted hrate [999, 1000, 1999, 2000, 2999] [] 12999 rfl⟩

end BrokerHooks.RateLimiter
