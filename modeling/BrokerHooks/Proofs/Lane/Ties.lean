import BrokerHooks.Proofs.Lane.Frame

namespace BrokerHooks

/-- What came first where work was due at the very instant at which its turn's time was up. -/
inductive First where
  | work
  | deadline
deriving DecidableEq, Repr

/-- The same came first, as far as both lists go. -/
def First.Agree (ds ds' : List First) : Prop := ∀ d ∈ ds.zip ds', d.1 = d.2

namespace Broker

/-- What a move decides where work for the lane's suspended chain is due at the very instant at which the
time of the chain's turn is up: the chain goes on before the work is done, or the work is done while the
turn is still pending. -/
def decides? (lane : Nat × Point) (b : Broker) : Move → Option First
  | .wake i => b.suspended[i]?.bind fun s =>
    if s.chain.lane = lane && b.isReady s && (b.tasksOf s.turn).any (b.deadline? s = some ·.1) then some .deadline
    else none
  | .work i => b.sleepers[i]?.bind fun w =>
    if b.awaitsIn lane w.site.turn && (b.turn? w.site.turn).bind Turn.deadline? = some w.due then some .work
    else none
  | _ => none

/-- What came first in a run, wherever both were due at one instant. -/
def decisions (lane : Nat × Point) (b : Broker) : List Move → List First
  | [] => []
  | m :: ms => (b.decides? lane m).toList ++ (b.move m).decisions lane ms

end Broker

namespace First.Agree

variable {d d' : First} {ds ds' : List First}

theorem symm (h : Agree ds ds') : Agree ds' ds := by
  intro x hx
  refine (h (x.2, x.1) ?_).symm
  rw [← List.zip_swap] at hx
  obtain ⟨y, hy, rfl⟩ := List.mem_map.1 hx
  exact hy

end First.Agree

namespace Broker

variable {lane : Nat × Point} {b b' : Broker} {m m' : Move} {ms : List Move}

theorem decides?_still (hs : b.stirs lane m = false) : b.decides? lane m = none := by
  cases m with
  | wake i =>
    cases hi : b.suspended[i]? with
    | none => simp [decides?, hi]
    | some s =>
      have hnot : (decide (s.chain.lane = lane) && b.isReady s) = false := by simpa [stirs, hi] using hs
      simp [decides?, hi, hnot]
  | work i =>
    cases hi : b.sleepers[i]? with
    | none => simp [decides?, hi]
    | some w =>
      have hnot : b.awaitsIn lane w.site.turn = false := by simpa [stirs, hi] using hs
      simp [decides?, hi, hnot]
  | _ => rfl

theorem decisions_still (hs : b.stirs lane m = false) (ms : List Move) :
    b.decisions lane (m :: ms) = (b.move m).decisions lane ms := by
  rw [decisions, decides?_still hs]
  rfl

theorem BeforeDeadline.decides (h : BeforeDeadline b m) : ∀ d ∈ b.decides? lane m, d = .deadline := by
  intro d hd
  cases m with
  | wake i =>
    cases hs : b.suspended[i]? with
    | none => simp [decides?, hs] at hd
    | some s =>
      simp only [decides?, hs, Option.bind_some, Option.mem_def, Option.ite_none_right_eq_some] at hd
      exact (Option.some.inj hd.2).symm
  | work i =>
    cases hw : b.sleepers[i]? with
    | none => simp [decides?, hw] at hd
    | some w =>
      simp only [decides?, hw, Option.bind_some, Option.mem_def, Option.ite_none_right_eq_some, Bool.and_eq_true,
        decide_eq_true_eq] at hd
      obtain ⟨⟨hawaits, hdeadline⟩, -⟩ := hd
      obtain ⟨s, hs, -, hturn⟩ := awaitsIn_iff.1 hawaits
      rw [← hturn] at hdeadline
      obtain ⟨deadline, hnext, hle⟩ := nextDeadline?_le hs hdeadline
      exact absurd (h i w rfl hw deadline hnext) (Nat.not_lt_of_le hle)
  | _ => cases hd

/-- Where both are due at one instant, the scheduler always lets the chain go on first. -/
theorem SessionRun.decisions (h : SessionRun b ms) : ∀ d ∈ b.decisions lane ms, d = .deadline := by
  induction ms generalizing b with
  | nil => exact List.forall_mem_nil _
  | cons m ms ih =>
    obtain ⟨-, hm, hms⟩ := h
    intro d hd
    rcases List.mem_append.1 hd with hd | hd
    · exact hm.decides d (Option.mem_toList.1 hd)
    · exact ih hms d hd

end Broker
end BrokerHooks
