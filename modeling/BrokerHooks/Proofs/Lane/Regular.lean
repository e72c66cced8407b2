import BrokerHooks.Proofs.Lane.Code
import BrokerHooks.Proofs.Run.Scheduler

namespace BrokerHooks

/-- Code outside of all chains does more than hand over a packet. -/
def Move.isOutside : Move → Bool
  | .perform .. | .openConnection .. | .track _ | .untrack _ | .letGo _ | .add .. => true
  | .submit .. | .begin _ | .wake _ | .work _ | .elapse _ | .sweep | .observeAliases => false

/-- A move in a run of hooks that act on their own output alone, as time would have it. -/
structure Broker.Regular (b : Broker) (m : Move) : Prop where
  /-- Time passes only while nothing can run at this instant, up to what is due next. -/
  prompt : (b.move m).now ≠ b.now →
    b.instant? = none ∧ ∀ due, b.nextDue? = some due → (b.move m).now ≤ max b.now due
  /-- Work that was left behind is done when nothing else can run, that which is due earliest first. -/
  works : ∀ i w, m = .work i → b.sleepers[i]? = some w → b.instant? = none ∧
    (∀ w' ∈ b.sleepers, w.due ≤ w'.due) ∧ ∀ w' ∈ b.sleepers.take i, w.due ≠ w'.due
  /-- Code outside acts only when nothing more happens at this instant. -/
  outside : m.isOutside → b.isQuietUntil b.now
  handed : ∀ connection point p, m = .submit connection point p → b.roster.isReleased connection = false
  own : ∀ place id point family respond, m = .add place id point family respond → ActsOnOwnOutput respond

namespace Broker

def RegularRun : Broker → List Move → Prop
  | _, [] => True
  | b, m :: ms => Regular b m ∧ RegularRun (b.move m) ms

variable {b b' : Broker}

/-- A move that takes no time and does no work that was left behind is regular, unless it comes from outside. -/
theorem regular_of_now {m : Move} (hnow : (b.move m).now = b.now) (hwork : ∀ i, m ≠ .work i)
    (houtside : m.isOutside = false) (hsubmit : ∀ connection point p, m ≠ .submit connection point p) :
    Regular b m where
  prompt h := absurd hnow h
  works i _ hm := absurd hm (hwork i)
  outside h := by
    rw [houtside] at h
    cases h
  handed _ _ _ hm := absurd hm (hsubmit _ _ _)
  own _ _ _ _ _ hm := by
    rw [hm] at houtside
    cases houtside

theorem regular_begin (b : Broker) (lane : Nat × Point) : Regular b (.begin lane) := by
  refine regular_of_now ?_ (by simp) rfl (by simp)
  simp only [Broker.move]
  split
  · split
    · exact (begin_halts _ _ fun _ => False).now
    · rfl
  · rfl

theorem regular_wake (b : Broker) (i : Nat) : Regular b (.wake i) := by
  refine regular_of_now ?_ (by simp) rfl (by simp)
  simp only [Broker.move]
  split
  · exact (wake_halts _ _).now
  · rfl

theorem regular_submit {connection : Nat} (h : b.roster.isReleased connection = false) (point : Point) (p : Packet) :
    Regular b (.submit connection point p) := by
  constructor
  case prompt =>
    refine fun hpasses => absurd ?_ hpasses
    simp only [Broker.move, submit]
    split <;> rfl
  case handed =>
    intro connection' point' p' hm
    cases hm
    exact h
  case works | outside | own => simp [Move.isOutside]

theorem regular_elapse {time : Nat} (hstill : b.instant? = none)
    (hdue : ∀ due, b.nextDue? = some due → time ≤ due) : Regular b (.elapse time) := by
  constructor
  case prompt =>
    refine fun _ => ⟨hstill, fun due hnext => ?_⟩
    have hle := hdue due hnext
    have hnow : (b.move (.elapse time)).now = max b.now time := rfl
    omega
  case works | outside | handed | own => simp [Move.isOutside]

theorem regularRun_append {ms ns : List Move} :
    RegularRun b (ms ++ ns) ↔ RegularRun b ms ∧ RegularRun (b.play ms) ns := by
  induction ms generalizing b with
  | nil => simp [RegularRun]
  | cons m ms ih => simp [RegularRun, ih, and_assoc]

theorem nextDue?_mem {due : Nat} (h : b.nextDue? = some due) :
    (∃ w ∈ b.sleepers, w.due = due) ∨ ∃ s ∈ b.suspended, b.deadline? s = some due := by
  rcases List.mem_append.1 (List.min?_mem h) with hmem | hmem
  · exact .inl (List.mem_map.1 hmem)
  · exact .inr (List.mem_filterMap.1 hmem)

theorem regular_work (hstill : b.instant? = none) {i : Nat} {w : Sleeper} (hw : b.sleepers[i]? = some w)
    (hearliest : ∀ w' ∈ b.sleepers, w.due ≤ w'.due) (hfirst : ∀ w' ∈ b.sleepers.take i, w.due ≠ w'.due)
    (hdue : ∀ s ∈ b.suspended, ∀ d, b.deadline? s = some d → w.due ≤ d) : Regular b (.work i) := by
  have hnow : (b.move (.work i)).now = max b.now w.due := by
    simp only [Broker.move, hw]
    exact (runSleeper_effect b w _).now
  have hle : ∀ due, b.nextDue? = some due → w.due ≤ due := by
    intro due hnext
    rcases nextDue?_mem hnext with ⟨w', hw', rfl⟩ | ⟨s, hs, hd⟩
    · exact hearliest w' hw'
    · exact hdue s hs due hd
  constructor
  case prompt =>
    refine fun _ => ⟨hstill, fun due hnext => ?_⟩
    have hle := hle due hnext
    omega
  case works =>
    intro j w' hj hw'
    cases hj
    obtain rfl := Option.some.inj (hw.symm.trans hw')
    exact ⟨hstill, hearliest, hfirst⟩
  case outside | handed | own => simp [Move.isOutside]

/-- The scheduler makes regular moves. -/
theorem Chosen.regular {m : Move} (h : Chosen b m) : Regular b m := by
  cases h with
  | wake => exact regular_wake b _
  | begin => exact regular_begin b _
  | work hw hstill hearliest hfirst hdue =>
    refine regular_work hstill hw hearliest hfirst fun s hs d hd => ?_
    obtain ⟨deadline, hnext, hle⟩ := nextDeadline?_le hs hd
    exact Nat.le_trans (Nat.le_of_lt (hdue deadline hnext)) hle
  | elapse hstill hnext hsleepers =>
    refine regular_elapse hstill fun due hdue => ?_
    rcases nextDue?_mem hdue with ⟨w, hw, rfl⟩ | ⟨s, hs, hd⟩
    · exact hsleepers w hw
    · obtain ⟨d, hd', hle⟩ := nextDeadline?_le hs hd
      cases hnext.symm.trans hd'
      exact hle

/-- The move does no work that was left behind, unless it is due before the next deadline. -/
def BeforeDeadline (b : Broker) (m : Move) : Prop :=
  ∀ i w, m = .work i → b.sleepers[i]? = some w → ∀ deadline, b.nextDeadline? = some deadline → w.due < deadline

/-- A regular run with the scheduler's order of work and deadlines. What comes from outside is free. -/
def SessionRun : Broker → List Move → Prop
  | _, [] => True
  | b, m :: ms => Regular b m ∧ BeforeDeadline b m ∧ SessionRun (b.move m) ms

theorem SessionRun.regular {ms : List Move} (h : SessionRun b ms) : RegularRun b ms := by
  induction ms generalizing b with
  | nil => trivial
  | cons m ms ih => exact ⟨h.1, ih h.2.2⟩

end Broker
end BrokerHooks
