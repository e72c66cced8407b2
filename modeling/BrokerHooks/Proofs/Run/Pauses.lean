import BrokerHooks.Proofs.Run.Scheduler
import BrokerHooks.Proofs.Run.Story

namespace BrokerHooks.Broker

theorem punctualRun_cons {b : Broker} {m : Move} {ms : List Move} :
    PunctualRun b (m :: ms) ↔ Punctual b m ∧ PunctualRun (b.move m) ms := Iff.rfl

/-- The move lets the clock go on to a time that is not before the one given. -/
inductive Passes (b : Broker) (time : Nat) : Move → Prop where
  | elapse {due : Nat} (h : time ≤ due) : Passes b time (.elapse due)
  | work {i : Nat} {s : Sleeper} (hs : b.sleepers[i]? = some s) (h : time ≤ s.due) : Passes b time (.work i)

namespace Passes

variable {b : Broker} {time : Nat} {m : Move}

theorem move_eq (h : Passes b time m) : (b.move (.elapse time)).move m = b.move m := by
  cases h with
  | @elapse due hle =>
    have hmax : max (max b.now time) due = max b.now due := by omega
    simp only [Broker.move, hmax]
  | @work i s hs hle =>
    have hmax : max (max b.now time) s.due = max b.now s.due := by omega
    simp only [Broker.move, hs, runSleeper, hmax]

theorem story_eq (h : Passes b time m) : moveStory (b.move (.elapse time)) m = moveStory b m := by
  cases h with
  | elapse => rfl
  | @work i s hs hle =>
    have hmax : max (max b.now time) s.due = max b.now s.due := by omega
    simp only [moveStory, Broker.move, hs, hmax]

theorem le_now (h : Passes b time m) : max b.now time ≤ (b.move m).now := by
  cases h with
  | @elapse due hle =>
    simp only [Broker.move]
    omega
  | @work i s hs hle =>
    have hnow : (b.runSleeper s (b.sleepers.eraseIdx i)).now = max b.now s.due := (runSleeper_effect b s _).now
    simp only [Broker.move, hs, hnow]
    omega

end Passes

/-- A chain that cannot go on by now cannot go on at any time before its deadline. -/
theorem isReady_elapse {b : Broker} {s : Suspended} (hready : b.isReady s = false) {time : Nat}
    (hdue : ∀ d, b.deadline? s = some d → max b.now time < d) :
    (b.move (.elapse time)).isReady s = false := by
  cases ht : b.turn? s.turn with
  | none =>
    have ht' : (b.move (.elapse time)).turn? s.turn = none := ht
    simp [isReady, ht']
  | some t =>
    have ht' : (b.move (.elapse time)).turn? s.turn = some t := ht
    obtain ⟨d, fallback, hdeferral, hd, -⟩ := pending_of_not_ready ht hready
    have hpending : t.isPending (max b.now time) := Turn.isPending_iff.2 ⟨d, fallback, hdeferral, hdue d hd⟩
    have hnow : (b.move (.elapse time)).now = max b.now time := rfl
    simpa [isReady, ht', hnow] using hpending

/-- To stop on the way is punctual exactly if going on without a stop is. -/
theorem Passes.punctual_iff {b : Broker} {time : Nat} {m : Move} (h : Passes b time m) :
    Punctual b (.elapse time) ∧ Punctual (b.move (.elapse time)) m ↔ Punctual b m := by
  have hle := h.le_now
  have hstop : (b.move (.elapse time)).now = max b.now time := rfl
  unfold Punctual
  rw [h.move_eq, hstop]
  constructor
  · rintro ⟨hfirst, hthen⟩ hnow s hs
    -- The stop may be no stop at all, and the move may end where it stops.
    by_cases hstops : max b.now time = b.now
    · have hsame : b.move (.elapse time) = b := by simp only [Broker.move, hstops]
      rw [hsame, hstops] at hthen
      exact hthen hnow s hs
    · obtain ⟨hready, hdue⟩ := hfirst hstops s hs
      refine ⟨hready, fun d hd => ?_⟩
      by_cases hends : (b.move m).now = max b.now time
      · exact hends ▸ hdue d hd
      · exact (hthen hends s hs).2 d hd
  · intro hm
    constructor
    · intro hstops s hs
      obtain ⟨hready, hdue⟩ := hm (by omega) s hs
      exact ⟨hready, fun d hd => Nat.le_trans hle (hdue d hd)⟩
    · intro hends s hs
      obtain ⟨hready, hdue⟩ := hm (by omega) s hs
      refine ⟨isReady_elapse hready fun d hd => ?_, hdue⟩
      have hd' := hdue d hd
      omega

/-- The second run is the first with pauses. -/
inductive Paused : Broker → List Move → List Move → Prop where
  | nil {b : Broker} : Paused b [] []
  | move {b : Broker} {m : Move} {ms ns : List Move} (rest : Paused (b.move m) ms ns) :
      Paused b (m :: ms) (m :: ns)
  | stop {b : Broker} {time : Nat} {m : Move} {ms ns : List Move} (hm : Passes b time m)
      (rest : Paused (b.move (.elapse time)) (m :: ms) ns) : Paused b (m :: ms) (.elapse time :: ns)
  | sweep {b : Broker} {ms ns : List Move} (hnone : b.sweep = b) (rest : Paused b ms ns) :
      Paused b ms (.sweep :: ns)

namespace Paused

variable {b : Broker} {ms ns : List Move}

theorem refl (b : Broker) (ms : List Move) : Paused b ms ms := by
  induction ms generalizing b with
  | nil => exact .nil
  | cons m ms ih => exact .move (ih _)

theorem append_left (ps : List Move) (h : Paused (b.play ps) ms ns) : Paused b (ps ++ ms) (ps ++ ns) := by
  induction ps generalizing b with
  | nil => exact h
  | cons m ps ih => exact .move (ih h)

theorem play_eq (h : Paused b ms ns) : b.play ns = b.play ms := by
  induction h with
  | nil => rfl
  | move _ ih => exact ih
  | stop hm _ ih =>
    rw [play_cons, ih, play_cons, hm.move_eq, play_cons]
  | sweep hnone _ ih =>
    rw [play_cons, ← ih]
    exact congrArg (Broker.play · _) hnone

theorem story_eq (h : Paused b ms ns) : b.story ns = b.story ms := by
  induction h with
  | nil => rfl
  | move _ ih => rw [story, story, ih]
  | stop hm _ ih =>
    rw [story, ih, story, story, hm.story_eq, hm.move_eq]
    rfl
  | @sweep b ms ns hnone _ ih =>
    have hmove : b.move .sweep = b := hnone
    rw [story, hmove, ih]
    rfl

theorem punctualRun_iff (h : Paused b ms ns) : PunctualRun b ns ↔ PunctualRun b ms := by
  induction h with
  | nil => exact Iff.rfl
  | move _ ih => exact and_congr_right fun _ => ih
  | stop hm _ ih =>
    rw [punctualRun_cons, ih, punctualRun_cons, punctualRun_cons, hm.move_eq, ← and_assoc, hm.punctual_iff]
  | @sweep b ms ns hnone _ ih =>
    have hmove : b.move .sweep = b := hnone
    rw [punctualRun_cons, hmove, ih]
    exact and_iff_right (sweep_punctual b)

end Paused

end BrokerHooks.Broker
