import Mathlib.Logic.Hydra
import Mathlib.Tactic.Abel
import BrokerHooks.Proofs.Chain.Finish
import BrokerHooks.Proofs.Run.Scheduler

namespace BrokerHooks

/-- The program may leave the task behind for later. -/
inductive Program.Leaves : Program → Program → Prop where
  | spawned {delay : Nat} {task next : Program} : Leaves task (.spawn delay task next)
  | later {delay : Nat} {task other next : Program} (h : Leaves task next) :
      Leaves task (.spawn delay other next)
  | answered {op : Op} {next : op.Answer → Program} {task : Program} (answer : op.Answer)
      (h : Leaves task (next answer)) : Leaves task (.perform op next)

theorem Program.leaves_wf : WellFounded Program.Leaves := by
  -- What a program leaves behind is a subtree of it, or is left behind by a subtree.
  have hacc (program : Program) : ∀ task, task.Leaves program → Acc Program.Leaves task := by
    induction program with
    | done | fail | crash => nofun
    | perform op next ih =>
      rintro task ⟨⟩
      rename_i answer h
      exact ih answer task h
    | spawn delay other next ihOther ihNext =>
      rintro task (_ | h)
      · exact ⟨_, ihOther⟩
      · exact ihNext task h
  exact ⟨fun program => ⟨_, hacc program⟩⟩

namespace Broker

open Relation

/-- What there is to do: the chains that wait, the hooks that are left to suspended chains, the work that
sleeps, and whether the clock has to move before a suspended chain can go on. -/
def agenda (b : Broker) : Nat × Nat × Multiset Program × Nat :=
  (b.waiting.length, (b.suspended.map (·.rest.length + 1)).sum, (b.sleepers.map (·.program) : List Program),
    (!b.suspended.any b.isReady).toNat)

/-- Less to do; chains that begin count for more than those that go on, and these for more than sleepers. -/
def Less : Nat × Nat × Multiset Program × Nat → Nat × Nat × Multiset Program × Nat → Prop :=
  Prod.Lex (· < ·) (Prod.Lex (· < ·) (Prod.Lex (CutExpand Program.Leaves) (· < ·)))

theorem less_wf : WellFounded Less :=
  Nat.lt_wfRel.wf.prod_lex
    (Nat.lt_wfRel.wf.prod_lex (Program.leaves_wf.cutExpand.prod_lex Nat.lt_wfRel.wf))

theorem agenda_sweep (b : Broker) : (b.move .sweep).agenda = b.agenda := rfl

section

variable {b b' : Broker}

theorem less_of_waiting (h : b'.waiting.length < b.waiting.length) : Less b'.agenda b.agenda :=
  .left _ _ h

theorem less_of_suspended (hwaiting : b'.waiting = b.waiting)
    (h : (b'.suspended.map (·.rest.length + 1)).sum < (b.suspended.map (·.rest.length + 1)).sum) :
    Less b'.agenda b.agenda := by
  unfold agenda
  rw [hwaiting]
  exact .right _ (.left _ _ h)

theorem less_of_sleepers (hwaiting : b'.waiting = b.waiting) (hsuspended : b'.suspended = b.suspended)
    (h : CutExpand Program.Leaves (b'.sleepers.map (·.program) : List Program)
      (b.sleepers.map (·.program) : List Program)) : Less b'.agenda b.agenda := by
  unfold agenda
  rw [hwaiting, hsuspended]
  exact .right _ (.right _ (.left _ _ h))

theorem less_of_ready (hwaiting : b'.waiting = b.waiting) (hsuspended : b'.suspended = b.suspended)
    (hsleepers : b'.sleepers = b.sleepers) (hbefore : b.suspended.any b.isReady = false)
    (hafter : b'.suspended.any b'.isReady) : Less b'.agenda b.agenda := by
  unfold agenda
  rw [hafter, hbefore, hwaiting, hsuspended, hsleepers]
  exact .right _ (.right _ (.right _ Nat.zero_lt_one))

end

theorem check_sleepers (b : Broker) : b.check.2.sleepers = b.sleepers := by
  unfold check
  simp only
  split <;> simp

theorem admitted_sleepers {α : Type} (b : Broker) (f : Broker → α × Broker)
    (hf : ∀ b, (f b).2.sleepers = b.sleepers) : (b.admitted f).2.sleepers = b.sleepers := by
  have hcheck := check_sleepers b
  unfold admitted
  split <;> rename_i heq <;> rw [heq] at hcheck
  · exact hcheck
  · exact (hf _).trans hcheck

theorem perform_sleepers (b : Broker) (s : Site) (op : Op) : (b.perform s op).2.sleepers = b.sleepers := by
  cases op with
  | call | defer | resume | prevent | view =>
    unfold perform onTurn
    split <;> rfl
  | check => exact check_sleepers b
  | isConnected => exact admitted_sleepers b _ fun _ => rfl
  | disconnectClient clientId reason =>
    unfold perform disconnectClient
    simp only
    split
    · rfl
    · refine admitted_sleepers b _ fun b => ?_
      split <;> rfl
  | _ => rfl

/-- Work that a program leaves behind is a part of it. -/
theorem run_sleepers (s : Site) (program : Program) (b : Broker) :
    ∃ new, (run s program b).2.sleepers = b.sleepers ++ new ∧ ∀ w ∈ new, w.program.Leaves program := by
  induction program generalizing b with
  | done | fail | crash => exact ⟨[], by simp [run]⟩
  | perform op next ih =>
    obtain ⟨new, hs, hnew⟩ := ih (b.perform s op).1 (b.perform s op).2
    rw [perform_sleepers] at hs
    exact ⟨new, hs, fun w hw => .answered _ (hnew w hw)⟩
  | spawn delay task next _ ih =>
    obtain ⟨new, hs, hnew⟩ := ih
      { b with sleepers := b.sleepers ++ [{ due := b.now + delay, site := s, program := task }] }
    refine ⟨_ :: new, by rw [run, hs, List.append_assoc]; rfl, fun w hw => ?_⟩
    rcases List.mem_cons.1 hw with rfl | hw
    · exact .spawned
    · exact .later (hnew w hw)

/-- A chain that goes on is gone, or fewer hooks are left to it. -/
theorem wake_less {b : Broker} (ho : Orderly b) {i : Nat} {s : Suspended} (hs : b.suspended[i]? = some s)
    (hready : b.isReady s) : Less (b.move (.wake i)).agenda b.agenda := by
  obtain ⟨before, after, rfl, hsplit, herase⟩ := eraseIdx_split hs
  have hmove : b.move (.wake before.length) = { b with suspended := before ++ after }.wake s := by
    simp only [Broker.move, hs, herase]
  obtain ⟨t, ht, hends⟩ := isReady_iff.1 hready
  have hnext := wake_suspended (b := { b with suspended := before ++ after }) ht hends
  obtain ⟨-, hwaiting, _, -, -, hend⟩ := (wake_halts { b with suspended := before ++ after } s).told
  rw [hmove]
  refine less_of_suspended (b := b) hwaiting ?_
  rw [hsplit]
  rcases hend with ⟨hsuspended, -⟩ | ⟨s', hchain, hsuspended, -⟩
  · simp [hsuspended]
  -- If it is suspended again, then as the one chain of its lane, and on a later hook.
  · have hrest : s'.rest.length < s.rest.length := by
      rcases hnext s' (by simp [hsuspended]) with hother | ⟨-, hlt⟩
      · exact absurd (by rw [hchain]) ((ho.takes_suspended s hsplit).free s' hother)
      · exact hlt
    simp only [hsuspended, List.map_append, List.map_cons, List.map_nil, List.sum_append, List.sum_cons,
      List.sum_nil]
    omega

theorem work_less {b : Broker} {i : Nat} {s : Sleeper} (hs : b.sleepers[i]? = some s) :
    Less (b.move (.work i)).agenda b.agenda := by
  obtain ⟨before, after, rfl, hsplit, herase⟩ := eraseIdx_split hs
  have hmove : b.move (.work before.length) = b.runSleeper s (before ++ after) := by
    simp only [Broker.move, hs, herase]
  have he := runSleeper_effect b s (before ++ after)
  obtain ⟨new, hsleepers, hnew⟩ := run_sleepers s.site s.program
    { b with now := max b.now s.due, sleepers := before ++ after }
  rw [hmove]
  refine less_of_sleepers he.waiting he.suspended ⟨(new.map (·.program) : List Program), s.program, ?_, ?_⟩
  · intro task htask
    obtain ⟨w, hw, rfl⟩ := List.mem_map.1 (Multiset.mem_coe.1 htask)
    exact hnew w hw
  · unfold runSleeper
    rw [hsleepers, hsplit]
    simp only [List.map_append, List.map_cons, ← Multiset.coe_add, ← Multiset.cons_coe,
      ← Multiset.singleton_add]
    abel

theorem elapse_less {b : Broker} {deadline : Nat} (hstill : b.instant? = none)
    (hnext : b.nextDeadline? = some deadline) : Less (b.move (.elapse deadline)).agenda b.agenda := by
  refine less_of_ready rfl rfl rfl ?_ ?_
  · simpa using (instant?_eq_none hstill).1
  · -- The chain that waits for this deadline can go on now.
    obtain ⟨s, hs, hdue⟩ := List.mem_filterMap.1 (List.min?_mem hnext)
    obtain ⟨t, ht, hdue⟩ := Option.bind_eq_some_iff.1 hdue
    obtain ⟨fallback, hdeferral⟩ := Turn.deadline?_eq_some.1 hdue
    refine List.any_eq_true.2 ⟨s, hs, isReady_iff.2 ⟨t, ht, ?_⟩⟩
    simp [Broker.move, Turn.poll, hdeferral]

theorem Chosen.less {b : Broker} {m : Move} (h : Chosen b m) (ho : Orderly b) :
    Less (b.move m).agenda b.agenda := by
  cases h with
  | wake hs hready => exact wake_less ho hs hready
  | work hs => exact work_less hs
  | elapse hstill hnext => exact elapse_less hstill hnext
  | @begin c rest hfree hfirst =>
    obtain ⟨before, after, hsplit, rfl, -, -⟩ := takeFirst?_eq_some.1 hfirst
    apply less_of_waiting
    simp only [Broker.move, hfree, hfirst, if_true]
    rw [(begin_halts _ c fun _ => False).told.2.1, hsplit]
    simp

theorem settle_of_finished {finished : Broker → Bool} {b : Broker} (h : finished b) (fuel : Nat) :
    b.settle finished fuel = b := by
  cases fuel <;> simp [settle, h]

theorem settle_of_rest {b : Broker} (h : b.tick = none) (finished : Broker → Bool) (fuel : Nat) :
    b.settle finished fuel = b := by
  cases fuel <;> simp [settle, h]

/-- With enough fuel the scheduler stops where it is told to, or where nothing is left to do. -/
theorem Orderly.comes_to_rest {b : Broker} (ho : Orderly b) (finished : Broker → Bool) :
    ∃ fuel, ∀ more, finished (b.settle finished (fuel + more)) ∨
      (b.settle finished (fuel + more)).tick = none := by
  -- No amount of fuel can be read off the broker, as the answers that code gets decide what it leaves behind.
  induction hd : b.agenda using less_wf.induction generalizing b with
  | h agenda ih =>
    by_cases hfinished : finished b
    · refine ⟨0, fun more => .inl ?_⟩
      rwa [settle_of_finished hfinished]
    · cases htick : b.tick with
      | none =>
        refine ⟨0, fun more => .inr ?_⟩
        rwa [settle_of_rest htick]
      | some b' =>
        obtain ⟨m, hm, rfl⟩ := tick_chosen htick
        have hless : Less ((b.move m).move .sweep).agenda agenda := by
          rw [agenda_sweep, ← hd]
          exact hm.less ho
        obtain ⟨fuel, hrest⟩ := ih _ hless ((ho.move m).move .sweep) rfl
        refine ⟨fuel + 1, fun more => ?_⟩
        rw [Nat.add_right_comm, settle, if_neg hfinished, htick]
        exact hrest more

/-- At rest no chain is left. -/
theorem Grounded.at_rest {b : Broker} (hg : Grounded b) (h : b.tick = none) :
    b.suspended = [] ∧ b.waiting = [] := by
  unfold tick at h
  split at h
  · cases h
  rename_i hstill
  obtain ⟨hready, hfree⟩ := instant?_eq_none hstill
  have hsuspended : b.suspended = [] := by
    apply List.eq_nil_iff_forall_not_mem.2
    intro s hs
    -- A suspended chain that cannot go on has a deadline, to which the clock could move.
    obtain ⟨t, ht⟩ : ∃ t, b.turn? s.turn = some t := ⟨_, List.getElem?_eq_getElem (hg s hs)⟩
    obtain ⟨d, -, -, hdeadline, -⟩ := pending_of_not_ready ht (hready s hs)
    obtain ⟨deadline, hnext, -⟩ := nextDeadline?_le hs hdeadline
    unfold advance? at h
    rw [hnext] at h
    cases hsleeper : b.nextSleeper? with
    | none => simp [hsleeper] at h
    | some found =>
      simp only [hsleeper] at h
      split at h <;> cases h
  refine ⟨hsuspended, List.eq_nil_iff_forall_not_mem.2 fun c hc => ?_⟩
  have hblocked := hfree c hc
  simp [isFree, hsuspended] at hblocked

/-- A chain that was handed over is reported, once the scheduler has had time enough. -/
theorem Holds.settles {b : Broker} {c : Chain} (hc : b.Holds c) (ho : Orderly b) (hg : Grounded b)
    (finished : Broker → Bool) (hfinished : ∀ b, finished b → Reported c b.journal) :
    ∃ fuel, ∀ more, Reported c (b.settle finished (fuel + more)).journal := by
  obtain ⟨fuel, hrest⟩ := ho.comes_to_rest finished
  refine ⟨fuel, fun more => ?_⟩
  rcases hrest more with hdone | hrest
  · exact hfinished _ hdone
  · obtain ⟨ms, heq, -⟩ := settle_scheduled finished (fuel + more) b
    rw [heq] at hrest ⊢
    obtain ⟨hsuspended, hwaiting⟩ := (hg.play ms).at_rest hrest
    rcases hc.play ho ms with hwaits | ⟨s, hs, -⟩ | hreported
    · simp [hwaiting] at hwaits
    · simp [hsuspended] at hs
    · exact hreported

end Broker
end BrokerHooks
