import BrokerHooks.Proofs.Run.Cases

namespace BrokerHooks.Broker

/-- What is taken first stands at some place, and is not there afterwards. -/
theorem getElem?_of_takeFirst? {α : Type} {p : α → Bool} {xs rest : List α} {x : α}
    (h : takeFirst? p xs = some (x, rest)) : ∃ i : Nat, xs[i]? = some x ∧ xs.eraseIdx i = rest := by
  obtain ⟨before, after, rfl, rfl, -, -⟩ := takeFirst?_eq_some.1 h
  refine ⟨before.length, ?_, ?_⟩
  · rw [List.getElem?_append_right (Nat.le_refl _)]
    simp
  · rw [List.eraseIdx_append_of_length_le (Nat.le_refl _)]
    simp

/-- The first chain whose lane is free has waited longest in that lane. -/
theorem takeFirst?_lane {b : Broker} {c : Chain} {rest : List Chain}
    (h : takeFirst? (fun d => b.isFree d.lane) b.waiting = some (c, rest)) :
    b.isFree c.lane ∧ takeFirst? (fun d => d.lane = c.lane) b.waiting = some (c, rest) := by
  obtain ⟨before, after, hwaiting, hrest, hfree, hbefore⟩ := takeFirst?_eq_some.1 h
  refine ⟨hfree, takeFirst?_eq_some.2 ⟨before, after, hwaiting, hrest, by simp, ?_⟩⟩
  intro d hd hlane
  -- A chain before it in the same lane would have been taken first.
  exact hbefore d hd (of_decide_eq_true hlane ▸ hfree)

/-- The moves that the scheduler makes. The clock is moved only if nothing can run at this instant, to
what is due next. Work is done before the next deadline only, that which is due earliest first. -/
inductive Chosen (b : Broker) : Move → Prop where
  | wake {i : Nat} {s : Suspended} (hs : b.suspended[i]? = some s) (hready : b.isReady s) :
      Chosen b (.wake i)
  | begin {c : Chain} {rest : List Chain} (hfree : b.isFree c.lane)
      (hfirst : takeFirst? (fun d => d.lane = c.lane) b.waiting = some (c, rest)) :
      Chosen b (.begin c.lane)
  | work {i : Nat} {w : Sleeper} (hw : b.sleepers[i]? = some w) (hstill : b.instant? = none)
      (hearliest : ∀ w' ∈ b.sleepers, w.due ≤ w'.due) (hfirst : ∀ w' ∈ b.sleepers.take i, w.due ≠ w'.due)
      (hdue : ∀ d, b.nextDeadline? = some d → w.due < d) : Chosen b (.work i)
  | elapse {deadline : Nat} (hstill : b.instant? = none) (hnext : b.nextDeadline? = some deadline)
      (hsleepers : ∀ w ∈ b.sleepers, deadline ≤ w.due) : Chosen b (.elapse deadline)

theorem instant_chosen {b b' : Broker} (h : b.instant? = some b') : ∃ m, Chosen b m ∧ b' = b.move m := by
  unfold instant? at h
  split at h
  · rename_i s rest htake
    obtain ⟨i, hi, herase⟩ := getElem?_of_takeFirst? htake
    obtain ⟨-, -, -, -, hready, -⟩ := takeFirst?_eq_some.1 htake
    obtain rfl := Option.some.inj h
    exact ⟨.wake i, .wake hi hready, by simp only [Broker.move, hi, herase]⟩
  · split at h
    · rename_i c rest hwaiting
      obtain ⟨hfree, hfirst⟩ := takeFirst?_lane hwaiting
      obtain rfl := Option.some.inj h
      refine ⟨.begin c.lane, .begin hfree hfirst, ?_⟩
      simp only [Broker.move, hfree, if_true, hfirst]
    · cases h

/-- The sleeper that is woken next is the first of those that are due earliest. -/
theorem nextSleeper?_eq_some {b : Broker} {w : Sleeper} {rest : List Sleeper}
    (h : b.nextSleeper? = some (w, rest)) :
    ∃ i, b.sleepers[i]? = some w ∧ b.sleepers.eraseIdx i = rest ∧ (∀ w' ∈ b.sleepers, w.due ≤ w'.due) ∧
      ∀ w' ∈ b.sleepers.take i, w.due ≠ w'.due := by
  unfold nextSleeper? at h
  split at h
  · cases h
  · rename_i due hmin
    obtain ⟨before, after, hsplit, rfl, hdue, hfirst⟩ := takeFirst?_eq_some.1 h
    obtain rfl : w.due = due := of_decide_eq_true hdue
    refine ⟨before.length, by simp [hsplit], by simp [hsplit, List.eraseIdx_append_of_length_le], ?_, ?_⟩
    · exact fun w' hw' => (List.min?_eq_some_iff.1 hmin).2 _ (List.mem_map_of_mem hw')
    · intro w' hw'
      have hmem : w' ∈ before := by simpa [hsplit] using hw'
      simpa [eq_comm] using hfirst w' hmem

theorem nextSleeper?_eq_none {b : Broker} (h : b.nextSleeper? = none) : b.sleepers = [] := by
  unfold nextSleeper? at h
  split at h
  · rename_i hmin
    exact List.map_eq_nil_iff.1 (List.min?_eq_none_iff.1 hmin)
  · rename_i due hmin
    obtain ⟨w, hw, hdue⟩ := List.mem_map.1 (List.min?_mem hmin)
    exact absurd (decide_eq_true hdue) (takeFirst?_eq_none.1 h w hw)

theorem advance_chosen {b b' : Broker} (hstill : b.instant? = none) (h : b.advance? = some b') :
    ∃ m, Chosen b m ∧ b' = b.move m := by
  have hworks {w : Sleeper} {rest : List Sleeper} (hsleeper : b.nextSleeper? = some (w, rest))
      (hdue : ∀ d, b.nextDeadline? = some d → w.due < d) :
      ∃ m, Chosen b m ∧ b.runSleeper w rest = b.move m := by
    obtain ⟨i, hw, herase, hearliest, hfirst⟩ := nextSleeper?_eq_some hsleeper
    exact ⟨.work i, .work hw hstill hearliest hfirst hdue, by simp only [Broker.move, hw, herase]⟩
  unfold advance? at h
  split at h
  · cases h
  · rename_i deadline hsleeper hdeadline
    obtain rfl := Option.some.inj h
    exact ⟨_, .elapse hstill hdeadline (by simp [nextSleeper?_eq_none hsleeper]), rfl⟩
  · rename_i w rest hsleeper hdeadline
    obtain rfl := Option.some.inj h
    exact hworks hsleeper (by simp [hdeadline])
  · -- Both are there: the work goes first only if it is due strictly before.
    rename_i w rest deadline hsleeper hdeadline
    split at h
    · rename_i hlt
      obtain rfl := Option.some.inj h
      exact hworks hsleeper (by simpa [hdeadline] using hlt)
    · rename_i hle
      obtain rfl := Option.some.inj h
      obtain ⟨i, -, -, hearliest, -⟩ := nextSleeper?_eq_some hsleeper
      refine ⟨_, .elapse hstill hdeadline fun w' hw' => ?_, rfl⟩
      exact Nat.le_trans (Nat.le_of_not_lt hle) (hearliest w' hw')

/-- A step is a move that the scheduler chooses, after which abandoned connections are released. -/
theorem tick_chosen {b b' : Broker} (h : b.tick = some b') :
    ∃ m, Chosen b m ∧ b' = (b.move m).move .sweep := by
  unfold tick at h
  split at h
  · rename_i b₁ hinstant
    obtain ⟨m, hm, rfl⟩ := instant_chosen hinstant
    exact ⟨m, hm, (Option.some.inj h).symm⟩
  · rename_i hstill
    obtain ⟨b₁, hadvance, rfl⟩ := Option.map_eq_some_iff.1 h
    obtain ⟨m, hm, rfl⟩ := advance_chosen hstill hadvance
    exact ⟨m, hm, rfl⟩

/-- The move lets time pass only while no suspended chain can go on, and past none of their deadlines. -/
def Punctual (b : Broker) (m : Move) : Prop :=
  (b.move m).now ≠ b.now →
    ∀ s ∈ b.suspended, b.isReady s = false ∧ ∀ d, b.deadline? s = some d → (b.move m).now ≤ d

def PunctualRun : Broker → List Move → Prop
  | _, [] => True
  | b, m :: ms => Punctual b m ∧ PunctualRun (b.move m) ms

theorem punctualRun_append {b : Broker} {ms ns : List Move} :
    PunctualRun b (ms ++ ns) ↔ PunctualRun b ms ∧ PunctualRun (b.play ms) ns := by
  induction ms generalizing b with
  | nil => simp [PunctualRun]
  | cons m ms ih => simp [PunctualRun, ih, and_assoc]

theorem isReady_iff {b : Broker} {s : Suspended} :
    b.isReady s ↔ ∃ t, b.turn? s.turn = some t ∧ (t.poll b.now).1 ≠ none := by
  unfold isReady
  cases b.turn? s.turn <;> simp [Turn.isPending, Option.isSome_iff_ne_none]

theorem instant?_eq_none {b : Broker} (h : b.instant? = none) :
    (∀ s ∈ b.suspended, b.isReady s = false) ∧ ∀ c ∈ b.waiting, b.isFree c.lane = false := by
  unfold instant? at h
  split at h
  · cases h
  · rename_i hready
    split at h
    · cases h
    · rename_i hfree
      constructor
      · exact fun s hs => Bool.eq_false_iff.2 (takeFirst?_eq_none.1 hready s hs)
      · exact fun c hc => Bool.eq_false_iff.2 (takeFirst?_eq_none.1 hfree c hc)

theorem pending_of_not_ready {b : Broker} {s : Suspended} {t : Turn} (ht : b.turn? s.turn = some t)
    (hready : b.isReady s = false) : ∃ deadline fallback, t.deferral = .pending deadline fallback ∧
      b.deadline? s = some deadline ∧ b.now < deadline := by
  have hpending : t.isPending b.now := by simpa [isReady, ht] using hready
  obtain ⟨deadline, fallback, hdeferral, hlt⟩ := Turn.isPending_iff.1 hpending
  have hdeadline : t.deadline? = some deadline := Turn.deadline?_eq_some.2 ⟨fallback, hdeferral⟩
  exact ⟨deadline, fallback, hdeferral, by rw [deadline?, ht]; exact hdeadline, hlt⟩

theorem lt_deadline {b : Broker} {s : Suspended} {d : Nat} (hready : b.isReady s = false)
    (hd : b.deadline? s = some d) : b.now < d := by
  obtain ⟨t, ht, -⟩ := Option.bind_eq_some_iff.1 hd
  obtain ⟨deadline, fallback, -, hdeadline, hlt⟩ := pending_of_not_ready ht hready
  cases hdeadline.symm.trans hd
  exact hlt

theorem nextDeadline?_le {b : Broker} {s : Suspended} (hs : s ∈ b.suspended) {d : Nat}
    (hd : b.deadline? s = some d) : ∃ deadline, b.nextDeadline? = some deadline ∧ deadline ≤ d := by
  have hmem : d ∈ b.suspended.filterMap b.deadline? := List.mem_filterMap.2 ⟨s, hs, hd⟩
  cases hnext : b.nextDeadline? with
  | none =>
    rw [nextDeadline?, List.min?_eq_none_iff] at hnext
    simp [hnext] at hmem
  | some deadline => exact ⟨deadline, rfl, (List.min?_eq_some_iff.1 hnext).2 d hmem⟩

theorem Chosen.punctual {b : Broker} {m : Move} (h : Chosen b m) : Punctual b m := by
  intro hnow s hs
  -- Where time passes, nothing can run, and the clock is moved to a time before every deadline.
  have hwaits {time : Nat} (hstill : b.instant? = none)
      (hdue : ∀ d, b.nextDeadline? = some d → time ≤ d) :
      b.isReady s = false ∧ ∀ d, b.deadline? s = some d → max b.now time ≤ d := by
    have hready := (instant?_eq_none hstill).1 s hs
    refine ⟨hready, fun d hd => ?_⟩
    have hlt := lt_deadline hready hd
    obtain ⟨deadline, hnext, hle⟩ := nextDeadline?_le hs hd
    have hle' := hdue deadline hnext
    omega
  cases h with
  | @wake i s' hi hready =>
    have hhalts := wake_halts { b with suspended := b.suspended.eraseIdx i } s'
    simp only [Broker.move, hi] at hnow
    exact absurd hhalts.now hnow
  | @begin c rest hfree hfirst =>
    have hhalts := begin_halts { b with waiting := rest } c fun _ => False
    simp only [Broker.move, hfree, hfirst, if_true] at hnow
    exact absurd hhalts.now hnow
  | @work i w hw hstill _ _ hdue =>
    have hmove : (b.move (.work i)).now = max b.now w.due := by
      simp only [Broker.move, hw]
      exact (runSleeper_effect b w _).now
    rw [hmove]
    exact hwaits hstill fun d hd => Nat.le_of_lt (hdue d hd)
  | elapse hstill hnext => exact hwaits hstill fun d hd => by simp_all

theorem sweep_punctual (b : Broker) : Punctual b .sweep := fun hnow => absurd rfl hnow

/-- A run of the scheduler. It chooses all moves, and after each the abandoned connections are released. -/
inductive Scheduled : Broker → List Move → Prop where
  | rest (b : Broker) : Scheduled b []
  | tick {b : Broker} {m : Move} {ms : List Move} (hm : Chosen b m)
      (hms : Scheduled ((b.move m).move .sweep) ms) : Scheduled b (m :: .sweep :: ms)

theorem settle_scheduled (finished : Broker → Bool) (fuel : Nat) (b : Broker) :
    ∃ ms, b.settle finished fuel = b.play ms ∧ Scheduled b ms := by
  induction fuel generalizing b with
  | zero => exact ⟨[], rfl, .rest b⟩
  | succ fuel ih =>
    unfold settle
    split
    · exact ⟨[], rfl, .rest b⟩
    · split
      · rename_i b₁ htick
        obtain ⟨m, hm, rfl⟩ := tick_chosen htick
        obtain ⟨ms, heq, hms⟩ := ih ((b.move m).move .sweep)
        exact ⟨m :: .sweep :: ms, heq, .tick hm hms⟩
      · exact ⟨[], rfl, .rest b⟩

theorem Scheduled.punctual {b : Broker} {ms : List Move} (h : Scheduled b ms) : PunctualRun b ms := by
  induction h with
  | rest => trivial
  | tick hm _ ih => exact ⟨hm.punctual, sweep_punctual _, ih⟩

end BrokerHooks.Broker
