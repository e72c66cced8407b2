import BrokerHooks.Proofs.Lane.Ties
import BrokerHooks.Proofs.Lane.Twin

namespace BrokerHooks.Broker

/-- The times at which a suspended chain goes on or work is done for it: what the turn waits for, or nothing more,
and when the work is due. -/
def Pause.moments (p : Pause) : List Nat :=
  (p.turn.map (·.deadline?.getD 0)).toList ++ p.tasks.map (·.1)

/-- The lane moves on at this time, or at once if the time is over. -/
def Moment (lane : Nat × Point) (numbers : List Nat) (b : Broker) (time : Nat) : Prop :=
  (b.pausesIn lane numbers = [] ∧ b.waitingIn lane numbers ≠ [] ∧ time = 0) ∨
    ∃ p ∈ b.pausesIn lane numbers, time ∈ Pause.moments p

/-- The lane stirs: what it does, and what that leads to. -/
inductive Stirring (lane : Nat × Point) (b : Broker) : Move → List Deed → Broker → Prop where
  | begins {before after : List Chain} {c : Chain} (hw : b.waiting = before ++ c :: after) (hlane : c.lane = lane)
      (hfirst : ∀ x ∈ before, x.lane ≠ lane) (hfree : ∀ s ∈ b.suspended, s.chain.lane ≠ lane) :
      Stirring lane b (.begin lane) (beginStory { b with waiting := before ++ after } c)
        ({ b with waiting := before ++ after }.begin c)
  | wakes {before after : List Suspended} {s : Suspended} (hs : b.suspended = before ++ s :: after)
      (hlane : s.chain.lane = lane) (hready : b.isReady s) :
      Stirring lane b (.wake before.length) (wakeStory { b with suspended := before ++ after } s)
        ({ b with suspended := before ++ after }.wake s)
  | works {i : Nat} {w : Sleeper} {s : Suspended} (hw : b.sleepers[i]? = some w) (hs : s ∈ b.suspended)
      (hlane : s.chain.lane = lane) (hturn : w.site.turn = s.turn) :
      Stirring lane b (.work i)
        (codeStory w.site w.program { b with now := max b.now w.due, sleepers := b.sleepers.eraseIdx i })
        (b.runSleeper w (b.sleepers.eraseIdx i))

variable {lane : Nat × Point} {numbers numbers' : List Nat} {b b' : Broker} {m m' : Move}

theorem stirring (h : b.stirs lane m) : Stirring lane b m (moveStory b m) (b.move m) := by
  cases m with
  | begin l =>
    simp only [stirs, Bool.and_eq_true, decide_eq_true_eq] at h
    obtain ⟨⟨rfl, hfree⟩, hany⟩ := h
    cases htake : takeFirst? (fun c => decide (c.lane = l)) b.waiting with
    | none =>
      obtain ⟨c, hc, hlane⟩ := List.any_eq_true.1 hany
      exact absurd hlane (takeFirst?_eq_none.1 htake c hc)
    | some found =>
      obtain ⟨before, after, hw, hrest, hlane, hfirst⟩ := takeFirst?_eq_some.1 htake
      simp only [Broker.move, moveStory, hfree, htake, if_true, hrest]
      exact .begins hw (of_decide_eq_true hlane) (by simpa using hfirst) (isFree_iff.1 hfree)
  | wake i =>
    obtain ⟨s, hs, hboth⟩ := (Option.any_eq_true _ _).1 h
    simp only [Bool.and_eq_true, decide_eq_true_eq] at hboth
    obtain ⟨before, after, rfl, hsplit, herase⟩ := eraseIdx_split hs
    simp only [Broker.move, moveStory, hs, herase]
    exact .wakes hsplit hboth.1 hboth.2
  | work i =>
    obtain ⟨w, hw, hawaits⟩ := (Option.any_eq_true _ _).1 h
    obtain ⟨s, hs, hlane, hturn⟩ := awaitsIn_iff.1 hawaits
    simp only [Broker.move, moveStory, hw]
    exact .works hw hs hlane hturn.symm
  | _ => cases h

theorem pausesIn_eq_nil_iff : b.pausesIn lane numbers = [] ↔ ∀ s ∈ b.suspended, s.chain.lane ≠ lane := by
  simp [pausesIn, List.filter_eq_nil_iff]

theorem pausesIn_of_one {s : Suspended} (hone : b.suspended.filter (·.chain.lane = lane) = [s])
    (numbers : List Nat) : b.pausesIn lane numbers = [b.pauseOf numbers s] := by
  rw [pausesIn, hone]
  rfl

theorem exists_of_mem_pausesIn {p : Pause} (hp : p ∈ b.pausesIn lane numbers) :
    ∃ s ∈ b.suspended, s.chain.lane = lane ∧ b.pauseOf numbers s = p := by
  obtain ⟨s, hs, rfl⟩ := List.mem_map.1 hp
  obtain ⟨hmem, hlane⟩ := List.mem_filter.1 hs
  exact ⟨s, hmem, of_decide_eq_true hlane, rfl⟩

theorem waitingIn_split {before after : List Chain} {c : Chain} (hw : b.waiting = before ++ c :: after)
    (hlane : c.lane = lane) (hfirst : ∀ x ∈ before, x.lane ≠ lane) : b.waitingIn lane numbers =
      c.among numbers :: { b with waiting := before ++ after }.waitingIn lane numbers := by
  have hbefore : before.filter (·.lane = lane) = [] :=
    List.filter_eq_nil_iff.2 fun x hx => by simpa using hfirst x hx
  simp [waitingIn, hw, List.filter_append, hbefore, hlane]

theorem mem_moments_turn {s : Suspended} {t : Turn} (ht : b.turn? s.turn = some t) :
    t.deadline?.getD 0 ∈ Pause.moments (b.pauseOf numbers s) := by
  simp [Pause.moments, pauseOf, ht]

theorem mem_moments_task {s : Suspended} {w : Sleeper} (hw : w ∈ b.sleepers) (hturn : w.site.turn = s.turn) :
    w.due ∈ Pause.moments (b.pauseOf numbers s) := by
  refine List.mem_append_right _ (List.mem_map.2 ⟨(w.due, w.program), ?_, rfl⟩)
  exact List.mem_map.2 ⟨w, List.mem_filter.2 ⟨hw, by simpa using hturn⟩, rfl⟩

theorem mem_pausesIn {s : Suspended} (hs : s ∈ b.suspended) (hlane : s.chain.lane = lane) :
    b.pauseOf numbers s ∈ b.pausesIn lane numbers :=
  List.mem_map_of_mem (List.mem_filter.2 ⟨hs, by simpa using hlane⟩)

theorem not_pending_of_isReady {s : Suspended} {t : Turn} (ht : b.turn? s.turn = some t) (hready : b.isReady s) :
    t.deadline?.getD 0 ≤ b.now := by
  cases hdeadline : t.deadline? with
  | none => exact Nat.zero_le _
  | some deadline =>
    obtain ⟨fallback, hdeferral⟩ := Turn.deadline?_eq_some.1 hdeadline
    by_contra hlt
    have hpending : t.isPending b.now := Turn.isPending_iff.2 ⟨deadline, fallback, hdeferral, by simpa using hlt⟩
    simp [isReady, ht, hpending] at hready

theorem isReady_turn {s : Suspended} (hready : b.isReady s) : ∃ t, b.turn? s.turn = some t := by
  cases ht : b.turn? s.turn with
  | none => simp [isReady, ht] at hready
  | some t => exact ⟨t, rfl⟩

theorem runSleeper_now (b : Broker) (w : Sleeper) (rest : List Sleeper) :
    (b.runSleeper w rest).now = max b.now w.due := (runSleeper_effect b w rest).now

theorem Stirring.moment {ds : List Deed} (h : Stirring lane b m ds b') (numbers : List Nat) :
    ∃ time, b.Moment lane numbers time ∧ b'.now = max b.now time := by
  cases h with
  | @begins before after c hw hlane hfirst hfree =>
    refine ⟨0, .inl ⟨pausesIn_of_free hfree numbers, ?_, rfl⟩, ?_⟩
    · rw [waitingIn_split hw hlane hfirst]
      exact List.cons_ne_nil _ _
    · rw [(begin_halts { b with waiting := before ++ after } c fun _ => False).now, Nat.max_zero]
  | @wakes before after s hs hlane hready =>
    obtain ⟨t, ht⟩ := isReady_turn hready
    have hmem : s ∈ b.suspended := by simp [hs]
    refine ⟨_, .inr ⟨_, mem_pausesIn hmem hlane, mem_moments_turn ht⟩, ?_⟩
    rw [(wake_halts { b with suspended := before ++ after } s).now,
      Nat.max_eq_left (not_pending_of_isReady ht hready)]
  | @works i w s hw hs hlane hturn =>
    refine ⟨w.due, .inr ⟨_, mem_pausesIn hs hlane, ?_⟩, runSleeper_now b w _⟩
    exact mem_moments_task (List.mem_of_getElem? hw) hturn

/-- While nothing can run, something is due no later than a moment of the lane. -/
theorem Sound.moment_due (h : Sound b) (hstill : b.instant? = none) {time : Nat}
    (ht : b.Moment lane numbers time) : ∃ due, b.nextDue? = some due ∧ due ≤ time := by
  have hdue {time : Nat} (hmem : time ∈ b.sleepers.map (·.due) ++ b.suspended.filterMap b.deadline?) :
      ∃ due, b.nextDue? = some due ∧ due ≤ time := by
    cases hnext : b.nextDue? with
    | none =>
      rw [nextDue?, List.min?_eq_none_iff] at hnext
      simp [hnext] at hmem
    | some due => exact ⟨due, rfl, (List.min?_eq_some_iff.1 hnext).2 time hmem⟩
  obtain ⟨hready, hfree⟩ := instant?_eq_none hstill
  rcases ht with ⟨hpauses, hwaiting, -⟩ | ⟨p, hp, hmem⟩
  · -- The lane is free, and a chain waits in it.
    obtain ⟨c, hc⟩ := List.exists_mem_of_ne_nil _ hwaiting
    obtain ⟨d, hd, -⟩ := List.mem_map.1 hc
    obtain ⟨hmem, hlane⟩ := List.mem_filter.1 hd
    have hisFree : b.isFree d.lane := by
      rw [of_decide_eq_true hlane]
      exact isFree_iff.2 (pausesIn_eq_nil_iff.1 hpauses)
    rw [hfree d hmem] at hisFree
    cases hisFree
  · obtain ⟨s, hs, -, rfl⟩ := exists_of_mem_pausesIn hp
    obtain ⟨t, ht⟩ : ∃ t, b.turn? s.turn = some t := ⟨_, List.getElem?_eq_getElem (h.grounded s hs)⟩
    rcases List.mem_append.1 hmem with hmem | hmem
    · obtain ⟨deadline, fallback, hdeferral, hdeadline, -⟩ := pending_of_not_ready ht (hready s hs)
      have htime : time = deadline := by simpa [pauseOf, ht, Turn.deadline?, hdeferral] using hmem
      rw [htime]
      exact hdue (List.mem_append_right _ (List.mem_filterMap.2 ⟨s, hs, hdeadline⟩))
    · obtain ⟨task, htask, rfl⟩ := List.mem_map.1 hmem
      obtain ⟨w, hw, rfl⟩ := List.mem_map.1 htask
      exact hdue (List.mem_append_left _ (List.mem_map_of_mem (List.mem_filter.1 hw).1))

/-- Time does not pass beyond a moment of the lane. -/
theorem Sound.now_le_moment (h : Sound b) (hm : Regular b m) (hpasses : (b.move m).now ≠ b.now) {time : Nat}
    (ht : b.Moment lane numbers time) : (b.move m).now ≤ time := by
  obtain ⟨hstill, hprompt⟩ := hm.prompt hpasses
  obtain ⟨due, hnext, hle⟩ := h.moment_due hstill ht
  have hnow := hprompt due hnext
  have hmono := (move_walk b m).times.1
  omega

/-- Neither clock has passed a moment of the lane, or the clocks are equal. -/
def InStep (lane : Nat × Point) (numbers : List Nat) (b b' : Broker) : Prop :=
  b.now = b'.now ∨ ∀ time, b.Moment lane numbers time → b.now ≤ time ∧ b'.now ≤ time

theorem AlikeIn.moment (ha : AlikeIn lane numbers numbers' b b')
    (hwaiting : b'.waitingIn lane numbers' ≠ [] → b.waitingIn lane numbers ≠ []) {time : Nat}
    (ht : b'.Moment lane numbers' time) : b.Moment lane numbers time := by
  unfold Moment at ht ⊢
  rw [ha.pauses] at ht
  exact ht.imp (fun h => ⟨h.1, hwaiting h.2.1, h.2.2⟩) id

theorem InStep.symm (hsteps : InStep lane numbers b b')
    (hmoment : ∀ time, b'.Moment lane numbers' time → b.Moment lane numbers time) : InStep lane numbers' b' b :=
  hsteps.imp Eq.symm fun h time ht => (h time (hmoment time ht)).symm

theorem AlikeIn.afterPlay (ha : AlikeIn lane numbers numbers' b b') {s s' : Suspended}
    (hone : b.suspended.filter (·.chain.lane = lane) = [s]) (hone' : b'.suspended.filter (·.chain.lane = lane) = [s'])
    {t t' : Turn} (ht : b.turn? s.turn = some t) (ht' : b'.turn? s'.turn = some t') {site site' : Site}
    (hsite : site.turn = s.turn) (hsite' : site'.turn = s'.turn) (result : Played) :
    AlikeIn lane numbers numbers' (b.afterPlay site result) (b'.afterPlay site' result) := by
  have hpause := ha.pauses
  rw [pausesIn_of_one hone, pausesIn_of_one hone', List.singleton_inj] at hpause
  have hturn {b : Broker} {s : Suspended} {t : Turn} {site : Site} (ht : b.turn? s.turn = some t)
      (hsite : site.turn = s.turn) : (b.afterPlay site result).turn? s.turn = some result.turn := by
    rw [← hsite] at ht ⊢
    exact afterPlay_turn? ht result
  exact { ha with
    pauses := by
      have hsuspended : (b.afterPlay site result).suspended.filter (·.chain.lane = lane) = [s] := hone
      have hsuspended' : (b'.afterPlay site' result).suspended.filter (·.chain.lane = lane) = [s'] := hone'
      rw [pausesIn_of_one hsuspended, pausesIn_of_one hsuspended']
      simp only [pauseOf, Pause.mk.injEq] at hpause
      simp only [pauseOf, hturn ht hsite, hturn ht' hsite', afterPlay_tasksOf _ hsite, afterPlay_tasksOf _ hsite',
        hpause]
    chronicle := by rw [afterPlay_chronicleIn, afterPlay_chronicleIn, ha.chronicle] }

section

variable (h : Sound b) (h' : Sound b') (ha : AlikeIn lane numbers numbers' b b')
include h h' ha

omit h h' ha in
/-- The work that is due earliest is the first such of its turn. -/
theorem takeFirst?_tasksOf {i : Nat} {w : Sleeper} (hw : b.sleepers[i]? = some w) (hm : Regular b (.work i)) :
    takeFirst? (fun x : Nat × Program => x.1 = w.due) (b.tasksOf w.site.turn) =
        some ((w.due, w.program), { b with sleepers := b.sleepers.eraseIdx i }.tasksOf w.site.turn) ∧
      ∀ x ∈ b.tasksOf w.site.turn, w.due ≤ x.1 := by
  obtain ⟨-, hearliest, hfirst⟩ := hm.works i w rfl hw
  obtain ⟨before, after, rfl, hsplit, herase⟩ := eraseIdx_split hw
  have htake : b.sleepers.take before.length = before := by simp [hsplit]
  rw [htake] at hfirst
  constructor
  · refine takeFirst?_eq_some.2 ⟨(before.filter (·.site.turn = w.site.turn)).map fun w => (w.due, w.program),
      (after.filter (·.site.turn = w.site.turn)).map fun w => (w.due, w.program), ?_, ?_, by simp, ?_⟩
    · simp [tasksOf, hsplit, List.filter_append]
    · simp [tasksOf, herase, List.filter_append]
    · intro x hx hdue
      obtain ⟨w', hw', rfl⟩ := List.mem_map.1 hx
      exact hfirst w' (List.mem_filter.1 hw').1 (of_decide_eq_true hdue).symm
  · intro x hx
    obtain ⟨w', hw', rfl⟩ := List.mem_map.1 hx
    exact hearliest w' (List.mem_filter.1 hw').1

end

end BrokerHooks.Broker
