import BrokerHooks.Proofs.Lane.Sound
import BrokerHooks.Proofs.Run.Scheduler

namespace BrokerHooks

inductive Stimulus where
  | submit (p : Packet)
  /-- An operation on the turn of the suspended chain. -/
  | touch (op : Op)
  /-- An operation that is not private to a turn. -/
  | perform (connection : Nat) (op : Op)
  | request (q : Roster.Request)

namespace Broker

def awaitsIn (b : Broker) (lane : Nat × Point) (turn : Nat) : Bool :=
  b.suspended.any fun s => s.chain.lane = lane && s.turn = turn

/-- What a move brings to the lane from outside, if it brings anything. -/
def stimulus? (lane : Nat × Point) (b : Broker) : Move → Option Stimulus
  | .submit connection point p => if (connection, point) = lane && p.belongsTo point then some (.submit p) else none
  | .perform site op =>
    if op.isPrivate then if b.awaitsIn lane site.turn then some (.touch op) else none
    else some (.perform site.connection op)
  | .openConnection clientId version aliasMaximum => some (.request (.openConnection clientId version aliasMaximum))
  | .track c => some (.request (.track c))
  | .untrack clientId => some (.request (.untrack clientId))
  | .letGo c => some (.request (.letGo c))
  | .add place extension point family respond => some (.request (.add place extension point family respond))
  | .begin _ | .wake _ | .work _ | .elapse _ | .sweep | .observeAliases => none

/-- What comes to the lane from outside in a run, and when. -/
def stimuli (lane : Nat × Point) (b : Broker) : List Move → List (Nat × Stimulus)
  | [] => []
  | m :: ms => ((b.stimulus? lane m).map (b.now, ·)).toList ++ (b.move m).stimuli lane ms

/-- The lane's next chain begins, its suspended chain goes on, or work is done that was left behind for the turn of
that chain. -/
def stirs (lane : Nat × Point) (b : Broker) : Move → Bool
  | .begin l => l = lane && b.isFree lane && b.waiting.any (·.lane = lane)
  | .wake i => b.suspended[i]?.any fun s => s.chain.lane = lane && b.isReady s
  | .work i => b.sleepers[i]?.any fun w => b.awaitsIn lane w.site.turn
  | _ => false

variable {lane : Nat × Point} {numbers numbers' : List Nat} {b b' b₁ : Broker}

theorem awaitsIn_iff {turn : Nat} : b.awaitsIn lane turn ↔ ∃ s ∈ b.suspended, s.chain.lane = lane ∧ s.turn = turn := by
  simp [awaitsIn]

theorem Spares.trans (h : Spares lane b b₁) (h' : Spares lane b₁ b') : Spares lane b b' := by
  have hmem : ∀ s ∈ b.suspended, s.chain.lane = lane → s ∈ b₁.suspended := by
    intro s hs hlane
    have hfilter : s ∈ b.suspended.filter (·.chain.lane = lane) := List.mem_filter.2 ⟨hs, by simpa using hlane⟩
    exact (List.mem_filter.1 (h.suspended ▸ hfilter)).1
  exact {
    limits := h'.limits.trans h.limits
    maxTimeout := h'.maxTimeout.trans h.maxTimeout
    waiting := h'.waiting.trans h.waiting
    suspended := h'.suspended.trans h.suspended
    turn? := fun s hs hlane => (h'.turn? s (hmem s hs hlane) hlane).trans (h.turn? s hs hlane)
    tasks := fun s hs hlane => (h'.tasks s (hmem s hs hlane) hlane).trans (h.tasks s hs hlane)
    journal := by
      obtain ⟨new, hj, hnew⟩ := h.journal
      obtain ⟨new', hj', hnew'⟩ := h'.journal
      refine ⟨new ++ new', by rw [hj', hj, List.append_assoc], fun e he => ?_⟩
      rcases List.mem_append.1 he with he | he
      · exact hnew e he
      · exact hnew' e he }

/-- Code that touches no turn the lane waits for. -/
theorem Effect.spares {who : Option Chain} {touched : Nat → Prop} (he : Effect who touched b b')
    (hj : ∃ new, b'.journal = b.journal ++ new ∧ ∀ e ∈ new, e.event.lane? ≠ some lane) (hg : Grounded b)
    (htouched : ∀ s ∈ b.suspended, s.chain.lane = lane → ¬touched s.turn) : Spares lane b b' where
  limits := he.limits
  maxTimeout := he.maxTimeout
  waiting := by rw [he.waiting]
  suspended := by rw [he.suspended]
  turn? s hs hlane := he.turn? s.turn (hg s hs) (htouched s hs hlane)
  tasks s hs hlane := by
    obtain ⟨new, hsleepers, hnew⟩ := he.sleepers
    have hnone : new.filter (·.site.turn = s.turn) = [] := by
      refine List.filter_eq_nil_iff.2 fun w hw hturn => ?_
      have hturn : w.site.turn = s.turn := of_decide_eq_true hturn
      have hlt := hg s hs
      rcases (hnew w hw).1 with ht | hle
      · exact htouched s hs hlane (hturn ▸ ht)
      · omega
    unfold tasksOf
    rw [hsleepers, List.filter_append, hnone, List.append_nil]
  journal := hj

theorem Private.spares_journal {other : Option (Nat × Point)} (hp : Private other b b') (hother : other ≠ some lane) :
    ∃ new, b'.journal = b.journal ++ new ∧ ∀ e ∈ new, e.event.lane? ≠ some lane := by
  obtain ⟨new, hj, hnew⟩ := hp.journal
  refine ⟨new, hj, fun e he heq => ?_⟩
  rcases hnew e he with hnone | hsome
  · rw [hnone] at heq
    cases heq
  · exact hother (hsome.symm.trans heq)

/-- A chain of another lane runs on until it halts. -/
theorem Halts.spares {c : Chain} {touched : Nat → Prop} (hh : Halts c touched b b') (hp : Private (some c.lane) b b')
    (hlane : c.lane ≠ lane) (hg : Grounded b)
    (htouched : ∀ s ∈ b.suspended, s.chain.lane = lane → ¬touched s.turn) : Spares lane b b' := by
  have hother : some c.lane ≠ some lane := fun heq => hlane (Option.some.inj heq)
  obtain ⟨new, hj, hnew⟩ := hp.spares_journal hother
  cases hh with
  | @reported b'' r he =>
    obtain ⟨told, htold, -⟩ := he.journal
    have hreported := report_journal b'' c r
    have hsplit := hreported.symm.trans hj
    rw [htold, List.append_assoc] at hsplit
    have hsplit := List.append_cancel_left hsplit
    have hspares : Spares lane b b'' :=
      he.spares ⟨told, htold, fun e he => hnew e (by rw [← hsplit]; exact List.mem_append_left _ he)⟩ hg htouched
    refine hspares.trans ?_
    exact {
      limits := by simp
      maxTimeout := by simp
      waiting := by simp
      suspended := by simp
      turn? := fun s _ _ => by simp [Broker.turn?]
      tasks := fun s _ _ => by simp [tasksOf]
      journal := ⟨_, hreported, by simpa [Event.lane?] using hlane⟩ }
  | @suspended b'' s he hchain _ _ =>
    have hspares : Spares lane b b'' := he.spares ⟨new, hj, hnew⟩ hg htouched
    refine hspares.trans { Spares.refl b'' with suspended := ?_ }
    simp [List.filter_append, hchain, hlane]

theorem spares_take {before after : List Chain} {c : Chain} (hw : b.waiting = before ++ c :: after)
    (hlane : c.lane ≠ lane) : Spares lane b { b with waiting := before ++ after } :=
  { Spares.refl b with waiting := by simp [hw, List.filter_append, hlane] }

theorem spares_takeSuspended {before after : List Suspended} {s : Suspended}
    (hs : b.suspended = before ++ s :: after) (hlane : s.chain.lane ≠ lane) :
    Spares lane b { b with suspended := before ++ after } :=
  { Spares.refl b with suspended := by simp [hs, List.filter_append, hlane] }

theorem standing_pending {i : Nat} {t : Turn} (ht : b.turn? i = some t) (hpending : t.isPending b.now) (c : Chain) :
    b.standing c i = (.pending, b) := by
  obtain ⟨deadline, fallback, hdeferral, hlt⟩ := Turn.isPending_iff.1 hpending
  have hpoll : t.poll b.now = (none, t) := by simp [Turn.poll, hdeferral, hlt]
  unfold standing
  rw [ht]
  simp only [hpoll]
  simp [setTurn, setTurn_self ht]

theorem wake_pending {s : Suspended} {t : Turn} (ht : b.turn? s.turn = some t) (hpending : t.isPending b.now) :
    b.wake s = { b with suspended := b.suspended ++ [s] } := by
  rw [wake_eq_conclude, standing_pending ht hpending]
  rfl

theorem Sound.turn_pending (h : Sound b) {s : Suspended} (hs : s ∈ b.suspended) (hready : b.isReady s = false) :
    ∃ t, b.turn? s.turn = some t ∧ t.isPending b.now := by
  obtain ⟨t, ht⟩ : ∃ t, b.turn? s.turn = some t := ⟨_, List.getElem?_eq_getElem (h.grounded s hs)⟩
  exact ⟨t, ht, by simpa [isReady, ht] using hready⟩

theorem spares_wake (h : Sound b) {i : Nat} {s : Suspended} (hs : b.suspended[i]? = some s)
    (hnot : ¬(s.chain.lane = lane ∧ b.isReady s)) :
    Spares lane b (b.move (.wake i)) ∧ Private (some s.chain.lane) b (b.move (.wake i)) := by
  obtain ⟨before, after, rfl, hsplit, herase⟩ := eraseIdx_split hs
  have hmem : s ∈ b.suspended := by simp [hsplit]
  have hmove : b.move (.wake before.length) = { b with suspended := before ++ after }.wake s := by
    simp only [Broker.move, hs, herase]
  rw [hmove]
  obtain ⟨htaken, hothers⟩ := h.takes_suspended hsplit
  have hp := Private.wake (h.rest s hmem) { b with suspended := before ++ after }
  refine ⟨?_, { hp with }⟩
  by_cases hlane : s.chain.lane = lane
  · -- The turn is pending, so the chain only changes its place among the suspended ones.
    have hready : b.isReady s = false := by simpa [hlane] using hnot
    obtain ⟨t, ht, hpending⟩ := h.turn_pending hmem hready
    rw [wake_pending (b := { b with suspended := before ++ after }) ht hpending]
    refine { Spares.refl b with suspended := ?_ }
    have hothers := h.others_eq_nil hsplit
    rw [hlane] at hothers
    rw [h.suspended_eq hmem hlane, List.filter_append, hothers]
    simp [hlane]
  · refine (spares_takeSuspended hsplit hlane).trans ?_
    refine (wake_halts { b with suspended := before ++ after } s).spares hp hlane htaken.grounded ?_
    rintro s' hs' - hturn
    exact hothers s' hs' hturn

theorem spares_begin (h : Sound b) {l : Nat × Point}
    (hnot : ¬(l = lane ∧ b.isFree lane ∧ b.waiting.any (·.lane = lane))) :
    Spares lane b (b.move (.begin l)) ∧ Private (some l) b (b.move (.begin l)) := by
  simp only [Broker.move]
  split
  · rename_i hfree
    split
    · rename_i c rest htake
      obtain ⟨before, after, hw, rfl, hl, hfirst⟩ := takeFirst?_eq_some.1 htake
      obtain rfl : c.lane = l := of_decide_eq_true hl
      have hlane : c.lane ≠ lane := by
        rintro rfl
        exact hnot ⟨rfl, hfree, List.any_eq_true.2 ⟨c, by simp [hw], by simp⟩⟩
      have htaken := h.takes_waiting hw (by simpa using hfirst) (isFree_iff.1 hfree)
      have hp : Private (some c.lane) { b with waiting := before ++ after }
          ({ b with waiting := before ++ after }.begin c) := .begins (htaken.ordered c.connection c.point)
      refine ⟨(spares_take hw hlane).trans ?_, { hp with }⟩
      exact (begin_halts _ c fun _ => False).spares hp hlane htaken.grounded fun _ _ _ h => h
    · exact ⟨.refl b, .refl b⟩
  · exact ⟨.refl b, .refl b⟩

theorem spares_work (h : Sound b) {i : Nat} {w : Sleeper} (hw : b.sleepers[i]? = some w)
    (hnot : ¬b.awaitsIn lane w.site.turn) :
    Spares lane b (b.move (.work i)) ∧
      Private none { b with sleepers := b.sleepers.eraseIdx i } (b.move (.work i)) := by
  have hothers : ∀ s ∈ b.suspended, s.chain.lane = lane → s.turn ≠ w.site.turn :=
    fun s hs hlane heq => hnot (awaitsIn_iff.2 ⟨s, hs, hlane, heq⟩)
  have htaken : Spares lane b { b with now := max b.now w.due, sleepers := b.sleepers.eraseIdx i } := by
    refine { Spares.refl b with tasks := fun s hs hlane => ?_ }
    obtain ⟨before, after, rfl, hsplit, herase⟩ := eraseIdx_split hw
    have hne : w.site.turn ≠ s.turn := (hothers s hs hlane).symm
    unfold tasksOf
    simp only [herase]
    simp [hsplit, List.filter_append, hne]
  have hp := h.runSleeper_private hw
  have hmove : b.move (.work i) = b.runSleeper w (b.sleepers.eraseIdx i) := by simp only [Broker.move, hw]
  rw [hmove]
  refine ⟨htaken.trans ?_, { hp with }⟩
  exact (runSleeper_effect b w _).spares (hp.spares_journal (by simp)) h.grounded hothers

theorem spares_perform (h : Sound b) {site : Site} {op : Op} (hop : op.isPrivate) (hnot : ¬b.awaitsIn lane site.turn) :
    Spares lane b (b.perform site op).2 := by
  have he : Effect none (· = site.turn) b (b.perform site op).2 := .perform (by rfl) b op
  have hp : Private none b (b.perform site op).2 := .perform b site hop
  refine he.spares (hp.spares_journal (by simp)) h.grounded ?_
  rintro s hs hlane hturn
  exact hnot (awaitsIn_iff.2 ⟨s, hs, hlane, hturn⟩)

theorem spares_submit (b : Broker) {connection : Nat} {point : Point} {p : Packet}
    (hnot : ¬((connection, point) = lane ∧ p.belongsTo point)) : Spares lane b (b.submit connection point p).2 := by
  unfold submit
  simp only
  split
  · rename_i hbelongs
    have hlane : (connection, point) ≠ lane := fun heq => hnot ⟨heq, hbelongs⟩
    refine { Spares.refl b with waiting := ?_ }
    simp [List.filter_append, Chain.lane, hlane]
  · exact { Spares.refl b with journal := ⟨[_], rfl, by simp [Event.lane?]⟩ }

theorem sweep_alike {c : Nat} {b : Broker} {r' : Roster} (h : b.roster.AlikeFor c r') :
    b.sweep.roster.AlikeFor c r' := by
  have hreleases (abandoned : List Nat) {r : Roster} (hr : r.AlikeFor c r') :
      (abandoned.foldl Roster.release r).AlikeFor c r' := by
    induction abandoned generalizing r with
    | nil => exact hr
    | cons i abandoned ih => exact ih (hr.release_left i)
  exact hreleases _ h

/-- A move that neither comes to the lane from outside nor stirs it leaves it as it is. -/
theorem spares_move (h : Sound b) {m : Move} (hm : b.stimulus? lane m = none) (hs : b.stirs lane m = false) :
    Spares lane b (b.move m) ∧ (b.move m).limiter = b.limiter ∧
      ∀ r', b.roster.AlikeFor lane.1 r' → (b.move m).roster.AlikeFor lane.1 r' := by
  have hstill {b' : Broker} (hspares : Spares lane b b') (hlimiter : b'.limiter = b.limiter)
      (hroster : b'.roster = b.roster) : Spares lane b b' ∧ b'.limiter = b.limiter ∧
        ∀ r', b.roster.AlikeFor lane.1 r' → b'.roster.AlikeFor lane.1 r' :=
    ⟨hspares, hlimiter, fun _ halike => hroster ▸ halike⟩
  cases m with
  | submit connection point p =>
    have hnot : ¬((connection, point) = lane ∧ p.belongsTo point) := by simpa [stimulus?] using hm
    refine hstill (spares_submit b hnot) ?_ ?_ <;> (simp only [Broker.move, submit]; split <;> rfl)
  | begin l =>
    have hnot : ¬(l = lane ∧ b.isFree lane ∧ b.waiting.any (·.lane = lane)) := by simpa [stirs] using hs
    obtain ⟨hspares, hp⟩ := spares_begin h hnot
    exact hstill hspares hp.limiter hp.roster
  | wake i =>
    cases hsome : b.suspended[i]? with
    | none =>
      have hsame : b.move (.wake i) = b := by simp only [Broker.move, hsome]
      rw [hsame]
      exact hstill (.refl b) rfl rfl
    | some s =>
      have hnot : ¬(s.chain.lane = lane ∧ b.isReady s) := by simpa [stirs, hsome] using hs
      obtain ⟨hspares, hp⟩ := spares_wake h hsome hnot
      exact hstill hspares hp.limiter hp.roster
  | work i =>
    cases hw : b.sleepers[i]? with
    | none =>
      have hsame : b.move (.work i) = b := by simp only [Broker.move, hw]
      rw [hsame]
      exact hstill (.refl b) rfl rfl
    | some w =>
      have hnot : ¬b.awaitsIn lane w.site.turn := by simpa [stirs, hw] using hs
      obtain ⟨hspares, hp⟩ := spares_work h hw hnot
      exact hstill hspares hp.limiter hp.roster
  | perform site op =>
    have hop : op.isPrivate := by
      by_contra hnot
      simp [stimulus?, hnot] at hm
    have hp : Private none b (b.perform site op).2 := .perform b site hop
    exact hstill (spares_perform h hop (by simpa [stimulus?, hop] using hm)) hp.limiter hp.roster
  | openConnection | track | untrack | letGo | add => cases hm
  | elapse time => exact hstill { Spares.refl b with } rfl rfl
  | sweep =>
    -- A sweep changes the roster, but releases nothing that the lane can see.
    have haside : Aside b b.sweep := { Aside.refl b with }
    exact ⟨haside.spares, rfl, fun _ halike => sweep_alike halike⟩
  | observeAliases => exact hstill { Spares.refl b with } rfl rfl

end Broker
end BrokerHooks
