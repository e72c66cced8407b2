import BrokerHooks.Proofs.Chain.Latency
import BrokerHooks.Proofs.Chain.OwnTurn
import BrokerHooks.Proofs.Lane.Coupling

namespace BrokerHooks

open Broker

/-- What may become of a turn that is left to the work that its own hook has left behind. Time passes no
further than to what is due next, and the work is done in the order in which it is due. Where the time of
the turn is up when work is due, either may come first. -/
inductive Fate : Nat → Turn → List (Nat × Program) → Completion → Turn → Prop where
  | ended {now : Nat} {t t' : Turn} {tasks : List (Nat × Program)} {completion : Completion}
      (hpoll : t.poll now = (some completion, t')) : Fate now t tasks completion t'
  | waits {now later : Nat} {t t' : Turn} {tasks : List (Nat × Program)} {completion : Completion}
      (hle : now ≤ later) (hdeadline : ∀ d, t.deadline? = some d → later ≤ d) (htasks : ∀ x ∈ tasks, later ≤ x.1)
      (h : Fate later t tasks completion t') : Fate now t tasks completion t'
  | works {now due : Nat} {t t' : Turn} {tasks rest : List (Nat × Program)} {program : Program}
      {completion : Completion} (hpending : t.isPending now) (hearliest : ∀ x ∈ tasks, due ≤ x.1)
      (hdeadline : ∀ d, t.deadline? = some d → max now due ≤ d)
      (htake : takeFirst? (fun x => x.1 = due) tasks = some ((due, program), rest))
      (h : Fate (max now due) (program.playOn (max now due) t).turn
        (rest ++ (program.playOn (max now due) t).tasks) completion t') :
      Fate now t tasks completion t'

theorem Turn.poll_of_settled {t : Turn} (ht : t.deadline? = none) (now later : Nat) : t.poll later = t.poll now := by
  unfold deadline? at ht
  unfold poll
  cases hd : t.deferral with
  | pending => simp [hd] at ht
  | notRequested | resumed | timedOut => rfl

namespace Fate

variable {now : Nat} {t t' : Turn} {completion : Completion}

theorem of_settled {tasks : List (Nat × Program)} (h : Fate now t tasks completion t') (ht : t.deadline? = none) :
    t.poll now = (some completion, t') := by
  induction h with
  | ended hpoll => exact hpoll
  | waits _ _ _ _ ih => rw [← ih ht, Turn.poll_of_settled ht]
  | works hpending =>
    obtain ⟨d, f, hdeferral, -⟩ := Turn.isPending_iff.1 hpending
    rw [Turn.deadline?_eq_some.2 ⟨f, hdeferral⟩] at ht
    cases ht

/-- If the only work for the turn is due before its time is up, and resumes it, this is how it ends. -/
theorem of_task {due deadline : Nat} {program : Program} (h : Fate now t [(due, program)] completion t')
    (ht : t.deadline? = some deadline) (hnow : now ≤ due) (hdue : due < deadline)
    (hresumed : (program.playOn due t).turn.deferral = .resumed) :
    completion = .resumed ∧ t' = (program.playOn due t).turn := by
  obtain ⟨f, hdeferral⟩ := Turn.deadline?_eq_some.1 ht
  generalize htasks : [(due, program)] = tasks at h
  induction h with
  | @ended now t _ completion t' hpoll =>
    have hpending : ¬deadline ≤ now := by omega
    simp [Turn.poll, hdeferral, hpending] at hpoll
  | waits _ _ hle _ ih =>
    subst htasks
    exact ih ht (hle _ (List.mem_singleton_self _)) hresumed hdeferral rfl
  | @works now due' t t' _ rest program' completion _ _ _ htake hfate _ =>
    -- The work resumes the turn, which then waits for nothing.
    subst htasks
    obtain ⟨before, after, hsplit, rfl, -, -⟩ := takeFirst?_eq_some.1 htake
    obtain ⟨rfl, hwork⟩ := (List.append_eq_singleton_iff.1 hsplit.symm).resolve_right (by simp)
    cases hwork
    rw [Nat.max_eq_right hnow] at hfate
    have hpoll := hfate.of_settled (by simp [Turn.deadline?, hresumed])
    simp only [Turn.poll, hresumed] at hpoll
    cases hpoll
    exact ⟨rfl, rfl⟩

end Fate

/-- What may become of a hook whose code has come to this by `now`. -/
inductive Played.Leads (now : Nat) (played : Played) : Visit → Prop where
  | broke {cause : Cause} (hcause : played.cause = some cause) : Leads now played (.broke cause)
  | ended {completion : Completion} {turn : Turn} (hcause : played.cause = none)
      (hfate : Fate now played.turn played.tasks completion turn) : Leads now played (.ended completion turn)

namespace Broker

/-- Code outside does nothing to the turns of the lane's hooks. -/
def Untouched (lane : Nat × Point) (b : Broker) (ms : List Move) : Prop :=
  ∀ x ∈ b.stimuli lane ms, ∀ op, x.2 ≠ .touch op

theorem untouched_append {lane : Nat × Point} {b : Broker} {ms ns : List Move} :
    Untouched lane b (ms ++ ns) ↔ Untouched lane b ms ∧ Untouched lane (b.play ms) ns := by
  simp only [Untouched, stimuli_append, List.mem_append, or_imp, forall_and]

section

variable {b : Broker} {m : Move} {s : Suspended} {t : Turn}

theorem Comes.spares_turn {lane : Nat × Point} {x : Stimulus} (hm : Comes lane b m x)
    (hx : ∀ op, x ≠ .touch op) (i : Nat) :
    (b.move m).now = b.now ∧ (b.move m).turn? i = b.turn? i ∧ (b.move m).tasksOf i = b.tasksOf i := by
  cases hm with
  | submit hbelongs =>
    rw [show b.move (.submit lane.1 lane.2 _) = _ from move_submit hbelongs]
    exact ⟨rfl, rfl, rfl⟩
  | touch => exact absurd rfl (hx _)
  | @perform site op hop =>
    have haside := Aside.perform b site hop
    refine ⟨(outside_idles (m := .perform site op) rfl b).1, ?_, ?_⟩
    · exact congrArg (·[i]?) haside.turns
    · exact congrArg (fun ws => (ws.filter (·.site.turn = i)).map fun w => (w.due, w.program)) haside.sleepers
  | request _ hmove =>
    rw [hmove]
    exact ⟨rfl, rfl, rfl⟩

/-- Time passes neither beyond the deadline of a suspended chain's turn nor beyond what is due for it. -/
theorem Sound.now_le_turn (h : Sound b) (hs : s ∈ b.suspended) (hm : Regular b m)
    (hpasses : (b.move m).now ≠ b.now) (ht : b.turn? s.turn = some t) :
    (∀ d, t.deadline? = some d → (b.move m).now ≤ d) ∧ ∀ x ∈ b.tasksOf s.turn, (b.move m).now ≤ x.1 := by
  have hmoment {time : Nat} (hmem : time ∈ Pause.moments (b.pauseOf [] s)) : b.Moment s.chain.lane [] time :=
    .inr ⟨_, mem_pausesIn hs rfl, hmem⟩
  refine ⟨fun d hd => ?_, fun x hx => ?_⟩
  · have hturn : t.deadline?.getD 0 ∈ Pause.moments (b.pauseOf [] s) := mem_moments_turn ht
    rw [hd] at hturn
    exact h.now_le_moment hm hpasses (hmoment hturn)
  · exact h.now_le_moment hm hpasses (hmoment (List.mem_append_right _ (List.mem_map_of_mem hx)))

theorem not_silent_wake_of_isReady (hready : b.isReady s) : ¬Silent s.chain b (b.wake s) := by
  refine not_silent_wake fun hpending => ?_
  rcases standing_cases b s.chain s.turn with ⟨-, -, hnone⟩ | ⟨completion, turn, -, hst⟩
  · obtain ⟨t, ht, hpoll⟩ := isReady_iff.1 hready
    obtain ⟨completion, hcompletion⟩ := Option.ne_none_iff_exists'.1 hpoll
    exact hnone completion (t.poll b.now).2 ⟨t, ht, Prod.ext hcompletion rfl⟩
  · exact standingOf_ne_pending turn completion (hst.symm.trans hpending)

/-- The work that is done next for the turn of a suspended chain. -/
theorem Sound.fate_work (h : Sound b) (hs : s ∈ b.suspended) {i : Nat} {w : Sleeper} (hm : Regular b (.work i))
    (hw : b.sleepers[i]? = some w) (hturn : w.site.turn = s.turn) (ht : b.turn? s.turn = some t) :
    ∃ t', (b.move (.work i)).turn? s.turn = some t' ∧ ∀ completion turn,
      Fate (b.move (.work i)).now t' ((b.move (.work i)).tasksOf s.turn) completion turn →
        Fate b.now t (b.tasksOf s.turn) completion turn := by
  obtain ⟨t₁, ht₁, hrun⟩ := h.work_private hw
  obtain rfl : t₁ = t := Option.some.inj ((hturn ▸ ht₁).symm.trans ht)
  obtain ⟨hstill, -⟩ := hm.works i w rfl hw
  have hready := (instant?_eq_none hstill).1 s hs
  obtain ⟨t₂, ht₂, hpending⟩ := h.turn_pending hs hready
  obtain rfl : t₂ = t₁ := Option.some.inj (ht₂.symm.trans ht)
  obtain ⟨htake, hearliest⟩ := takeFirst?_tasksOf hw hm
  rw [hturn] at htake hearliest
  have hmove : b.move (.work i) = b.runSleeper w (b.sleepers.eraseIdx i) := by simp only [Broker.move, hw]
  have hnow : (b.move (.work i)).now = max b.now w.due := by rw [hmove, runSleeper_now]
  -- The turn is pending, so its deadline lies ahead, and the clock does not pass it.
  have hdeadline : ∀ d, t₂.deadline? = some d → max b.now w.due ≤ d := by
    intro d hd
    rw [← hnow]
    by_cases hpasses : (b.move (.work i)).now = b.now
    · rw [hpasses]
      exact Nat.le_of_lt (lt_deadline hready (by rw [deadline?, ht]; exact hd))
    · exact (h.now_le_turn hs hm hpasses ht).1 d hd
  have hplayed : (b.move (.work i)).turn? s.turn = some (w.program.playOn (max b.now w.due) t₂).turn := by
    rw [hmove, hrun, ← hturn]
    exact setTurn_turn? (b := b) ht₁ _
  refine ⟨_, hplayed, fun completion turn hfate => ?_⟩
  rw [hnow, hmove, hrun, afterPlay_tasksOf _ hturn] at hfate
  exact .works hpending hearliest hdeadline htake hfate

/-- One move carries the turn of a suspended chain along. -/
theorem Sound.fate_move (h : Sound b) (hs : s ∈ b.suspended) (hm : Regular b m)
    (hsilent : Silent s.chain b (b.move m)) (huntouched : ∀ x ∈ b.stimulus? s.chain.lane m, ∀ op, x ≠ .touch op)
    (ht : b.turn? s.turn = some t) : ∃ t', (b.move m).turn? s.turn = some t' ∧ ∀ completion turn,
      Fate (b.move m).now t' ((b.move m).tasksOf s.turn) completion turn →
        Fate b.now t (b.tasksOf s.turn) completion turn := by
  -- What comes from outside is no touch of the turn. Of the other moves only work for the turn changes it.
  cases hstimulus : b.stimulus? s.chain.lane m with
  | some x =>
    obtain ⟨hnow, hturn, htasks⟩ :=
      (comes_of_stimulus hstimulus).spares_turn (huntouched x hstimulus) s.turn
    rw [hnow, hturn, htasks]
    exact ⟨t, ht, fun _ _ hfate => hfate⟩
  | none =>
    cases hstirs : b.stirs s.chain.lane m with
    | false =>
      obtain ⟨hspares, -⟩ := spares_move h hstimulus hstirs
      rw [hspares.turn? s hs rfl, hspares.tasks s hs rfl]
      refine ⟨t, ht, fun completion turn hfate => ?_⟩
      by_cases hpasses : (b.move m).now = b.now
      · rwa [hpasses] at hfate
      · obtain ⟨hdeadline, htasks⟩ := h.now_le_turn hs hm hpasses ht
        exact .waits (move_walk b m).times.1 hdeadline htasks hfate
    | true =>
      have hstirring := stirring hstirs
      generalize moveStory b m = ds at hstirring
      generalize hmoved : b.move m = b' at hstirring hsilent ⊢
      cases hstirring with
      | begins _ _ _ hfree => exact absurd rfl (hfree s hs)
      | @wakes before after s' hsplit hlane hready =>
        obtain rfl : s' = s := h.lane_unique (by simp [hsplit]) hs hlane
        exact absurd hsilent (not_silent_wake_of_isReady (b := { b with suspended := before ++ after }) hready)
      | @works i w s' hw hs' hlane hturn =>
        obtain rfl : s' = s := h.lane_unique hs' hs hlane
        rw [← hmoved]
        exact h.fate_work hs hm hw hturn ht

/-- Along a regular run, what becomes of the turn of a chain that stays suspended is one of its fates. -/
theorem Sound.fate_play (h : Sound b) (hs : s ∈ b.suspended) {ms : List Move} (hms : RegularRun b ms)
    (hsilent : Silent s.chain b (b.play ms)) (huntouched : Untouched s.chain.lane b ms) (ht : b.turn? s.turn = some t)
    {completion : Completion} {turn : Turn} (hends : (b.play ms).Ended s.turn completion turn) :
    Fate b.now t (b.tasksOf s.turn) completion turn := by
  -- By induction on the moves: from the fate of what a move leaves comes the fate of what was there before it.
  induction ms generalizing b t with
  | nil =>
    obtain ⟨t₀, ht₀, hpoll⟩ := hends
    obtain rfl := Option.some.inj (ht₀.symm.trans ht)
    exact .ended hpoll
  | cons m ms ih =>
    obtain ⟨hm, hms⟩ := hms
    obtain ⟨hfirst, hrest⟩ := hsilent.of_prefix (move_walk b m).journal (story_walk (b.move m) ms).journal
    have hstimulus : ∀ x ∈ b.stimulus? s.chain.lane m, ∀ op, x ≠ .touch op := by
      refine fun x hx => huntouched (b.now, x) ?_
      rw [stimuli_some hx]
      exact List.mem_cons_self ..
    have hothers : Untouched s.chain.lane (b.move m) ms := by
      refine fun x hx => huntouched x ?_
      rw [stimuli_cons]
      exact List.mem_append_right _ hx
    obtain ⟨t', ht', hfate⟩ := h.fate_move hs hm hfirst hstimulus ht
    exact hfate _ _ (ih (h.move hm) (h.orderly.stays hs m hfirst) hms hrest hothers ht' hends)

end

section

variable {c : Chain} {r : Ranked} {rest : List Ranked} {p : Packet} {b b' : Broker}

/-- A chain whose hook acts on its own output alone is suspended as the hook has left everything. -/
theorem Suspends.private (h : Suspends c r rest p b b') (hown : ActsOnOwnOutput r.hook.respond) :
    (b.played c r.hook p).cause = none ∧
      b' = (b.afterCallback c r.hook p (b.played c r.hook p)).suspend (b.suspension c r rest p) := by
  obtain ⟨b₁, b₂, hcall, hstanding, rfl⟩ := h.suspends
  obtain ⟨hcause, rfl⟩ := Prod.mk.inj ((callback_private hown b c p).symm.trans hcall)
  have hturn := b.afterCallback_turn? c r.hook p (b.played c r.hook p)
  unfold afterCallback at hturn ⊢
  refine ⟨hcause, ?_⟩
  -- The turn is pending, so that the look at it changes nothing.
  rcases standing_cases _ c b.turns.length with ⟨-, -, hnone⟩ | ⟨completion, turn, -, hst⟩
  · have hpending : (b.played c r.hook p).turn.isPending b.now := by
      unfold Turn.isPending
      cases hpoll : (b.played c r.hook p).turn.poll b.now with
      | mk completion turn =>
        cases completion with
        | none => rfl
        | some completion => exact absurd ⟨_, hturn, hpoll⟩ (hnone completion turn)
    rw [standing_pending hturn hpending] at hstanding
    obtain ⟨-, rfl⟩ := Prod.mk.inj hstanding
    rfl
  · rw [hstanding] at hst
    exact absurd hst.symm (standingOf_ne_pending turn completion)

/-- Whatever else happens, what becomes of a hook is what its code leads to. -/
theorem Visited.leads {ns : List Move} {v : Visit} (hv : Visited c r rest p b ns v b') (hon : v.isInvoked)
    (hown : ActsOnOwnOutput r.hook.respond) (hlt : ∀ w ∈ b.sleepers, w.site.turn < b.turns.length)
    (h : Sound (proceed c (r :: rest) p b)) (hns : RegularRun (proceed c (r :: rest) p b) ns)
    (huntouched : Untouched c.lane (proceed c (r :: rest) p b) ns) : (b.played c r.hook p).Leads b.now v := by
  have hcallback := callback_private hown b c p
  have hturn := b.afterCallback_turn? c r.hook p (b.played c r.hook p)
  cases hv with
  | passedOver => cases hon
  | broke _ hcall =>
    rw [hcall] at hcallback
    exact .broke (congrArg Prod.fst hcallback).symm
  | atOnce _ hcall hends =>
    rw [hcall] at hcallback
    obtain ⟨hcause, rfl⟩ := Prod.mk.inj hcallback
    obtain ⟨t₀, ht₀, hpoll⟩ := hends
    obtain rfl := Option.some.inj (ht₀.symm.trans hturn)
    exact .ended hcause.symm (.ended hpoll)
  | @awaited completion turn b₁ b₂ ms before after hsus hplay hsilent _ hends =>
    subst hplay
    rw [hsus.proceed_eq] at h hns huntouched
    obtain ⟨hcause, rfl⟩ := hsus.private hown
    have hfate := h.fate_play hsus.mem (regularRun_append.1 hns).1 hsilent (untouched_append.1 huntouched).1 hturn hends
    have htasks := afterCallback_tasksOf hlt c r.hook p (b.played c r.hook p)
    exact .ended hcause (htasks ▸ hfate)

end

end Broker
end BrokerHooks
