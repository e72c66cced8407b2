import BrokerHooks.Proofs.Chain.Stage
import BrokerHooks.Proofs.Run.Story

namespace BrokerHooks.Broker

theorem Ended.standing {b : Broker} {t : Nat} {completion : Completion} {turn : Turn}
    (h : b.Ended t completion turn) (c : Chain) : (b.standing c t).1 = standingOf turn completion := by
  obtain ⟨t₀, ht, hpoll⟩ := h
  unfold Broker.standing
  rw [ht]
  simp only [hpoll]

section

variable {c : Chain} {r : Ranked} {rest : List Ranked} {p : Packet} {b b' : Broker}

theorem Suspends.serve (h : Suspends c r rest p b b') :
    ∃ b₁, b.serve c r p = (.pending, b₁) ∧
      b' = { b₁ with suspended := b₁.suspended ++ [b.suspension c r rest p] } := by
  obtain ⟨b₁, b₂, hcall, hstanding, rfl⟩ := h.suspends
  refine ⟨b₂, ?_, rfl⟩
  unfold Broker.serve
  rw [if_pos h.enabled, hcall]
  exact hstanding

theorem Suspends.proceed_eq (h : Suspends c r rest p b b') : proceed c (r :: rest) p b = b' := by
  obtain ⟨b₁, hserve, rfl⟩ := h.serve
  rw [proceed_cons, hserve]
  rfl

theorem conclude_of_passed {s : Suspended} {next : Packet → Broker → Broker} {x : Standing × Broker}
    {q : Packet} (hx : x.1 = .passed q) : conclude s next x = next q x.2 := by
  obtain ⟨st, b⟩ := x
  obtain rfl : st = .passed q := hx
  rfl

/-- The moves of a visit lead to where the chain goes on with the next hook. -/
theorem Visited.play {ns : List Move} {v : Visit} (h : Visited c r rest p b ns v b') {q : Packet}
    (hq : v.result p = .ok q) : (proceed c (r :: rest) p b).play ns = proceed c rest q b' := by
  have hpassed {b₁ : Broker} {completion : Completion} {turn : Turn}
      (hends : b₁.Ended b.turns.length completion turn) (hv : v = .ended completion turn) :
      (b₁.standing c b.turns.length).1 = .passed q := by
    rw [hends.standing, standingOf_eq turn completion p, ← hv, hq]
    rfl
  cases h with
  | passedOver hoff =>
    cases hq
    rw [play_nil, proceed_cons, Broker.serve, if_neg (by simp [hoff])]
    rfl
  | broke => cases hq
  | @atOnce completion turn b₁ hon hcall hends =>
    rw [play_nil, proceed_cons, Broker.serve, if_pos hon, hcall]
    exact conclude_of_passed (hpassed hends rfl)
  | @awaited completion turn b₁ b₂ ms before after hsus hplay hsilent hmem hends =>
    have hends' : Ended { b₂ with suspended := before ++ after } b.turns.length completion turn := hends
    rw [hsus.proceed_eq, play_concat, hplay, move_wake hmem]
    exact conclude_of_passed (hpassed hends' rfl)

end

/-- The moves of a course lead to where the chain goes on with the hooks that are left. -/
theorem Course.play {c : Chain} {b₀ b : Broker} {ms : List Move} {vs : List (Ranked × Visit)}
    {rest : List Ranked} (h : Course c b₀ ms vs rest b) {p : Packet}
    (hp : foldVisits c.supplied vs = .ok p) : (b₀.begin c).play ms = proceed c rest p b := by
  induction h generalizing p with
  | began =>
    cases hp
    rfl
  | @next ms ns vs r rest q v b b' h hq hv ih =>
    rw [foldVisits_concat_of_ok hq, foldVisit_eq_ok] at hp
    rw [play_append, ih hq, hv.play hp]

theorem Silent.of_prefix {c : Chain} {b b₁ b' : Broker} (h : Silent c b b')
    (h₁ : b.journal <+: b₁.journal) (h₂ : b₁.journal <+: b'.journal) : Silent c b b₁ ∧ Silent c b₁ b' := by
  obtain ⟨new₁, hj₁⟩ := h₁
  obtain ⟨new₂, hj₂⟩ := h₂
  obtain ⟨new, hj, hnew⟩ := h
  have hboth : b.journal ++ new = b.journal ++ (new₁ ++ new₂) := by
    rw [← hj, ← hj₂, ← hj₁, List.append_assoc]
  rw [List.append_cancel_left hboth] at hnew
  refine ⟨⟨new₁, hj₁.symm, ?_⟩, ⟨new₂, hj₂.symm, ?_⟩⟩
  · exact fun e he => hnew e (List.mem_append_left _ he)
  · exact fun e he => hnew e (List.mem_append_right _ he)

theorem not_silent_of_told {c : Chain} {b b' : Broker} {e : Entry} {more : List Entry}
    (hj : b'.journal = b.journal ++ e :: more) (he : e.event.chain? = some c) : ¬Silent c b b' := by
  rintro ⟨new, hj', hnew⟩
  rw [hj] at hj'
  exact hnew e (List.append_cancel_left hj' ▸ List.mem_cons_self ..) he

/-- A chain that runs on is told of: it invokes a hook, or it is reported. -/
theorem not_silent_proceed (c : Chain) (hooks : List Ranked) (p : Packet) (b : Broker) :
    ¬Silent c b (proceed c hooks p b) := by
  -- Hooks that are passed over leave no trace; the first that is not does, or else the report.
  induction hooks generalizing p b with
  | nil => exact not_silent_of_told (report_journal b c _) rfl
  | cons r rest ih =>
    by_cases hon : b.roster.isEnabled r.hook.extension
    · have hwalk := proceed_walk c (r :: rest) p b
      rw [proceedStory, serveStory, if_pos hon] at hwalk
      obtain ⟨more, hj⟩ : (b.invited c r.hook p).journal <+: _ := hwalk.journal_after
      have hj' : (proceed c (r :: rest) p b).journal =
          b.journal ++ { time := b.now, event := .invoked c r.hook.number p } :: more := by
        rw [← hj]
        simp [invited]
      exact not_silent_of_told hj' rfl
    · rw [proceed_cons, Broker.serve, if_neg hon]
      exact ih p b

/-- A chain whose turn has ended is told of when it is looked at: it is reported, or runs on. -/
theorem not_silent_wake {b : Broker} {s : Suspended} (hst : (b.standing s.chain s.turn).1 ≠ .pending) :
    ¬Silent s.chain b (b.wake s) := by
  have hstanding := (Walk.single (.looked b s.chain s.turn)).journal
  simp only [Deed.before, Deed.after] at hstanding
  rw [wake_eq_conclude]
  cases hs : b.standing s.chain s.turn with
  | mk st b₁ =>
    rw [hs] at hst hstanding
    intro hsilent
    cases st with
    | pending => exact hst rfl
    | failed cause =>
      have hreports : b₁.journal <+: (b₁.reportFailure s.chain s.current s.extension cause).journal :=
        ⟨_, (report_journal b₁ s.chain _).symm⟩
      refine absurd (hsilent.of_prefix hstanding hreports).2 ?_
      exact not_silent_of_told (report_journal b₁ s.chain _) rfl
    | passed q =>
      have hproceeds := (proceed_walk s.chain s.rest q b₁).journal
      exact absurd (hsilent.of_prefix hstanding hproceeds).2 (not_silent_proceed _ _ q b₁)

/-- A suspended chain of which nothing is told stays suspended. -/
theorem Orderly.stays {b : Broker} (ho : Orderly b) {s : Suspended} (hs : s ∈ b.suspended) (m : Move)
    (hsilent : Silent s.chain b (b.move m)) : s ∈ (b.move m).suspended := by
  obtain ⟨b', heq, hi | hm⟩ := Broker.move_cases b m
  · rw [heq, hi.suspended]
    exact hs
  rw [heq] at hsilent ⊢
  cases hm with
  | submitted d hn => exact hs
  | began d hw hfirst hfree =>
    have hne : d ≠ s.chain := fun hd => hfree s hs (by rw [hd])
    exact ((ho.takes_waiting d hw hfirst hfree).leaves (begin_halts _ d fun _ => False) hne).2 s hs rfl
  | @woke before after s' hsplit =>
    have hwho : s = s' ∨ s ∈ before ++ after := by
      rw [hsplit] at hs
      simpa [or_left_comm] using hs
    rcases hwho with rfl | hother
    · -- The chain itself is looked at; if its turn has ended, something is told of it.
      by_cases hpending : ({ b with suspended := before ++ after }.standing s.chain s.turn).1 = .pending
      · rw [wake_eq_conclude]
        cases hst : { b with suspended := before ++ after }.standing s.chain s.turn with
        | mk st b₁ =>
          rw [hst] at hpending
          obtain rfl : st = .pending := hpending
          exact List.mem_append_right _ (List.mem_singleton_self _)
      · exact absurd hsilent (not_silent_wake hpending)
    · have ht := ho.takes_suspended s' hsplit
      have hne : s'.chain ≠ s.chain := fun hd => ht.free s hother (by rw [hd])
      exact (ht.leaves (wake_halts _ s') hne).2 s hs rfl

end BrokerHooks.Broker
