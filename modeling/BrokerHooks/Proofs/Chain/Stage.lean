import BrokerHooks.Proofs.Chain.Course
import BrokerHooks.Proofs.Chain.Lane

namespace BrokerHooks.Broker

/-- Where a chain stands after the moves that were made since it was taken out of its lane: it is
suspended in the turn of a hook, or it has run its course and its only report is that of the fold. -/
inductive Stage (c : Chain) (b₀ : Broker) : List Move → Broker → Prop where
  | suspended {ms₀ ms ns : List Move} {vs : List (Ranked × Visit)} {r : Ranked} {rest : List Ranked}
      {p : Packet} {b b₁ b₂ : Broker} (h : Course c b₀ ms vs (r :: rest) b)
      (hp : foldVisits c.supplied vs = .ok p) (hsus : Suspends c r rest p b b₁)
      (hplay : b₁.play ns = b₂) (hsilent : Silent c b₁ b₂)
      (hmem : b.suspension c r rest p ∈ b₂.suspended) (hms : ms₀ = ms ++ ns) : Stage c b₀ ms₀ b₂
  | reported {ms₀ ms ns : List Move} {vs : List (Ranked × Visit)} {rest : List Ranked} {b b' : Broker}
      (h : Course c b₀ ms vs rest b)
      (hend : rest = [] ∨ ∃ f, foldVisits c.supplied vs = .error f)
      (hplay : (b.report c (Report.ofFold c.point (foldVisits c.supplied vs))).play ns = b')
      (hsilent : Silent c (b.report c (Report.ofFold c.point (foldVisits c.supplied vs))) b')
      (hms : ms₀ = ms ++ ns) : Stage c b₀ ms₀ b'

def Standing.ofResult : Except Cause Packet → Standing
  | .ok p => .passed p
  | .error cause => .failed cause

theorem standingOf_eq (turn : Turn) (completion : Completion) (p : Packet) :
    standingOf turn completion = .ofResult ((Visit.ended completion turn).result p) := by
  cases hprevented : turn.prevented <;> cases completion with
  | immediate | resumed => simp [standingOf, Visit.result, Standing.ofResult, hprevented]
  | timedOut fallback =>
    cases fallback <;> simp [standingOf, Visit.result, Standing.ofResult, hprevented]

theorem standingOf_ne_pending (turn : Turn) (completion : Completion) :
    standingOf turn completion ≠ .pending := by
  unfold standingOf
  split
  · simp
  · split <;> simp

/-- A turn is either pending, and then nothing is recorded, or has ended. -/
theorem standing_cases (b : Broker) (c : Chain) (t : Nat) :
    ((b.standing c t).1 = .pending ∧ (b.standing c t).2.journal = b.journal ∧
        ∀ completion turn, ¬b.Ended t completion turn) ∨
      ∃ completion turn, b.Ended t completion turn ∧
        (b.standing c t).1 = standingOf turn completion := by
  unfold standing Ended
  split
  · rename_i ht
    exact .inl ⟨rfl, rfl, by simp [ht]⟩
  · rename_i t₀ ht
    cases hpoll : t₀.poll b.now with
    | mk completion turn =>
      cases completion with
      | none => exact .inl ⟨rfl, rfl, by simp [ht, hpoll]⟩
      | some completion => exact .inr ⟨completion, turn, ⟨t₀, ht, hpoll⟩, rfl⟩

theorem serve_cases (b : Broker) (c : Chain) (r : Ranked) (rest : List Ranked) (p : Packet) :
    ((b.serve c r p).1 = .pending ∧
      Suspends c r rest p b
        { (b.serve c r p).2 with
          suspended := (b.serve c r p).2.suspended ++ [b.suspension c r rest p] }) ∨
      ∃ v, Visited c r rest p b [] v (b.serve c r p).2 ∧
        (b.serve c r p).1 = .ofResult (v.result p) := by
  unfold serve
  split
  · rename_i hon
    cases hcall : b.callback c r.hook p with
    | mk cause b' =>
      cases cause with
      | some cause => exact .inr ⟨_, .broke hon hcall (callback_cause hcall), rfl⟩
      | none =>
        rcases standing_cases b' c b.turns.length with ⟨hpending, -, -⟩ | ⟨completion, turn, hends, hst⟩
        · refine .inl ⟨hpending, hon, b', _, hcall, ?_, rfl⟩
          exact Prod.ext hpending rfl
        · refine .inr ⟨_, .atOnce hon hcall hends, ?_⟩
          rw [← standingOf_eq]
          exact hst
  · rename_i hoff
    exact .inr ⟨.passedOver, .passedOver (by simpa using hoff), rfl⟩

section

variable {c : Chain} {b₀ b : Broker} {ms : List Move} {vs : List (Ranked × Visit)}
  {rest : List Ranked} {p : Packet}

/-- A visit leads to the report of the fold if it fails, and to the hooks that are left otherwise. -/
theorem Course.stage_visited {r : Ranked} {ns : List Move} {v : Visit} {b' : Broker}
    (h : Course c b₀ ms vs (r :: rest) b) (hp : foldVisits c.supplied vs = .ok p)
    (hv : Visited c r rest p b ns v b')
    (hnext : ∀ q, foldVisits c.supplied (vs ++ [(r, v)]) = .ok q →
      Stage c b₀ (ms ++ ns) (proceed c rest q b')) :
    Stage c b₀ (ms ++ ns)
      (conclude (b.suspension c r rest p) (proceed c rest) (.ofResult (v.result p), b')) := by
  have hfold := foldVisits_concat_of_ok hp (r, v)
  cases hr : v.result p with
  | ok q => exact hnext q (hfold.trans (foldVisit_eq_ok.2 hr))
  | error cause =>
    have herror : foldVisits c.supplied (vs ++ [(r, v)]) =
        .error { extension := r.hook.extension, cause, supplied := c.supplied, lastGood := p } := by
      rw [hfold, foldVisit_eq_error]
      exact ⟨hr, rfl, rfl, rfl⟩
    have hreport : b'.reportFailure c p r.hook.extension cause =
        b'.report c (Report.ofFold c.point (foldVisits c.supplied (vs ++ [(r, v)]))) := by
      rw [herror]
      rfl
    have hstage : Stage c b₀ (ms ++ ns) (b'.reportFailure c p r.hook.extension cause) := by
      rw [hreport]
      exact .reported (h.next hp hv) (.inr ⟨_, herror⟩) rfl (Silent.refl ..) (List.append_nil _).symm
    exact hstage

/-- A chain that runs on halts at a stage of its course. -/
theorem Course.stage_proceed (h : Course c b₀ ms vs rest b) (hp : foldVisits c.supplied vs = .ok p) :
    Stage c b₀ ms (proceed c rest p b) := by
  -- The packet for the next hook is always the one to which the visits so far fold.
  induction rest generalizing vs p b with
  | nil =>
    have hreport : proceed c [] p b =
        b.report c (Report.ofFold c.point (foldVisits c.supplied vs)) := by
      rw [hp]
      rfl
    rw [hreport]
    exact .reported h (.inl rfl) rfl (Silent.refl ..) (List.append_nil _).symm
  | cons r rest ih =>
    rw [proceed_cons]
    cases hs : b.serve c r p with
    | mk st b' =>
      have hcases := serve_cases b c r rest p
      rw [hs] at hcases
      rcases hcases with ⟨rfl, hsus⟩ | ⟨v, hv, rfl⟩
      · have hmem := List.mem_append_right b'.suspended
          (List.mem_singleton_self (b.suspension c r rest p))
        exact .suspended h hp hsus rfl (Silent.refl ..) hmem (List.append_nil _).symm
      · have hnext : Course c b₀ ms (vs ++ [(r, v)]) rest b' := by
          have := h.next hp hv
          rwa [List.append_nil] at this
        have hstage := h.stage_visited hp hv fun q hq => by
          rw [List.append_nil]
          exact ih hnext hq
        rwa [List.append_nil] at hstage

end

theorem stage_begin (b : Broker) (c : Chain) : Stage c b [] (b.begin c) :=
  Course.began.stage_proceed rfl

theorem Halts.silent {c d : Chain} {touched : Nat → Prop} {b b' : Broker} (h : Halts d touched b b')
    (hne : d ≠ c) : Silent c b b' := by
  obtain ⟨-, -, new, hj, hnew, -⟩ := h.told
  refine ⟨new, hj, fun e he hc => ?_⟩
  rcases hnew e he with hnone | hd
  · simp [hnone] at hc
  · exact hne (Option.some.inj (hd.symm.trans hc))

theorem Idles.silent {b b' : Broker} (h : Idles b b') (c : Chain) : Silent c b b' := by
  obtain ⟨new, hj, hnew⟩ := h.journal
  exact ⟨new, hj, fun e he hc => by simp [hnew e he] at hc⟩

/-- While another chain runs, nothing is told of this one, and if it is suspended it stays so. -/
theorem Takes.leaves {d : Chain} {touched : Nat → Prop} {b b₁ b' : Broker} (ht : Takes d b b₁)
    (hh : Halts d touched b₁ b') {c : Chain} (hne : d ≠ c) :
    Silent c b b' ∧ ∀ s ∈ b.suspended, s.chain = c → s ∈ b'.suspended := by
  constructor
  · obtain ⟨new, hj, hnew⟩ := hh.silent hne
    exact ⟨new, by rw [hj, ht.journal], hnew⟩
  · intro s hs hc
    obtain ⟨-, -, new, -, -, hend⟩ := hh.told
    rcases ht.suspended s hs with hd | hs
    · exact absurd (hd.symm.trans hc) hne
    · rcases hend with ⟨hsus, -⟩ | ⟨s', -, hsus, -⟩ <;> simp [hsus, hs]

theorem move_wake {c : Chain} {b b' : Broker} {r : Ranked} {rest : List Ranked} {p : Packet}
    {before after : List Suspended} (hmem : b'.suspended = before ++ b.suspension c r rest p :: after) :
    b'.move (.wake before.length) =
      conclude (b.suspension c r rest p) (proceed c rest)
        ({ b' with suspended := before ++ after }.standing c b.turns.length) := by
  have hwake : b'.move (.wake before.length) =
      { b' with suspended := before ++ after }.wake (b.suspension c r rest p) := by
    simp [Broker.move, hmem, List.eraseIdx_append_of_length_le]
  rw [hwake, wake_eq_conclude]
  rfl

/-- A suspended chain is looked at again: its turn is still pending, or it runs on. -/
theorem stage_wake {c : Chain} {b₀ b b₁ b₂ : Broker} {ms ns : List Move} {vs : List (Ranked × Visit)}
    {r : Ranked} {rest : List Ranked} {p : Packet} {before after : List Suspended}
    (h : Course c b₀ ms vs (r :: rest) b) (hp : foldVisits c.supplied vs = .ok p)
    (hsus : Suspends c r rest p b b₁) (hplay : b₁.play ns = b₂) (hsilent : Silent c b₁ b₂)
    (hmem : b₂.suspended = before ++ b.suspension c r rest p :: after) :
    Stage c b₀ (ms ++ (ns ++ [.wake before.length])) (b₂.move (.wake before.length)) := by
  have hmove := move_wake hmem
  have hcases := standing_cases { b₂ with suspended := before ++ after } c b.turns.length
  have hv {completion : Completion} {turn : Turn} (hends : b₂.Ended b.turns.length completion turn) :=
    Visited.awaited hsus hplay hsilent hmem hends
  cases hs : { b₂ with suspended := before ++ after }.standing c b.turns.length with
  | mk st b' =>
    rw [hs] at hcases hv hmove
    rcases hcases with ⟨rfl, hj, -⟩ | ⟨completion, turn, hends, rfl⟩
    · -- Still pending: the look is one more move of the wait.
      have hplay' := play_concat b₁ ns (.wake before.length)
      rw [hplay] at hplay'
      have hpending : Silent c b₂ (b₂.move (.wake before.length)) := by
        have hj : b'.journal = b₂.journal := hj
        rw [hmove]
        exact ⟨[], hj.trans (List.append_nil _).symm, by simp⟩
      have hmem' : b.suspension c r rest p ∈ (b₂.move (.wake before.length)).suspended := by
        rw [hmove]
        exact List.mem_append_right _ (List.mem_singleton_self _)
      exact .suspended h hp hsus hplay' (hsilent.trans hpending) hmem' rfl
    · rw [hmove, standingOf_eq turn completion p]
      refine h.stage_visited hp (hv hends) fun q hq => ?_
      exact (h.next hp (hv hends)).stage_proceed hq

theorem Stage.move {c : Chain} {b₀ b : Broker} {ms : List Move} (h : Stage c b₀ ms b) (ho : Orderly b)
    (m : Move) : Stage c b₀ (ms ++ [m]) (b.move m) := by
  cases h with
  | @suspended ms ns vs r rest p b₁ b₂ _ h hp hsus hplay hsilent hmem hms =>
    have hplay' : b₂.play (ns ++ [m]) = b.move m := by rw [play_concat, hplay]
    have stays (hquiet : Silent c b (b.move m))
        (hmem' : b₁.suspension c r rest p ∈ (b.move m).suspended) : Stage c b₀ (ms ++ (ns ++ [m])) (b.move m) :=
      .suspended h hp hsus hplay' (hsilent.trans hquiet) hmem' rfl
    rw [hms, List.append_assoc]
    obtain ⟨b', heq, hi | hm⟩ := Broker.move_cases b m
    · exact stays (heq ▸ hi.silent c) (by rwa [heq, hi.suspended])
    -- Only a look at this very chain can take it further.
    · cases hm with
      | submitted d hn =>
        rw [heq] at stays ⊢
        exact stays ⟨[], by simp⟩ hmem
      | began d hw hfirst hfree =>
        have hne : d ≠ c := fun hd => hfree _ hmem (by rw [hd]; rfl)
        have hleaves := (ho.takes_waiting d hw hfirst hfree).leaves
          (begin_halts _ d fun _ => False) hne
        exact stays (heq ▸ hleaves.1) (heq ▸ hleaves.2 _ hmem rfl)
      | @woke before after s hs =>
        have hwho : b₁.suspension c r rest p = s ∨ b₁.suspension c r rest p ∈ before ++ after := by
          rw [hs] at hmem
          simpa [or_left_comm] using hmem
        rcases hwho with rfl | hother
        · exact stage_wake h hp hsus hplay hsilent hs
        · have ht := ho.takes_suspended s hs
          have hne : s.chain ≠ c := fun hd => ht.free _ hother (by rw [hd]; rfl)
          have hleaves := ht.leaves (wake_halts _ s) hne
          exact stays (heq ▸ hleaves.1) (heq ▸ hleaves.2 _ hmem rfl)
  | @reported ms ns vs rest b₁ _ h hend hplay hsilent hms =>
    have hreported : Reported c b.journal := by
      obtain ⟨new, hj, -⟩ := hsilent
      rw [hj, report_journal]
      exact ⟨_, List.mem_append_left _ (List.mem_append_right _ (List.mem_singleton_self _)), _, rfl⟩
    -- What is reported is in no row any more, so whichever chain runs is another.
    have hquiet : Silent c b (b.move m) := by
      obtain ⟨b', heq, hi | ⟨d, hn, rfl⟩ | ⟨d, touched, b₂, ht, hh⟩⟩ := ho.move_cases m <;> rw [heq]
      · exact hi.silent c
      · exact ⟨[], by simp⟩
      · have hne : d ≠ c := fun hd => ht.live (by rw [hd, ht.journal]; exact hreported)
        exact (ht.leaves hh hne).1
    rw [hms, List.append_assoc]
    exact .reported h hend (by rw [play_concat, hplay]) (hsilent.trans hquiet) rfl

theorem Stage.play {c : Chain} {b₀ b : Broker} {ms : List Move} (h : Stage c b₀ ms b) (ho : Orderly b)
    (ns : List Move) : Stage c b₀ (ms ++ ns) (b.play ns) := by
  induction ns generalizing ms b with
  | nil => simpa using h
  | cons n ns ih => simpa using ih (h.move ho n) (ho.move n)

/-- The chain has waited longest in its lane, which is free; `b'` is the broker without it. -/
structure Heads (c : Chain) (b b' : Broker) : Prop where
  free : ∀ s ∈ b.suspended, s.chain.lane ≠ c.lane
  head : ∃ before after, b.waiting = before ++ c :: after ∧ (∀ x ∈ before, x.lane ≠ c.lane) ∧
    b' = { b with waiting := before ++ after }

theorem Heads.move {c : Chain} {b b' : Broker} (h : Heads c b b') :
    b.move (.begin c.lane) = b'.begin c := by
  obtain ⟨before, after, hw, hfirst, rfl⟩ := h.head
  have htake : takeFirst? (fun d => decide (d.lane = c.lane)) b.waiting = some (c, before ++ after) :=
    takeFirst?_eq_some.2 ⟨before, after, hw, rfl, by simp, by simpa using hfirst⟩
  simp [Broker.move, isFree_iff.2 h.free, htake]

theorem waits_or_begins {b : Broker} (ho : Orderly b) {c : Chain} (hc : c ∈ b.waiting) (m : Move) :
    c ∈ (b.move m).waiting ∨
      m = .begin c.lane ∧ ∃ b₀, Heads c b b₀ ∧ Stage c b₀ [] (b.move m) := by
  obtain ⟨b', heq, hi | hm⟩ := Broker.move_cases b m <;> rw [heq]
  · exact .inl (hi.waiting ▸ hc)
  · cases hm with
    | submitted d hn => exact .inl (List.mem_append_left _ hc)
    | @began before after d hw hfirst hfree =>
      have ht := ho.takes_waiting d hw hfirst hfree
      rcases ht.waiting c hc with rfl | hc
      · exact .inr ⟨rfl, _, ⟨hfree, before, after, hw, hfirst, rfl⟩, stage_begin _ _⟩
      · obtain ⟨-, hwaiting, -⟩ := (begin_halts { b with waiting := before ++ after } d fun _ => False).told
        exact .inl (by rw [hwaiting]; exact hc)
    | @woke before after s hs =>
      obtain ⟨-, hwaiting, -⟩ := (wake_halts { b with suspended := before ++ after } s).told
      exact .inl (by rw [hwaiting]; exact hc)

theorem waits_or_began {b : Broker} (ho : Orderly b) {c : Chain} (hc : c ∈ b.waiting) (ms : List Move) :
    c ∈ (b.play ms).waiting ∨
      ∃ ms₁ ms₂ b₀, ms = ms₁ ++ .begin c.lane :: ms₂ ∧ Heads c (b.play ms₁) b₀ ∧
        Stage c b₀ ms₂ (b.play ms) := by
  induction ms generalizing b with
  | nil => exact .inl hc
  | cons m ms ih =>
    rcases waits_or_begins ho hc m with hc | ⟨rfl, b₀, hheads, hstage⟩
    · apply (ih (ho.move m) hc).imp_right
      rintro ⟨ms₁, ms₂, b₀, rfl, hheads, hstage⟩
      exact ⟨m :: ms₁, ms₂, b₀, rfl, hheads, hstage⟩
    · exact .inr ⟨[], ms, b₀, rfl, hheads, hstage.play (ho.move _) ms⟩

end BrokerHooks.Broker
