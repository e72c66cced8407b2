import BrokerHooks.Proofs.Chain.Stage

namespace BrokerHooks

theorem Turn.exists_poll (t : Turn) : ∃ d, ∀ now, d ≤ now → (t.poll now).1 ≠ none := by
  cases hd : t.deferral with
  | pending deadline fallback =>
    refine ⟨deadline, fun now hnow => ?_⟩
    simp [poll, hd, hnow]
  | _ => exact ⟨0, fun now _ => by simp [poll, hd]⟩

namespace Broker

/-- The turns of suspended chains exist. -/
def Grounded (b : Broker) : Prop := ∀ s ∈ b.suspended, s.turn < b.turns.length

theorem Halts.grounded {c : Chain} {touched : Nat → Prop} {b b' : Broker} (h : Halts c touched b b')
    (hg : Grounded b) (ht : ∀ t, touched t → t < b.turns.length) : Grounded b' := by
  cases h with
  | reported r h =>
    intro s hs
    rw [report_suspended, h.suspended] at hs
    have := hg s hs
    have := h.turns_length
    rw [report_turns]
    omega
  | suspended s h _ _ hlt =>
    intro s' hs'
    have hlen := h.turns_length
    rcases List.mem_append.1 hs' with hs' | hs'
    · rw [h.suspended] at hs'
      exact Nat.lt_of_lt_of_le (hg s' hs') hlen
    · obtain rfl := List.mem_singleton.1 hs'
      rcases hlt with htouched | hlt
      · exact Nat.lt_of_lt_of_le (ht _ htouched) hlen
      · exact hlt

theorem Grounded.move {b : Broker} (h : Grounded b) (m : Move) : Grounded (b.move m) := by
  obtain ⟨b', heq, hi | hm⟩ := Broker.move_cases b m <;> rw [heq]
  · intro s hs
    rw [hi.suspended] at hs
    exact Nat.lt_of_lt_of_le (h s hs) hi.turns_length
  · cases hm with
    | submitted c hn => exact h
    | began c hw hfirst hfree => exact (begin_halts _ c fun _ => False).grounded h nofun
    | @woke before after s hs =>
      refine (wake_halts _ s).grounded (fun s' hs' => h s' (mem_of_split hs hs')) ?_
      rintro t rfl
      exact h s (by simp [hs])

theorem Grounded.play {b : Broker} (h : Grounded b) (ms : List Move) : Grounded (b.play ms) :=
  play_preserves (P := Grounded) (fun _ m h => h.move m) h ms

/-- Where a chain that runs on is suspended next, the hooks that are left are the last of those it had. -/
theorem proceed_rest (c : Chain) (hooks : List Ranked) (p : Packet) (b : Broker) :
    ∀ s ∈ (proceed c hooks p b).suspended,
      s ∈ b.suspended ∨ s.chain = c ∧ ∃ r, r :: s.rest <:+ hooks := by
  -- Along the hooks the suspended chains stay the same; only where the chain is suspended itself one joins them.
  refine proceed_induction
    (motive := fun rest _ b' => rest <:+ hooks ∧ b'.suspended = b.suspended)
    (Q := fun b' => ∀ s ∈ b'.suspended, s ∈ b.suspended ∨ s.chain = c ∧ ∃ r, r :: s.rest <:+ hooks)
    ?finished ?pending ?failed ?passed ⟨List.suffix_rfl, rfl⟩
  case finished =>
    rintro p b' ⟨-, hb⟩ s hs
    rw [report_suspended, hb] at hs
    exact .inl hs
  case pending =>
    rintro r rest p b₁ b₂ ⟨hrest, hb⟩ hserve s hs
    have he : Effect (some c) (fun _ => False) b₁ b₂ := (Effect.of_serve hserve).1
    rcases List.mem_append.1 hs with hs | hs
    · rw [he.suspended, hb] at hs
      exact .inl hs
    · obtain rfl := List.mem_singleton.1 hs
      exact .inr ⟨rfl, r, hrest⟩
  case failed =>
    rintro r rest p b₁ cause b₂ ⟨-, hb⟩ hserve s hs
    have he : Effect (some c) (fun _ => False) b₁ b₂ := (Effect.of_serve hserve).1
    rw [reportFailure, report_suspended, he.suspended, hb] at hs
    exact .inl hs
  case passed =>
    rintro r rest p b₁ q b₂ ⟨hrest, hb⟩ hserve
    have he : Effect (some c) (fun _ => False) b₁ b₂ := (Effect.of_serve hserve).1
    exact ⟨(List.suffix_cons r rest).trans hrest, he.suspended.trans hb⟩

theorem proceed_suspended (c : Chain) (hooks : List Ranked) (p : Packet) (b : Broker) :
    ∀ s ∈ (proceed c hooks p b).suspended,
      s ∈ b.suspended ∨ s.chain = c ∧ s.rest.length < hooks.length := by
  intro s hs
  apply (proceed_rest c hooks p b s hs).imp_right
  rintro ⟨hchain, r, hrest⟩
  exact ⟨hchain, hrest.length_le⟩

theorem wake_suspended {b : Broker} {s : Suspended} {t : Turn} (ht : b.turn? s.turn = some t)
    (hends : (t.poll b.now).1 ≠ none) :
    ∀ s' ∈ (b.wake s).suspended,
      s' ∈ b.suspended ∨ s'.chain = s.chain ∧ s'.rest.length < s.rest.length := by
  have he : Effect (some s.chain) (· = s.turn) b (b.standing s.chain s.turn).2 :=
    Effect.standing (by rfl) b
  -- The turn has ended, so the chain does not go back to where it was.
  have hst : (b.standing s.chain s.turn).1 ≠ .pending := by
    rcases standing_cases b s.chain s.turn with ⟨-, -, hnot⟩ | ⟨completion, turn, -, hst⟩
    · cases hpoll : t.poll b.now with
      | mk completion turn =>
        cases completion with
        | none => exact absurd (by rw [hpoll]) hends
        | some completion => exact absurd ⟨t, ht, hpoll⟩ (hnot completion turn)
    · rw [hst]
      exact standingOf_ne_pending turn completion
  rw [wake_eq_conclude]
  cases hs : b.standing s.chain s.turn with
  | mk st b' =>
    rw [hs] at hst he
    intro s' hs'
    cases st with
    | pending => exact absurd rfl hst
    | failed cause =>
      have hs' : s' ∈ b'.suspended := by simpa [conclude, reportFailure] using hs'
      exact .inl (he.suspended ▸ hs')
    | passed q =>
      have := proceed_suspended s.chain s.rest q b' s' hs'
      rwa [he.suspended] at this

/-- The moves that end the turn of a suspended chain. -/
theorem runs_on {b : Broker} (ho : Orderly b) (hg : Grounded b) {s : Suspended} (hs : s ∈ b.suspended) :
    ∃ ms, (b.play ms).waiting = b.waiting ∧ ∀ s' ∈ (b.play ms).suspended,
      s' ∈ b.suspended ∧ s'.chain.lane ≠ s.chain.lane ∨
        s'.chain = s.chain ∧ s'.rest.length < s.rest.length := by
  obtain ⟨t, ht⟩ : ∃ t, b.turn? s.turn = some t := ⟨_, List.getElem?_eq_getElem (hg s hs)⟩
  obtain ⟨d, hd⟩ := t.exists_poll
  obtain ⟨before, after, hsplit⟩ := List.append_of_mem hs
  -- By `d` the turn has ended, and nothing can have come in between.
  let b₁ : Broker := { b with now := max b.now d, suspended := before ++ after }
  have hmove : b.play [.elapse d, .wake before.length] = b₁.wake s := by
    simp [Broker.move, hsplit, b₁, List.eraseIdx_append_of_length_le]
  refine ⟨[.elapse d, .wake before.length], ?_, ?_⟩ <;> rw [hmove]
  · exact (wake_halts b₁ s).told.2.1
  · intro s' hs'
    have hends : (t.poll b₁.now).1 ≠ none := hd _ (Nat.le_max_right _ _)
    refine (wake_suspended (b := b₁) ht hends s' hs').imp_left fun hs' => ⟨?_, ?_⟩
    · exact mem_of_split hsplit hs'
    · exact (ho.takes_suspended s hsplit).free s' hs'

/-- The moves that free the lane of a suspended chain. -/
theorem clears {b : Broker} (ho : Orderly b) (hg : Grounded b) {s : Suspended} (hs : s ∈ b.suspended) :
    ∃ ms, (b.play ms).waiting = b.waiting ∧ ∀ s' ∈ (b.play ms).suspended,
      s' ∈ b.suspended ∧ s'.chain.lane ≠ s.chain.lane := by
  -- Each time its turn ends the chain is gone or has fewer hooks left.
  induction hn : s.rest.length using Nat.strongRecOn generalizing b s with
  | ind n ih =>
    obtain ⟨ms, hwaiting, hsuspended⟩ := runs_on ho hg hs
    by_cases hnext : ∃ s' ∈ (b.play ms).suspended, s'.chain = s.chain ∧ s'.rest.length < s.rest.length
    · obtain ⟨s', hs', hchain, hlt⟩ := hnext
      obtain ⟨ms', hwaiting', hsuspended'⟩ := ih _ (hn ▸ hlt) (ho.play ms) (hg.play ms) hs' rfl
      refine ⟨ms ++ ms', by rw [play_append, hwaiting', hwaiting], fun x hx => ?_⟩
      rw [play_append] at hx
      obtain ⟨hx, hlane⟩ := hsuspended' x hx
      rw [hchain] at hlane
      rcases hsuspended x hx with hx | ⟨hxchain, -⟩
      · exact hx
      · exact absurd (by rw [hxchain]) hlane
    · refine ⟨ms, hwaiting, fun x hx => ?_⟩
      exact (hsuspended x hx).resolve_right fun h => hnext ⟨x, hx, h⟩

theorem frees {b : Broker} (ho : Orderly b) (hg : Grounded b) (lane : Nat × Point) :
    ∃ ms, (b.play ms).waiting = b.waiting ∧ (b.play ms).isFree lane := by
  by_cases hfree : b.isFree lane
  · exact ⟨[], rfl, hfree⟩
  · have hsome : ∃ s ∈ b.suspended, s.chain.lane = lane := by
      simpa [isFree_iff] using hfree
    obtain ⟨s, hs, rfl⟩ := hsome
    obtain ⟨ms, hwaiting, hsuspended⟩ := clears ho hg hs
    exact ⟨ms, hwaiting, isFree_iff.2 fun s' hs' => (hsuspended s' hs').2⟩

/-- A chain that was handed over can be brought to its report. -/
theorem Holds.finishes {b : Broker} {c : Chain} (hc : b.Holds c) (ho : Orderly b) (hg : Grounded b) :
    ∃ ms, Reported c (b.play ms).journal := by
  induction hn : b.waiting.length using Nat.strongRecOn generalizing b with
  | ind n ih =>
    obtain ⟨ms, hwaiting, hfree⟩ := frees ho hg c.lane
    rcases hc.play ho ms with hc' | ⟨s, hs, rfl⟩ | hc'
    · -- The lane is free, so the first that waits in it begins, and one chain fewer waits.
      obtain ⟨d, rest, htake⟩ : ∃ d rest,
          takeFirst? (fun d => decide (d.lane = c.lane)) (b.play ms).waiting = some (d, rest) := by
        cases htake : takeFirst? (fun d => decide (d.lane = c.lane)) (b.play ms).waiting with
        | none => exact absurd (by simp) (takeFirst?_eq_none.1 htake c hc')
        | some found => exact ⟨found.1, found.2, rfl⟩
      obtain ⟨before, after, hsplit, rfl, -, -⟩ := takeFirst?_eq_some.1 htake
      have hmove : ((b.play ms).move (.begin c.lane)).waiting = before ++ after := by
        simp only [Broker.move, hfree, htake, if_true]
        exact (begin_halts { b.play ms with waiting := before ++ after } d fun _ => False).told.2.1
      have hlt : ((b.play ms).move (.begin c.lane)).waiting.length < n := by
        rw [hmove, ← hn, ← hwaiting, hsplit]
        simp
      obtain ⟨ms', hr⟩ := ih _ hlt ((hc.play ho ms).move (ho.play ms) _) ((ho.play ms).move _)
        ((hg.play ms).move _) rfl
      exact ⟨ms ++ .begin c.lane :: ms', by rwa [play_append]⟩
    · exact absurd rfl (isFree_iff.1 hfree s hs)
    · exact ⟨ms, hc'⟩

end Broker
end BrokerHooks
