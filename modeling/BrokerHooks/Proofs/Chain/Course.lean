import BrokerHooks.Proofs.Chain.Fold
import BrokerHooks.Proofs.Run.Serve

namespace BrokerHooks

namespace Broker

/-- The turn has ended by now, in the way given, and `turn` is what was made of it. -/
def Ended (b : Broker) (t : Nat) (completion : Completion) (turn : Turn) : Prop :=
  ∃ t₀, b.turn? t = some t₀ ∧ t₀.poll b.now = (some completion, turn)

/-- Between the two brokers nothing was told of the chain. -/
def Silent (c : Chain) (b b' : Broker) : Prop :=
  ∃ new, b'.journal = b.journal ++ new ∧ ∀ e ∈ new, e.event.chain? ≠ some c

/-- The hook has returned, its turn is pending, and the chain is suspended: `b'` is what this leaves. -/
structure Suspends (c : Chain) (r : Ranked) (rest : List Ranked) (p : Packet) (b b' : Broker) : Prop where
  enabled : b.roster.isEnabled r.hook.extension
  suspends : ∃ b₁ b₂, b.callback c r.hook p = (none, b₁) ∧
    b₁.standing c b.turns.length = (.pending, b₂) ∧
    b' = { b₂ with suspended := b₂.suspended ++ [b.suspension c r rest p] }

/-- What becomes of the hook whose turn comes in `b` with the packet `p`. The moves are those that are
made until the turn is seen to have ended, in `b'`. -/
inductive Visited (c : Chain) (r : Ranked) (rest : List Ranked) (p : Packet) (b : Broker) :
    List Move → Visit → Broker → Prop where
  | passedOver (hoff : b.roster.isEnabled r.hook.extension = false) :
      Visited c r rest p b [] .passedOver b
  | broke {cause : Cause} {b' : Broker} (hon : b.roster.isEnabled r.hook.extension)
      (hcall : b.callback c r.hook p = (some cause, b')) (hcause : cause.isExtensionError) :
      Visited c r rest p b [] (.broke cause) (b'.meter (·.extensionError c.point))
  | atOnce {completion : Completion} {turn : Turn} {b' : Broker}
      (hon : b.roster.isEnabled r.hook.extension)
      (hcall : b.callback c r.hook p = (none, b')) (hends : b'.Ended b.turns.length completion turn) :
      Visited c r rest p b [] (.ended completion turn) (b'.standing c b.turns.length).2
  | awaited {completion : Completion} {turn : Turn} {b₁ b₂ : Broker} {ms : List Move}
      {before after : List Suspended} (hsus : Suspends c r rest p b b₁) (hplay : b₁.play ms = b₂)
      (hsilent : Silent c b₁ b₂)
      (hmem : b₂.suspended = before ++ b.suspension c r rest p :: after)
      (hends : b₂.Ended b.turns.length completion turn) :
      Visited c r rest p b (ms ++ [.wake before.length]) (.ended completion turn)
        ({ b₂ with suspended := before ++ after }.standing c b.turns.length).2

/-- How far a chain has come since it was taken out of its lane in `b₀`: the moves that were made since,
the visits so far, the hooks that are left, and the broker in which the next of them has its turn.
Each hook is handed the packet to which the visits before it fold. -/
inductive Course (c : Chain) (b₀ : Broker) :
    List Move → List (Ranked × Visit) → List Ranked → Broker → Prop where
  | began : Course c b₀ [] [] (b₀.roster.ordered c.connection c.point) (b₀.record (.began c))
  | next {ms ns : List Move} {vs : List (Ranked × Visit)} {r : Ranked} {rest : List Ranked}
      {p : Packet} {v : Visit} {b b' : Broker} (h : Course c b₀ ms vs (r :: rest) b)
      (hp : foldVisits c.supplied vs = .ok p) (hv : Visited c r rest p b ns v b') :
      Course c b₀ (ms ++ ns) (vs ++ [(r, v)]) rest b'

/-- From `b` to `b'` the journal tells of these invocations of the chain, and of no report. -/
def Tells (c : Chain) (is : List (Nat × Packet)) (b b' : Broker) : Prop :=
  ∃ new, b'.journal = b.journal ++ new ∧ invocationsOf c new = is ∧ reportsOf c new = []

theorem Tells.trans {c : Chain} {is js : List (Nat × Packet)} {b b' b'' : Broker}
    (h : Tells c is b b') (h' : Tells c js b' b'') : Tells c (is ++ js) b b'' := by
  obtain ⟨new, hj, hi, hr⟩ := h
  obtain ⟨new', hj', hi', hr'⟩ := h'
  refine ⟨new ++ new', by rw [hj', hj, List.append_assoc], ?_, ?_⟩
  · rw [invocationsOf_append, hi, hi']
  · rw [reportsOf_append, hr, hr']
    rfl

theorem Silent.tells {c : Chain} {b b' : Broker} (h : Silent c b b') : Tells c [] b b' := by
  obtain ⟨new, hj, hnew⟩ := h
  have htold := told_eq_nil hnew
  exact ⟨new, hj, by simp [invocationsOf, htold], by simp [reportsOf, htold]⟩

theorem Silent.trans {c : Chain} {b b' b'' : Broker} (h : Silent c b b') (h' : Silent c b' b'') :
    Silent c b b'' := by
  obtain ⟨new, hj, hnew⟩ := h
  obtain ⟨new', hj', hnew'⟩ := h'
  refine ⟨new ++ new', by rw [hj', hj, List.append_assoc], fun e he => ?_⟩
  rcases List.mem_append.1 he with he | he
  · exact hnew e he
  · exact hnew' e he

theorem Silent.refl (c : Chain) (b : Broker) : Silent c b b := ⟨[], by simp⟩

theorem Effect.silent {who : Option Chain} {touched : Nat → Prop} {b b' : Broker}
    (h : Effect who touched b b') {c : Chain} (hwho : who ≠ some c) : Silent c b b' := by
  obtain ⟨new, hj, hnew⟩ := h.journal
  refine ⟨new, hj, fun e he hc => ?_⟩
  rcases (hnew e he).2 with hnone | hsome
  · simp [hnone] at hc
  · exact hwho (hsome.symm.trans hc)

theorem callback_tells (b : Broker) (c : Chain) (h : Hook) (p : Packet) :
    Tells c [(h.number, p)] b (b.callback c h p).2 := by
  have hrun : Effect none (· = b.turns.length) (b.invited c h p) (b.callback c h p).2 :=
    Effect.run (by rfl) _ _
  have hsilent : Silent c (b.invited c h p) (b.callback c h p).2 := hrun.silent nofun
  have hinvited : Tells c [(h.number, p)] b (b.invited c h p) :=
    ⟨[{ time := b.now, event := .invoked c h.number p }], rfl,
      by simp [invocationsOf, Event.invocation?], by simp [reportsOf, Event.report?]⟩
  exact hinvited.trans hsilent.tells

theorem standing_tells (b : Broker) (c : Chain) (turn : Nat) :
    Tells c [] b (b.standing c turn).2 := by
  have hnil (t : Turn) : Tells c [] b (b.setTurn turn t) := ⟨[], by simp [setTurn], rfl, rfl⟩
  unfold standing
  split
  · exact ⟨[], by simp, rfl, rfl⟩
  · rename_i t _
    cases t.poll b.now with
    | mk completion t' =>
      cases completion with
      | none => exact hnil t'
      | some completion =>
        cases completion with
        | immediate | resumed => exact hnil t'
        | timedOut fallback =>
          refine (hnil t').trans ⟨[_], by simp; rfl, ?_, ?_⟩
          · simp [invocationsOf, Event.invocation?]
          · simp [reportsOf, Event.report?]

theorem Suspends.tells {c : Chain} {r : Ranked} {rest : List Ranked} {p : Packet} {b b' : Broker}
    (h : Suspends c r rest p b b') : Tells c [(r.hook.number, p)] b b' := by
  obtain ⟨b₁, b₂, hcall, hstanding, rfl⟩ := h.suspends
  have h₁ := callback_tells b c r.hook p
  have h₂ := standing_tells b₁ c b.turns.length
  rw [hcall] at h₁
  rw [hstanding] at h₂
  exact h₁.trans h₂

theorem Visited.tells {c : Chain} {r : Ranked} {rest : List Ranked} {p : Packet} {b b' : Broker}
    {ns : List Move} {v : Visit} (h : Visited c r rest p b ns v b') :
    Tells c (if v.isInvoked then [(r.hook.number, p)] else []) b b' := by
  cases h with
  | passedOver hoff => exact (Silent.refl c b).tells
  | broke hon hcall _ =>
    have h := callback_tells b c r.hook p
    rw [hcall] at h
    exact h.trans ⟨[], by simp, rfl, rfl⟩
  | atOnce hon hcall hends =>
    have h := callback_tells b c r.hook p
    rw [hcall] at h
    exact h.trans (standing_tells ..)
  | awaited hsus hplay hsilent hmem hends =>
    exact (hsus.tells.trans hsilent.tells).trans (standing_tells ..)

/-- The journal tells of exactly the invocations that the fold makes, in this order. -/
theorem Course.tells {c : Chain} {b₀ b : Broker} {ms : List Move} {vs : List (Ranked × Visit)}
    {rest : List Ranked} (h : Course c b₀ ms vs rest b) : Tells c (handed c.supplied vs) b₀ b := by
  induction h with
  | began =>
    exact ⟨[_], rfl, by simp [invocationsOf, Event.invocation?, handed],
      by simp [reportsOf, Event.report?]⟩
  | next h hp hv ih =>
    rw [handed_concat hp]
    exact ih.trans hv.tells

/-- The hooks that have had their turn and those that are left are the hooks of the lane as they were
when the chain began. -/
theorem Course.hooks {c : Chain} {b₀ b : Broker} {ms : List Move} {vs : List (Ranked × Visit)}
    {rest : List Ranked} (h : Course c b₀ ms vs rest b) :
    vs.map (·.1) ++ rest = b₀.roster.ordered c.connection c.point := by
  induction h with
  | began => rfl
  | next h hp hv ih => simpa using ih

theorem Course.visit_at {c : Chain} {b₀ b : Broker} {ms : List Move} {vs : List (Ranked × Visit)}
    {rest : List Ranked} (h : Course c b₀ ms vs rest b) {i : Nat} {r : Ranked} {v : Visit}
    (hi : vs[i]? = some (r, v)) :
    ∃ ms₁ ns ms₂ rest₁ q b₁ b₂, ms = ms₁ ++ ns ++ ms₂ ∧
      Course c b₀ ms₁ (vs.take i) (r :: rest₁) b₁ ∧ foldVisits c.supplied (vs.take i) = .ok q ∧
      Visited c r rest₁ q b₁ ns v b₂ := by
  induction h with
  | began => simp at hi
  | @next ms ns vs r' rest q v' b b' h hp hv ih =>
    -- The last visit is the one just made; any other is found in the course before it.
    by_cases hlt : i < vs.length
    · rw [List.getElem?_append_left hlt] at hi
      obtain ⟨ms₁, ns₁, ms₂, rest₁, q₁, b₁, b₂, rfl, hvisit⟩ := ih hi
      rw [List.take_append_of_le_length (Nat.le_of_lt hlt)]
      exact ⟨ms₁, ns₁, ms₂ ++ ns, rest₁, q₁, b₁, b₂, by simp, hvisit⟩
    · have heq : i = vs.length := by
        have hbound := (List.getElem?_eq_some_iff.1 hi).1
        rw [List.length_append, List.length_singleton] at hbound
        omega
      rw [heq, List.getElem?_concat_length] at hi
      obtain ⟨rfl, rfl⟩ := Prod.mk.inj (Option.some.inj hi)
      rw [heq, List.take_left]
      exact ⟨ms, ns, [], rest, q, b, b', by simp, h, hp, hv⟩

/-- Each of the visits was made when it was the hook's turn, with the packet to which the visits before
fold. A hook that was not passed over was handed this packet, in an input and in a fresh turn. -/
def HandedOver (c : Chain) (b₀ : Broker) (vs : List (Ranked × Visit)) : Prop :=
  ∀ i r v, vs[i]? = some (r, v) → ∃ ms ns rest q b b', Course c b₀ ms (vs.take i) (r :: rest) b ∧
    foldVisits c.supplied (vs.take i) = .ok q ∧ Visited c r rest q b ns v b' ∧
    (v.isInvoked → ∃ input turn, b.HandsOver c r.hook q input turn)

theorem Course.handedOver {c : Chain} {b₀ b : Broker} {ms : List Move} {vs : List (Ranked × Visit)}
    {rest : List Ranked} (h : Course c b₀ ms vs rest b) : HandedOver c b₀ vs := by
  intro i r v hi
  obtain ⟨ms₁, ns, -, rest₁, q, b₁, b₂, -, hcourse, hq, hv⟩ := h.visit_at hi
  exact ⟨ms₁, ns, rest₁, q, b₁, b₂, hcourse, hq, hv, fun _ => handsOver b₁ c r.hook q⟩

end Broker
end BrokerHooks
