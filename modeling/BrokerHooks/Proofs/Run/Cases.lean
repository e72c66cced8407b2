import BrokerHooks.Proofs.Run.Serve

namespace BrokerHooks.Broker

structure Idles (b b' : Broker) : Prop where
  limits : b'.limits = b.limits
  maxTimeout : b'.maxTimeout = b.maxTimeout
  chains : b.chains ≤ b'.chains
  waiting : b'.waiting = b.waiting
  suspended : b'.suspended = b.suspended
  turns_length : b.turns.length ≤ b'.turns.length
  journal : ∃ new, b'.journal = b.journal ++ new ∧ ∀ e ∈ new, e.event.chain? = none

theorem Effect.idles {touched : Nat → Prop} {b b' : Broker} (h : Effect none touched b b') :
    Idles b b' where
  limits := h.limits
  maxTimeout := h.maxTimeout
  chains := Nat.le_of_eq h.chains.symm
  waiting := h.waiting
  suspended := h.suspended
  turns_length := h.turns_length
  journal := by
    obtain ⟨new, hj, hnew⟩ := h.journal
    exact ⟨new, hj, fun e he => (hnew e he).2.elim id id⟩

theorem Idles.refl (b : Broker) : Idles b b :=
  have h : Effect none (fun _ => True) b b := .refl b
  h.idles

theorem runSleeper_effect (b : Broker) (s : Sleeper) (rest : List Sleeper) :
    Effect none (· = s.site.turn) { b with now := max b.now s.due, sleepers := rest }
      (b.runSleeper s rest) :=
  Effect.run (by rfl) _ _

theorem runSleeper_idles (b : Broker) (s : Sleeper) (rest : List Sleeper) :
    Idles b (b.runSleeper s rest) :=
  { (runSleeper_effect b s rest).idles with }

/-- A move that happens to a chain. The one that begins has waited longest in its lane, and no other of
that lane is suspended. -/
inductive ChainMove (b : Broker) : Move → Broker → Prop where
  | submitted (c : Chain) (hn : c.number = b.chains) :
      ChainMove b (.submit c.connection c.point c.supplied)
        { b with chains := b.chains + 1, waiting := b.waiting ++ [c] }
  | began {before after : List Chain} (c : Chain) (hw : b.waiting = before ++ c :: after)
      (hfirst : ∀ x ∈ before, x.lane ≠ c.lane) (hfree : ∀ s ∈ b.suspended, s.chain.lane ≠ c.lane) :
      ChainMove b (.begin c.lane) ({ b with waiting := before ++ after }.begin c)
  | woke {before after : List Suspended} (s : Suspended) (hs : b.suspended = before ++ s :: after) :
      ChainMove b (.wake before.length) ({ b with suspended := before ++ after }.wake s)

theorem isFree_iff {b : Broker} {lane : Nat × Point} :
    b.isFree lane ↔ ∀ s ∈ b.suspended, s.chain.lane ≠ lane := by
  simp [isFree]

theorem move_cases (b : Broker) (m : Move) :
    ∃ b', b.move m = b' ∧ (Idles b b' ∨ ChainMove b m b') := by
  refine ⟨_, rfl, ?_⟩
  cases m with
  | submit connection point p =>
    let c : Chain := { number := b.chains, connection, point, supplied := p }
    unfold move submit
    simp only
    split
    · exact .inr (.submitted c rfl)
    · refine .inl { Idles.refl b with chains := Nat.le_succ _, journal := ⟨[_], rfl, ?_⟩ }
      simp [Event.chain?]
  | begin lane =>
    unfold move
    simp only
    split
    · rename_i hfree
      split
      · rename_i c rest heq
        obtain ⟨before, after, hw, rfl, hlane, hfirst⟩ := takeFirst?_eq_some.1 heq
        have hlane : c.lane = lane := by simpa using hlane
        subst hlane
        exact .inr (.began c hw (by simpa using hfirst) (isFree_iff.1 hfree))
      · exact .inl (.refl b)
    · exact .inl (.refl b)
  | wake i =>
    unfold move
    simp only
    split
    · rename_i s hs
      obtain ⟨before, after, rfl, hsplit, herase⟩ := eraseIdx_split hs
      rw [herase]
      exact .inr (.woke s hsplit)
    · exact .inl (.refl b)
  | work i =>
    left
    unfold move
    simp only
    split
    · exact runSleeper_idles b _ _
    · exact .refl b
  | perform site op =>
    have h : Effect none (fun _ => True) b (b.perform site op).2 := Effect.perform trivial b op
    exact .inl h.idles
  | _ => exact .inl { Idles.refl b with }

end BrokerHooks.Broker
