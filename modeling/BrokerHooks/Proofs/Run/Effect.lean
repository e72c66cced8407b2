import BrokerHooks.Proofs.Run.Basic

namespace BrokerHooks

def Event.chain? : Event → Option Chain
  | .began c | .invoked c _ _ | .expired c _ | .reported c _ => some c
  | .misrouted _ | .denied | .noted _ => none

def Event.isReport : Event → Bool
  | .reported _ _ => true
  | _ => false

namespace Broker

/-- From `b` to `b'` only turns that are `touched` or new have changed or been given work for later,
and what was recorded tells of the chain `who` at most, and not of its end. -/
structure Effect (who : Option Chain) (touched : Nat → Prop) (b b' : Broker) : Prop where
  limits : b'.limits = b.limits
  maxTimeout : b'.maxTimeout = b.maxTimeout
  now : b'.now = b.now
  chains : b'.chains = b.chains
  waiting : b'.waiting = b.waiting
  suspended : b'.suspended = b.suspended
  turns_length : b.turns.length ≤ b'.turns.length
  turn? : ∀ t < b.turns.length, ¬touched t → b'.turn? t = b.turn? t
  sleepers : ∃ new, b'.sleepers = b.sleepers ++ new ∧
    ∀ w ∈ new, (touched w.site.turn ∨ b.turns.length ≤ w.site.turn) ∧
      (touched w.site.turn ∨ w.site.turn < b'.turns.length)
  journal : ∃ new, b'.journal = b.journal ++ new ∧
    ∀ e ∈ new, e.event.isReport = false ∧ (e.event.chain? = none ∨ e.event.chain? = who)

namespace Effect

variable {who : Option Chain} {touched touched' : Nat → Prop} {b b' b'' : Broker}

@[refl] theorem refl (b : Broker) : Effect who touched b b where
  limits := rfl
  maxTimeout := rfl
  now := rfl
  chains := rfl
  waiting := rfl
  suspended := rfl
  turns_length := Nat.le_refl _
  turn? _ _ _ := rfl
  sleepers := ⟨[], by simp⟩
  journal := ⟨[], by simp⟩

theorem trans_of (h : Effect who touched b b') (h' : Effect who touched' b' b'')
    (ht : ∀ t, touched' t → touched t ∨ (b.turns.length ≤ t ∧ t < b''.turns.length)) :
    Effect who touched b b'' where
  limits := h'.limits.trans h.limits
  maxTimeout := h'.maxTimeout.trans h.maxTimeout
  now := h'.now.trans h.now
  chains := h'.chains.trans h.chains
  waiting := h'.waiting.trans h.waiting
  suspended := h'.suspended.trans h.suspended
  turns_length := Nat.le_trans h.turns_length h'.turns_length
  turn? t hlt hnot := by
    -- A turn that was there before is not new.
    have ht' : ¬touched' t := fun htouched => by
      rcases ht t htouched with h | h
      · exact hnot h
      · omega
    rw [h'.turn? t (Nat.lt_of_lt_of_le hlt h.turns_length) ht', h.turn? t hlt hnot]
  sleepers := by
    obtain ⟨new, hs, hnew⟩ := h.sleepers
    obtain ⟨new', hs', hnew'⟩ := h'.sleepers
    refine ⟨new ++ new', by rw [hs', hs, List.append_assoc], fun w hw => ?_⟩
    rcases List.mem_append.1 hw with hw | hw
    · have := hnew w hw
      have := h'.turns_length
      grind
    · have := hnew' w hw
      have := ht w.site.turn
      have := h.turns_length
      grind
  journal := by
    obtain ⟨new, hj, hnew⟩ := h.journal
    obtain ⟨new', hj', hnew'⟩ := h'.journal
    refine ⟨new ++ new', by rw [hj', hj, List.append_assoc], fun e he => ?_⟩
    rcases List.mem_append.1 he with he | he
    · exact hnew e he
    · exact hnew' e he

theorem trans (h : Effect who touched b b') (h' : Effect who touched b' b'') :
    Effect who touched b b'' :=
  h.trans_of h' fun _ => .inl

theorem weaken (h : Effect none touched b b') : Effect who touched b b' :=
  { h with
    journal := by
      obtain ⟨new, hj, hnew⟩ := h.journal
      exact ⟨new, hj, fun e he => (hnew e he).imp_right fun h => .inl (h.elim id id)⟩ }

theorem record {e : Event} (hr : e.isReport = false) (he : e.chain? = none ∨ e.chain? = who)
    (b : Broker) :
    Effect who touched b (b.record e) :=
  { (refl b : Effect who touched b b) with journal := ⟨[{ time := b.now, event := e }], rfl, by simpa using ⟨hr, he⟩⟩ }

theorem meter (b : Broker) (f : Metrics → Metrics) : Effect who touched b (b.meter f) := by
  unfold Broker.meter
  split
  · exact { (refl b : Effect who touched b b) with }
  · exact refl b

theorem setTurn {i : Nat} (hi : touched i) (b : Broker) (t : Turn) :
    Effect who touched b (b.setTurn i t) :=
  { (refl b : Effect who touched b b) with
    turns_length := by simp [Broker.setTurn]
    turn? := fun j _ hj => by
      have hne : i ≠ j := fun h => hj (h ▸ hi)
      simp [Broker.setTurn, Broker.turn?, List.getElem?_set_ne hne]
    sleepers := ⟨[], by simp [Broker.setTurn]⟩ }

theorem onTurn {α : Type} {s : Site} (hs : touched s.turn) (b : Broker) (default : α)
    (f : Turn → α × Turn) : Effect who touched b (b.onTurn s default f).2 := by
  unfold Broker.onTurn
  split
  · exact refl b
  · exact setTurn hs b _

theorem onRoster {α : Type} (b : Broker) (f : Roster → α × Roster) :
    Effect who touched b (b.onRoster f).2 :=
  { (refl b : Effect who touched b b) with }

theorem check (b : Broker) : Effect who touched b b.check.2 := by
  unfold Broker.check
  simp only
  split
  · refine trans ?_ (record rfl (.inl rfl) _)
    refine trans ?_ (meter _ _)
    exact { (refl b : Effect who touched b b) with }
  · exact { (refl b : Effect who touched b b) with }

theorem admitted {α : Type} (b : Broker) (f : Broker → α × Broker)
    (hf : ∀ b, Effect who touched b (f b).2) : Effect who touched b (b.admitted f).2 := by
  have h : Effect who touched b b.check.2 := check b
  unfold Broker.admitted
  split <;> rename_i heq <;> rw [heq] at h
  · exact h
  · exact h.trans (hf _)

theorem disconnectClient (b : Broker) (clientId : String) (reason : Option ReasonCode) :
    Effect who touched b (b.disconnectClient clientId reason).2 := by
  unfold Broker.disconnectClient
  split
  · exact refl b
  · refine admitted b _ fun b => ?_
    split
    · exact refl b
    · exact onRoster b _

theorem perform {s : Site} (hs : touched s.turn) (b : Broker) (op : Op) :
    Effect who touched b (b.perform s op).2 := by
  cases op with
  | call | defer | resume | prevent | view => exact onTurn hs b _ _
  | close | resolve | register | remove | enable | disable => exact onRoster b _
  | isEnabled => exact refl b
  | check => exact check b
  | isConnected => exact admitted b _ fun b => refl b
  | disconnectClient clientId reason => exact disconnectClient b clientId reason
  | note n => exact record rfl (.inl rfl) b

theorem run {s : Site} (hs : touched s.turn) (program : Program) (b : Broker) :
    Effect who touched b (Broker.run s program b).2 := by
  induction program generalizing b with
  | done | fail | crash => exact refl b
  | perform op next ih => exact (perform hs b op).trans (ih _ _)
  | spawn delay task next _ ih =>
    refine trans ?_ (ih _)
    exact { (refl b : Effect who touched b b) with sleepers := ⟨[_], rfl, by simp [hs]⟩ }

end Effect
end Broker
end BrokerHooks
