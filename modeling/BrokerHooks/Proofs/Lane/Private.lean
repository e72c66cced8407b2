import BrokerHooks.Proofs.Lane.Code
import BrokerHooks.Proofs.Lane.View

namespace BrokerHooks

def OwnHooks (hooks : List Ranked) : Prop := ∀ r ∈ hooks, ActsOnOwnOutput r.hook.respond

namespace Broker

def played (b : Broker) (c : Chain) (h : Hook) (p : Packet) : Played :=
  (h.respond 0 (b.input c p)).playOn b.now (Turn.fresh c.point b.limits b.maxTimeout p)

theorem callback_private {h : Hook} (hown : ActsOnOwnOutput h.respond) (b : Broker) (c : Chain) (p : Packet) :
    b.callback c h p = ((b.played c h p).cause,
      (b.invited c h p).afterPlay { connection := c.connection, turn := b.turns.length } (b.played c h p)) := by
  obtain ⟨hrespond, hprivate⟩ := hown (b.invocations h.number) (b.input c p)
  unfold callback
  rw [hrespond]
  exact run_private (s := { connection := c.connection, turn := b.turns.length }) (invited_turn? b c h p) hprivate

/-- From `b` to `b'` nothing changes but turns, what private code leaves behind and the journal, which tells of the
lane at most. -/
structure Private (lane : Option (Nat × Point)) (b b' : Broker) : Prop where
  roster : b'.roster = b.roster
  limiter : b'.limiter = b.limiter
  tasks : ∃ new, b'.sleepers = b.sleepers ++ new ∧ ∀ w ∈ new, w.program.IsPrivate
  journal : ∃ new, b'.journal = b.journal ++ new ∧ ∀ e ∈ new, e.event.lane? = none ∨ e.event.lane? = lane

namespace Private

variable {lane : Option (Nat × Point)} {b b' b'' : Broker}

@[refl] theorem refl (b : Broker) : Private lane b b where
  roster := rfl
  limiter := rfl
  tasks := ⟨[], by simp⟩
  journal := ⟨[], by simp⟩

theorem trans (h : Private lane b b') (h' : Private lane b' b'') : Private lane b b'' where
  roster := h'.roster.trans h.roster
  limiter := h'.limiter.trans h.limiter
  tasks := by
    obtain ⟨new, hs, hnew⟩ := h.tasks
    obtain ⟨new', hs', hnew'⟩ := h'.tasks
    refine ⟨new ++ new', by rw [hs', hs, List.append_assoc], fun w hw => ?_⟩
    rcases List.mem_append.1 hw with hw | hw
    · exact hnew w hw
    · exact hnew' w hw
  journal := by
    obtain ⟨new, hj, hnew⟩ := h.journal
    obtain ⟨new', hj', hnew'⟩ := h'.journal
    refine ⟨new ++ new', by rw [hj', hj, List.append_assoc], fun e he => ?_⟩
    rcases List.mem_append.1 he with he | he
    · exact hnew e he
    · exact hnew' e he

theorem record {e : Event} (he : e.lane? = none ∨ e.lane? = lane) (b : Broker) : Private lane b (b.record e) :=
  { (refl b : Private lane b b) with journal := ⟨[{ time := b.now, event := e }], rfl, by simpa using he⟩ }

theorem meter (b : Broker) (f : Metrics → Metrics) : Private lane b (b.meter f) := by
  unfold Broker.meter
  split
  · exact { (refl b : Private lane b b) with }
  · exact refl b

theorem setTurn (b : Broker) (i : Nat) (t : Turn) : Private lane b (b.setTurn i t) :=
  { (refl b : Private lane b b) with }

theorem afterPlay (b : Broker) (s : Site) {played : Played} (htasks : ∀ w ∈ played.tasks, w.2.IsPrivate) :
    Private lane b (b.afterPlay s played) where
  roster := rfl
  limiter := rfl
  tasks := by
    refine ⟨_, rfl, fun w hw => ?_⟩
    obtain ⟨task, htask, rfl⟩ := List.mem_map.1 hw
    exact htasks task htask
  journal := ⟨_, rfl, by simp [Event.lane?]⟩

theorem perform (b : Broker) (s : Site) {op : Op} (hop : op.isPrivate) : Private lane b (b.perform s op).2 := by
  have honTurn {α : Type} (default : α) (f : Turn → α × Turn) : Private lane b (b.onTurn s default f).2 := by
    unfold onTurn
    split
    · exact refl b
    · exact setTurn b _ _
  cases op with
  | call | defer | resume | prevent | view => exact honTurn _ _
  | note n => exact record (.inl rfl) b
  | _ => cases hop

section

variable {c : Chain}

theorem invited (b : Broker) (h : Hook) (p : Packet) : Private (some c.lane) b (b.invited c h p) := by
  have hturns : Private (some c.lane) b
      { b with turns := b.turns ++ [Turn.fresh c.point b.limits b.maxTimeout p] } :=
    { (refl b : Private (some c.lane) b b) with }
  exact hturns.trans (record (e := .invoked c h.number p) (.inr rfl) _)

theorem callback {h : Hook} (hown : ActsOnOwnOutput h.respond) (b : Broker) (p : Packet) :
    Private (some c.lane) b (b.callback c h p).2 := by
  rw [callback_private hown]
  exact (invited b h p).trans (afterPlay _ _ ((hown 0 _).2.tasks _ _))

theorem standing (b : Broker) (turn : Nat) : Private (some c.lane) b (b.standing c turn).2 := by
  unfold Broker.standing
  split
  · exact refl b
  · rename_i t _
    cases t.poll b.now with
    | mk completion t' =>
      cases completion with
      | none => exact setTurn b turn t'
      | some completion =>
        cases completion with
        | immediate | resumed => exact setTurn b turn t'
        | timedOut fallback =>
          refine (setTurn b turn t').trans ?_
          exact (meter _ _).trans (record (e := .expired c fallback) (.inr rfl) _)

theorem serve {r : Ranked} (hown : ActsOnOwnOutput r.hook.respond) (b : Broker) (p : Packet) :
    Private (some c.lane) b (b.serve c r p).2 := by
  unfold Broker.serve
  split
  · have hcall : Private (some c.lane) b (b.callback c r.hook p).2 := callback hown b p
    cases hc : b.callback c r.hook p with
    | mk cause b' =>
      rw [hc] at hcall
      cases cause with
      | some cause => exact hcall.trans (meter b' (·.extensionError c.point))
      | none => exact hcall.trans (standing b' _)
  · exact refl b

theorem of_serve {r : Ranked} (hown : ActsOnOwnOutput r.hook.respond) {p : Packet} {st : Standing}
    (hs : b.serve c r p = (st, b')) : Private (some c.lane) b b' := by
  have h : Private (some c.lane) b (b.serve c r p).2 := serve hown b p
  rwa [hs] at h

theorem report (b : Broker) (r : Report) : Private (some c.lane) b (b.report c r) :=
  (meter b _).trans (record (e := .reported c (r.onConnection (b.roster.isClosed c.connection))) (.inr rfl) _)

theorem proceed {hooks : List Ranked} (hown : OwnHooks hooks) (p : Packet) (b : Broker) :
    Private (some c.lane) b (proceed c hooks p b) := by
  refine proceed_induction (motive := fun hooks _ b' => OwnHooks hooks ∧ Private (some c.lane) b b')
    ?finished ?pending ?failed ?passed ⟨hown, refl b⟩
  case finished => exact fun p b' h => h.2.trans (report b' _)
  case pending =>
    rintro r rest p b' b'' ⟨hown, h⟩ hs
    have hserved := h.trans (of_serve (hown r (List.mem_cons_self ..)) hs)
    exact { hserved with }
  case failed =>
    rintro r rest p b' cause b'' ⟨hown, h⟩ hs
    exact (h.trans (of_serve (hown r (List.mem_cons_self ..)) hs)).trans (report b'' _)
  case passed =>
    rintro r rest p b' q b'' ⟨hown, h⟩ hs
    exact ⟨fun x hx => hown x (List.mem_cons_of_mem _ hx), h.trans (of_serve (hown r (List.mem_cons_self ..)) hs)⟩

theorem begins (hown : OwnHooks (b.roster.ordered c.connection c.point)) : Private (some c.lane) b (b.begin c) :=
  (record (e := .began c) (.inr rfl) b).trans (proceed hown c.supplied _)

end

theorem wake {s : Suspended} (hown : OwnHooks s.rest) (b : Broker) : Private (some s.chain.lane) b (b.wake s) := by
  have hstanding : Private (some s.chain.lane) b (b.standing s.chain s.turn).2 := standing b s.turn
  rw [wake_eq_conclude]
  cases hs : b.standing s.chain s.turn with
  | mk st b' =>
    rw [hs] at hstanding
    cases st with
    | pending => exact { hstanding with }
    | failed cause => exact hstanding.trans (report b' _)
    | passed q => exact hstanding.trans (proceed hown q b')

end Private
end Broker
end BrokerHooks
