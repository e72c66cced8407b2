import BrokerHooks.Broker.Chain
import BrokerHooks.Proofs.Run.Effect

namespace BrokerHooks.Broker

/-- The broker in which a hook is about to run with the packet: it has a fresh turn. -/
def invited (b : Broker) (c : Chain) (h : Hook) (p : Packet) : Broker :=
  { b with turns := b.turns ++ [Turn.fresh c.point b.limits b.maxTimeout p] }.record
    (.invoked c h.number p)

def callback (b : Broker) (c : Chain) (h : Hook) (p : Packet) : Option Cause × Broker :=
  run { connection := c.connection, turn := b.turns.length }
    (h.respond (b.invocations h.number) (b.input c p)) (b.invited c h p)

/-- A hook finds the packet in a fresh turn: unmodified, not deferred and not prevented. -/
theorem invited_turn? (b : Broker) (c : Chain) (h : Hook) (p : Packet) :
    (b.invited c h p).turn? b.turns.length = some (Turn.fresh c.point b.limits b.maxTimeout p) := by
  simp [invited, turn?]

theorem input_packet (b : Broker) (c : Chain) (p : Packet) : (b.input c p).packet = p := by
  unfold input
  split <;> rfl

/-- What a hook is handed when it is invoked with the packet. The input holds the packet and tells of the
chain's connection. Nothing has happened to the turn, which holds the same packet. The hook's code runs
with that input on that turn. -/
structure HandsOver (b : Broker) (c : Chain) (h : Hook) (p : Packet) (input : Input) (turn : Turn) : Prop where
  packet : input.packet = p
  client : ∀ conn, b.roster.connection? c.connection = some conn →
    input.clientId = conn.clientId ∧ input.version = conn.version
  offered : turn.draft.packet = p
  unmodified : turn.draft.modified = false
  limits : turn.draft.limits = b.limits
  notDeferred : turn.deferral = .notRequested
  notPrevented : turn.prevented = false
  point : turn.point = c.point
  maxTimeout : turn.maxTimeout = b.maxTimeout
  runs : b.callback c h p = run { connection := c.connection, turn := b.turns.length }
    (h.respond (b.invocations h.number) input)
    ({ b with turns := b.turns ++ [turn] }.record (.invoked c h.number p))

theorem handsOver (b : Broker) (c : Chain) (h : Hook) (p : Packet) :
    ∃ input turn, b.HandsOver c h p input turn := by
  refine ⟨b.input c p, Turn.fresh c.point b.limits b.maxTimeout p, ?_⟩
  constructor
  case packet => exact input_packet b c p
  case client =>
    intro conn hconn
    simp [input, hconn]
  all_goals rfl

/-- Code fails only with an error or by breaking off. -/
theorem run_cause (s : Site) (program : Program) (b : Broker) :
    ∀ cause ∈ (run s program b).1, cause.isExtensionError := by
  induction program generalizing b with
  | done => simp [run]
  | fail | crash => simp [run, Cause.isExtensionError]
  | perform op next ih => exact ih _ _
  | spawn delay task next _ ih => exact ih _

theorem callback_cause {b b' : Broker} {c : Chain} {h : Hook} {p : Packet} {cause : Cause}
    (hcall : b.callback c h p = (some cause, b')) : cause.isExtensionError := by
  have hmem : cause ∈ (b.callback c h p).1 := by simp [hcall]
  exact run_cause _ _ _ cause hmem

theorem invoke_eq (b : Broker) (c : Chain) (h : Hook) (p : Packet) :
    b.invoke c h p = (b.turns.length, b.callback c h p) := rfl

/-- Gives one hook its turn, or passes it over, and answers where the turn then stands. -/
def serve (b : Broker) (c : Chain) (r : Ranked) (p : Packet) : Standing × Broker :=
  if b.roster.isEnabled r.hook.extension then
    match b.callback c r.hook p with
    | (some cause, b') => (.failed cause, b'.meter (·.extensionError c.point))
    | (none, b') => b'.standing c b.turns.length
  else (.passed p, b)

def conclude (s : Suspended) (next : Packet → Broker → Broker) : Standing × Broker → Broker
  | (.pending, b) => { b with suspended := b.suspended ++ [s] }
  | (.failed cause, b) => b.reportFailure s.chain s.current s.extension cause
  | (.passed p, b) => next p b

theorem wake_eq_conclude (b : Broker) (s : Suspended) :
    b.wake s = conclude s (proceed s.chain s.rest) (b.standing s.chain s.turn) := by
  unfold wake follow conclude
  rfl

/-- The suspended chain that serving a hook leaves behind while the hook's turn is pending. -/
def suspension (b : Broker) (c : Chain) (r : Ranked) (rest : List Ranked) (p : Packet) : Suspended where
  chain := c
  current := p
  extension := r.hook.extension
  turn := b.turns.length
  rest

theorem proceed_cons (c : Chain) (r : Ranked) (rest : List Ranked) (p : Packet) (b : Broker) :
    proceed c (r :: rest) p b =
      conclude (b.suspension c r rest p) (proceed c rest) (b.serve c r p) := by
  rw [proceed, invoke_eq]
  unfold serve
  split
  · cases b.callback c r.hook p with
    | mk cause b' =>
      cases cause with
      | none =>
        unfold follow conclude
        rfl
      | some cause => rfl
  · rfl

/-- What serving the hooks before has established about the hooks still to come, the packet for the
next of them and the broker leads to `Q` where the chain halts. -/
theorem proceed_induction {c : Chain} {motive : List Ranked → Packet → Broker → Prop}
    {Q : Broker → Prop}
    (finished : ∀ p b, motive [] p b → Q (b.report c { outcome := .proceed p }))
    (pending : ∀ r rest p b b', motive (r :: rest) p b → b.serve c r p = (.pending, b') →
      Q { b' with suspended := b'.suspended ++ [b.suspension c r rest p] })
    (failed : ∀ r rest p b cause b', motive (r :: rest) p b → b.serve c r p = (.failed cause, b') →
      Q (b'.reportFailure c p r.hook.extension cause))
    (passed : ∀ r rest p b q b', motive (r :: rest) p b → b.serve c r p = (.passed q, b') →
      motive rest q b')
    {hooks : List Ranked} {p : Packet} {b : Broker} (h : motive hooks p b) :
    Q (proceed c hooks p b) := by
  induction hooks generalizing p b with
  | nil => exact finished p b h
  | cons r rest ih =>
    rw [proceed_cons]
    cases hs : b.serve c r p with
    | mk standing b' =>
      cases standing with
      | pending => exact pending r rest p b b' h hs
      | failed cause => exact failed r rest p b cause b' h hs
      | passed q => exact ih (passed r rest p b q b' h hs)

namespace Effect

variable {c : Chain} {touched : Nat → Prop}

theorem standing {turn : Nat} (ht : touched turn) (b : Broker) :
    Effect (some c) touched b (b.standing c turn).2 := by
  unfold Broker.standing
  split
  · exact refl b
  · rename_i t _
    cases t.poll b.now with
    | mk completion t' =>
      have hset : Effect (some c) touched b (b.setTurn turn t') := setTurn ht b t'
      cases completion with
      | none => exact hset
      | some completion =>
        cases completion with
        | immediate | resumed => exact hset
        | timedOut fallback =>
          apply hset.trans
          exact trans (meter _ _) (record (e := .expired c fallback) rfl (.inr rfl) _)

theorem invited (b : Broker) (h : Hook) (p : Packet) :
    Effect (some c) touched b (b.invited c h p) := by
  refine trans ?_ (record (e := .invoked c h.number p) rfl (.inr rfl) _)
  exact { (refl b : Effect (some c) touched b b) with
    turns_length := by simp
    turn? := fun t ht _ => List.getElem?_append_left ht
    sleepers := ⟨[], by simp⟩ }

/-- All that a hook does at once it does to its own turn, which is new. -/
theorem callback (b : Broker) (h : Hook) (p : Packet) :
    Effect (some c) touched b (b.callback c h p).2 ∧
      b.turns.length < (b.callback c h p).2.turns.length := by
  have hlen : b.turns.length < (b.invited c h p).turns.length := by
    simp [Broker.invited, Broker.record]
  have hrun : Effect (some c) (· = b.turns.length) (b.invited c h p) (b.callback c h p).2 :=
    weaken (run (by rfl) _ _)
  have hlen' := Nat.lt_of_lt_of_le hlen hrun.turns_length
  refine ⟨(invited b h p).trans_of hrun ?_, hlen'⟩
  rintro t rfl
  exact .inr ⟨Nat.le_refl _, hlen'⟩

theorem serve (b : Broker) (r : Ranked) (p : Packet) :
    Effect (some c) touched b (b.serve c r p).2 ∧
      ((b.serve c r p).1 = .pending → b.turns.length < (b.serve c r p).2.turns.length) := by
  unfold Broker.serve
  split
  · have hcall : Effect (some c) touched b (b.callback c r.hook p).2 ∧
        b.turns.length < (b.callback c r.hook p).2.turns.length := callback b r.hook p
    cases hc : b.callback c r.hook p with
    | mk cause b' =>
      rw [hc] at hcall
      obtain ⟨hcall, hlen⟩ := hcall
      cases cause with
      | some cause =>
        have hm : Effect (some c) touched b' (b'.meter (·.extensionError c.point)) := meter _ _
        exact ⟨hcall.trans hm, nofun⟩
      | none =>
        have hs : Effect (some c) (· = b.turns.length) b' (b'.standing c b.turns.length).2 :=
          standing (by rfl) b'
        have hlen' := Nat.lt_of_lt_of_le hlen hs.turns_length
        refine ⟨hcall.trans_of hs ?_, fun _ => hlen'⟩
        rintro t rfl
        exact .inr ⟨Nat.le_refl _, hlen'⟩
  · exact ⟨refl b, nofun⟩

theorem of_serve {b b' : Broker} {r : Ranked} {p : Packet} {st : Standing}
    (hs : b.serve c r p = (st, b')) :
    Effect (some c) touched b b' ∧ (st = .pending → b.turns.length < b'.turns.length) := by
  have h : Effect (some c) touched b (b.serve c r p).2 ∧ _ := serve b r p
  rwa [hs] at h

end Effect

/-- How a chain halts: with its report, or suspended on a turn that is `touched` or new. -/
inductive Halts (c : Chain) (touched : Nat → Prop) (b : Broker) : Broker → Prop where
  | reported {b' : Broker} (r : Report) (h : Effect (some c) touched b b') :
      Halts c touched b (b'.report c r)
  | suspended {b' : Broker} (s : Suspended) (h : Effect (some c) touched b b')
      (hchain : s.chain = c) (hturn : touched s.turn ∨ b.turns.length ≤ s.turn)
      (hlt : touched s.turn ∨ s.turn < b'.turns.length) :
      Halts c touched b { b' with suspended := b'.suspended ++ [s] }

/-- A chain that halts has either left its queue with a report or is suspended, and not reported. -/
theorem Halts.told {c : Chain} {touched : Nat → Prop} {b b' : Broker} (h : Halts c touched b b') :
    b'.chains = b.chains ∧ b'.waiting = b.waiting ∧
      ∃ new, b'.journal = b.journal ++ new ∧
        (∀ e ∈ new, e.event.chain? = none ∨ e.event.chain? = some c) ∧
        ((b'.suspended = b.suspended ∧ ∃ e ∈ new, ∃ r, e.event = .reported c r) ∨
          (∃ s, s.chain = c ∧ b'.suspended = b.suspended ++ [s] ∧
            ∀ e ∈ new, e.event.isReport = false)) := by
  cases h with
  | reported r h =>
    obtain ⟨new, hj, hnew⟩ := h.journal
    refine ⟨by simp [h.chains], by simp [h.waiting], _,
      by rw [report_journal, hj, List.append_assoc], ?_, .inl ⟨?_, ?_⟩⟩
    · intro e he
      rcases List.mem_append.1 he with he | he
      · exact (hnew e he).2
      · obtain rfl := List.mem_singleton.1 he
        exact .inr rfl
    · simp [h.suspended]
    · exact ⟨_, List.mem_append_right _ (List.mem_singleton_self _), _, rfl⟩
  | suspended s h hchain _ _ =>
    obtain ⟨new, hj, hnew⟩ := h.journal
    refine ⟨h.chains, h.waiting, new, hj, fun e he => (hnew e he).2, .inr ⟨s, hchain, ?_, ?_⟩⟩
    · simp [h.suspended]
    · exact fun e he => (hnew e he).1

theorem Halts.now {c : Chain} {touched : Nat → Prop} {b b' : Broker} (h : Halts c touched b b') :
    b'.now = b.now := by
  cases h with
  | reported r h => rw [report_now, h.now]
  | suspended s h => exact h.now

theorem proceed_halts {c : Chain} {touched : Nat → Prop} {b b' : Broker}
    (h : Effect (some c) touched b b') (hooks : List Ranked) (p : Packet) :
    Halts c touched b (proceed c hooks p b') := by
  refine proceed_induction (motive := fun _ _ b' => Effect (some c) touched b b')
    ?finished ?pending ?failed ?passed h
  case finished => exact fun p b' h => .reported _ h
  case pending =>
    intro r rest p b₁ b₂ h hs
    obtain ⟨he, hlen⟩ := Effect.of_serve hs
    exact .suspended _ (h.trans he) rfl (.inr h.turns_length) (.inr (hlen rfl))
  case failed =>
    intro r rest p b₁ cause b₂ h hs
    exact .reported _ (h.trans (Effect.of_serve hs).1)
  case passed =>
    intro r rest p b₁ q b₂ h hs
    exact h.trans (Effect.of_serve hs).1

theorem begin_halts (b : Broker) (c : Chain) (touched : Nat → Prop) :
    Halts c touched b (b.begin c) :=
  proceed_halts (Effect.record (e := .began c) rfl (.inr rfl) b) _ _

theorem wake_halts (b : Broker) (s : Suspended) : Halts s.chain (· = s.turn) b (b.wake s) := by
  rw [wake_eq_conclude]
  have h : Effect (some s.chain) (· = s.turn) b (b.standing s.chain s.turn).2 :=
    Effect.standing (by rfl) b
  cases hs : b.standing s.chain s.turn with
  | mk st b' =>
    rw [hs] at h
    cases st with
    | pending => exact .suspended s h rfl (.inl rfl) (.inl rfl)
    | failed cause => exact .reported _ h
    | passed q => exact proceed_halts h _ _

end BrokerHooks.Broker
