import BrokerHooks.Proofs.Lane.Roster
import BrokerHooks.Proofs.Late.Code
import BrokerHooks.Proofs.Run.Cases

namespace BrokerHooks

def Event.lane? : Event → Option (Nat × Point)
  | .began c | .invoked c _ _ | .expired c _ | .reported c _ => some c.lane
  | .misrouted _ | .denied | .noted _ => none

def Event.mapChain (f : Chain → Chain) : Event → Event
  | .misrouted c => .misrouted (f c)
  | .began c => .began (f c)
  | .invoked c hook p => .invoked (f c) hook p
  | .expired c fallback => .expired (f c) fallback
  | .reported c r => .reported (f c) r
  | .denied => .denied
  | .noted n => .noted n

/-- The chain with the place of its number among the numbers for a number. -/
def Chain.among (numbers : List Nat) (c : Chain) : Chain := { c with number := numbers.idxOf c.number }

structure Pause where
  chain : Chain
  current : Packet
  extension : String
  turn : Option Turn
  tasks : List (Nat × Program)
  rest : List Ranked

namespace Broker

def tasksOf (b : Broker) (turn : Nat) : List (Nat × Program) :=
  (b.sleepers.filter (·.site.turn = turn)).map fun w => (w.due, w.program)

def pauseOf (b : Broker) (numbers : List Nat) (s : Suspended) : Pause where
  chain := s.chain.among numbers
  current := s.current
  extension := s.extension
  turn := b.turn? s.turn
  tasks := b.tasksOf s.turn
  rest := s.rest

def waitingIn (b : Broker) (lane : Nat × Point) (numbers : List Nat) : List Chain :=
  (b.waiting.filter (·.lane = lane)).map (·.among numbers)

def pausesIn (b : Broker) (lane : Nat × Point) (numbers : List Nat) : List Pause :=
  (b.suspended.filter (·.chain.lane = lane)).map (b.pauseOf numbers)

/-- What the journal tells of the lane, and when. -/
def chronicleIn (b : Broker) (lane : Nat × Point) (numbers : List Nat) : List Entry :=
  (b.journal.filter (·.event.lane? = some lane)).map fun e =>
    { e with event := e.event.mapChain (·.among numbers) }

/-- The lane sees no difference, except perhaps in the chains that wait. The numbers of its chains may differ, and
so may the clocks. -/
structure AlikeIn (lane : Nat × Point) (numbers numbers' : List Nat) (b b' : Broker) : Prop where
  limits : b'.limits = b.limits
  maxTimeout : b'.maxTimeout = b.maxTimeout
  limiter : b'.limiter = b.limiter
  roster : b.roster.AlikeFor lane.1 b'.roster
  pauses : b'.pausesIn lane numbers' = b.pausesIn lane numbers
  chronicle : b'.chronicleIn lane numbers' = b.chronicleIn lane numbers

/-- From `b` to `b'` nothing happens to the chains of the lane. -/
structure Spares (lane : Nat × Point) (b b' : Broker) : Prop where
  limits : b'.limits = b.limits
  maxTimeout : b'.maxTimeout = b.maxTimeout
  waiting : b'.waiting.filter (·.lane = lane) = b.waiting.filter (·.lane = lane)
  suspended : b'.suspended.filter (·.chain.lane = lane) = b.suspended.filter (·.chain.lane = lane)
  turn? : ∀ s ∈ b.suspended, s.chain.lane = lane → b'.turn? s.turn = b.turn? s.turn
  tasks : ∀ s ∈ b.suspended, s.chain.lane = lane → b'.tasksOf s.turn = b.tasksOf s.turn
  journal : ∃ new, b'.journal = b.journal ++ new ∧ ∀ e ∈ new, e.event.lane? ≠ some lane

/-- From `b` to `b'` nothing happens to any chain. -/
structure Aside (b b' : Broker) : Prop where
  limits : b'.limits = b.limits
  maxTimeout : b'.maxTimeout = b.maxTimeout
  turns : b'.turns = b.turns
  waiting : b'.waiting = b.waiting
  suspended : b'.suspended = b.suspended
  sleepers : b'.sleepers = b.sleepers
  journal : ∃ new, b'.journal = b.journal ++ new ∧ ∀ e ∈ new, e.event.lane? = none

section

variable {lane : Nat × Point} {numbers numbers' : List Nat} {b b' b₁ b₁' : Broker}

@[refl] theorem Aside.refl (b : Broker) : Aside b b := ⟨rfl, rfl, rfl, rfl, rfl, rfl, [], by simp⟩

theorem Aside.trans (h : Aside b b₁) (h' : Aside b₁ b') : Aside b b' where
  limits := h'.limits.trans h.limits
  maxTimeout := h'.maxTimeout.trans h.maxTimeout
  turns := h'.turns.trans h.turns
  waiting := h'.waiting.trans h.waiting
  suspended := h'.suspended.trans h.suspended
  sleepers := h'.sleepers.trans h.sleepers
  journal := by
    obtain ⟨new, hj, hnew⟩ := h.journal
    obtain ⟨new', hj', hnew'⟩ := h'.journal
    refine ⟨new ++ new', by rw [hj', hj, List.append_assoc], fun e he => ?_⟩
    rcases List.mem_append.1 he with he | he
    · exact hnew e he
    · exact hnew' e he

theorem Aside.onRoster {α : Type} (b : Broker) (f : Roster → α × Roster) : Aside b (b.onRoster f).2 :=
  { Aside.refl b with }

theorem Aside.check (b : Broker) : Aside b b.check.2 := by
  unfold Broker.check
  simp only
  split
  · constructor <;> simp [Event.lane?]
  · exact { Aside.refl b with }

theorem Aside.admitted {α : Type} (b : Broker) {f : Broker → α × Broker} (hf : ∀ b, Aside b (f b).2) :
    Aside b (b.admitted f).2 := by
  have hcheck := Aside.check b
  unfold Broker.admitted
  split <;> rename_i heq <;> rw [heq] at hcheck
  · exact hcheck
  · exact hcheck.trans (hf _)

theorem Aside.perform (b : Broker) (s : Site) {op : Op} (hop : op.isPrivate = false) :
    Aside b (b.perform s op).2 := by
  cases op with
  | call | defer | resume | prevent | view | note => cases hop
  | close | resolve | register | remove | enable | disable => exact .onRoster b _
  | isEnabled => exact .refl b
  | check => exact .check b
  | isConnected => exact .admitted b fun b => .refl b
  | disconnectClient clientId reason =>
    unfold Broker.perform Broker.disconnectClient
    simp only
    split
    · exact .refl b
    · refine .admitted b fun b => ?_
      split
      · exact .refl b
      · exact .onRoster b _

theorem Aside.spares (h : Aside b b₁) : Spares lane b b₁ where
  limits := h.limits
  maxTimeout := h.maxTimeout
  waiting := by rw [h.waiting]
  suspended := by rw [h.suspended]
  turn? s _ _ := by rw [Broker.turn?, Broker.turn?, h.turns]
  tasks s _ _ := by rw [tasksOf, tasksOf, h.sleepers]
  journal := by
    obtain ⟨new, hj, hnew⟩ := h.journal
    exact ⟨new, hj, fun e he => by simp [hnew e he]⟩

@[refl] theorem Spares.refl (b : Broker) : Spares lane b b where
  limits := rfl
  maxTimeout := rfl
  waiting := rfl
  suspended := rfl
  turn? _ _ _ := rfl
  tasks _ _ _ := rfl
  journal := ⟨[], by simp⟩

theorem Spares.waitingIn (h : Spares lane b b₁) (numbers : List Nat) :
    b₁.waitingIn lane numbers = b.waitingIn lane numbers := congrArg (·.map (·.among numbers)) h.waiting

theorem Spares.pausesIn (h : Spares lane b b₁) (numbers : List Nat) :
    b₁.pausesIn lane numbers = b.pausesIn lane numbers := by
  unfold Broker.pausesIn
  rw [h.suspended]
  refine List.map_congr_left fun s hs => ?_
  obtain ⟨hmem, hlane⟩ := List.mem_filter.1 hs
  unfold pauseOf
  rw [h.turn? s hmem (of_decide_eq_true hlane), h.tasks s hmem (of_decide_eq_true hlane)]

theorem chronicleIn_append {new : List Entry} (h : b₁.journal = b.journal ++ new) :
    b₁.chronicleIn lane numbers = b.chronicleIn lane numbers ++
      (new.filter (·.event.lane? = some lane)).map fun e =>
        { e with event := e.event.mapChain (·.among numbers) } := by
  unfold chronicleIn
  rw [h, List.filter_append, List.map_append]

theorem Spares.chronicleIn (h : Spares lane b b₁) (numbers : List Nat) :
    b₁.chronicleIn lane numbers = b.chronicleIn lane numbers := by
  obtain ⟨new, hj, hnew⟩ := h.journal
  have hnone : new.filter (·.event.lane? = some lane) = [] :=
    List.filter_eq_nil_iff.2 fun e he => by simpa using hnew e he
  rw [chronicleIn_append hj, hnone, List.map_nil, List.append_nil]

namespace AlikeIn

theorem symm (h : AlikeIn lane numbers numbers' b b') : AlikeIn lane numbers' numbers b' b :=
  ⟨h.limits.symm, h.maxTimeout.symm, h.limiter.symm, h.roster.symm, h.pauses.symm, h.chronicle.symm⟩

/-- What spares the lane on both sides keeps them alike, if it changes the rosters and the limiters alike. -/
theorem spare (h : AlikeIn lane numbers numbers' b b') (hs : Spares lane b b₁) (hs' : Spares lane b' b₁')
    (hlimiter : b₁'.limiter = b₁.limiter) (hroster : b₁.roster.AlikeFor lane.1 b₁'.roster) :
    AlikeIn lane numbers numbers' b₁ b₁' where
  limits := by rw [hs'.limits, h.limits, hs.limits]
  maxTimeout := by rw [hs'.maxTimeout, h.maxTimeout, hs.maxTimeout]
  limiter := hlimiter
  roster := hroster
  pauses := by rw [hs'.pausesIn, h.pauses, hs.pausesIn]
  chronicle := by rw [hs'.chronicleIn, h.chronicle, hs.chronicleIn]

end AlikeIn
end
end Broker
end BrokerHooks
