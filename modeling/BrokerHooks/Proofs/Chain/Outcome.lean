import BrokerHooks.Proofs.Chain.Execution

namespace BrokerHooks

def Event.outcome? : Event → Option (Chain × Outcome)
  | .reported c r => some (c, r.outcome)
  | .misrouted c => some (c, .proceed c.supplied)
  | .began _ | .invoked _ _ _ | .expired _ _ | .denied | .noted _ => none

theorem Failure.report_outcome_ne_drop (f : Failure) (point : Point) :
    (f.report point).outcome ≠ .drop := by
  unfold Failure.report Reaction.outcome
  simp only
  split <;> nofun

theorem Report.onConnection_outcome_eq_drop {r : Report} (hr : r.outcome ≠ .drop) (closed : Bool) :
    (r.onConnection closed).outcome = .drop ↔ closed := by
  unfold Report.onConnection
  split <;> simp_all

namespace Broker

/-- From `b` to `b'` nothing was recorded that ends a chain. -/
def EndsNone (b b' : Broker) : Prop :=
  ∃ new, b'.journal = b.journal ++ new ∧ ∀ e ∈ new, e.event.outcome? = none

namespace EndsNone

variable {b b' b'' : Broker}

theorem of_journal (h : b'.journal = b.journal) : EndsNone b b' := ⟨[], by simp [h]⟩

theorem trans (h : EndsNone b b') (h' : EndsNone b' b'') : EndsNone b b'' := by
  obtain ⟨new, hj, hnew⟩ := h
  obtain ⟨new', hj', hnew'⟩ := h'
  refine ⟨new ++ new', by rw [hj', hj, List.append_assoc], fun e he => ?_⟩
  rcases List.mem_append.1 he with he | he
  · exact hnew e he
  · exact hnew' e he

theorem record {e : Event} (he : e.outcome? = none) (b : Broker) : EndsNone b (b.record e) :=
  ⟨[_], rfl, by simpa using he⟩

theorem meter_record {e : Event} (he : e.outcome? = none) (b : Broker) (f : Metrics → Metrics) :
    EndsNone b ((b.meter f).record e) :=
  (of_journal (meter_journal b f)).trans (record he _)

theorem onTurn {α : Type} (b : Broker) (s : Site) (default : α) (f : Turn → α × Turn) :
    EndsNone b (b.onTurn s default f).2 := by
  unfold Broker.onTurn
  split <;> exact of_journal rfl

theorem check (b : Broker) : EndsNone b b.check.2 := by
  unfold Broker.check
  simp only
  split
  · exact meter_record (b := { b with limiter := (b.limiter.exceeded b.now).2 }) rfl _
  · exact of_journal rfl

theorem admitted {α : Type} (b : Broker) (f : Broker → α × Broker) (hf : ∀ b, EndsNone b (f b).2) :
    EndsNone b (b.admitted f).2 := by
  have h := check b
  unfold Broker.admitted
  split <;> rename_i heq <;> rw [heq] at h
  · exact h
  · exact h.trans (hf _)

theorem perform (b : Broker) (s : Site) (op : Op) : EndsNone b (b.perform s op).2 := by
  cases op with
  | call | defer | resume | prevent | view => exact onTurn b s _ _
  | close | resolve | register | remove | enable | disable | isEnabled => exact of_journal rfl
  | check => exact check b
  | isConnected => exact admitted b _ fun b => of_journal rfl
  | disconnectClient clientId reason =>
    unfold Broker.perform disconnectClient
    simp only
    split
    · exact of_journal rfl
    · refine admitted b _ fun b => ?_
      split <;> exact of_journal rfl
  | note n => exact record rfl b

theorem run (s : Site) (program : Program) (b : Broker) : EndsNone b (Broker.run s program b).2 := by
  induction program generalizing b with
  | done | fail | crash => exact of_journal rfl
  | perform op next ih => exact (perform b s op).trans (ih _ _)
  | spawn delay task next _ ih =>
    refine trans ?_ (ih _)
    exact of_journal rfl

theorem standing (b : Broker) (c : Chain) (turn : Nat) : EndsNone b (b.standing c turn).2 := by
  unfold Broker.standing
  split
  · exact of_journal rfl
  · rename_i t _
    cases t.poll b.now with
    | mk completion t' =>
      cases completion with
      | none => exact of_journal rfl
      | some completion =>
        cases completion with
        | immediate | resumed => exact of_journal rfl
        | timedOut fallback => exact meter_record (b := b.setTurn turn t') rfl _

theorem serve (b : Broker) (c : Chain) (r : Ranked) (p : Packet) : EndsNone b (b.serve c r p).2 := by
  unfold Broker.serve
  split
  · have hinvited : EndsNone b (b.invited c r.hook p) := ⟨[_], rfl, by simp [Event.outcome?]⟩
    have hcall : EndsNone b (b.callback c r.hook p).2 := hinvited.trans (run _ _ _)
    cases hc : b.callback c r.hook p with
    | mk cause b' =>
      rw [hc] at hcall
      cases cause with
      | some cause => exact hcall.trans (of_journal (meter_journal b' _))
      | none => exact hcall.trans (standing b' c b.turns.length)
  · exact of_journal rfl

end EndsNone

/-- A chain runs on until it is suspended, or until it ends with a report. -/
inductive Ends (c : Chain) (b : Broker) : Broker → Prop where
  | suspended {b' : Broker} (h : EndsNone b b') : Ends c b b'
  | reported {b' : Broker} (r : Report) (hr : r.outcome ≠ .drop) (h : EndsNone b b') :
      Ends c b (b'.report c r)

theorem proceed_ends (c : Chain) (hooks : List Ranked) (p : Packet) {b b' : Broker}
    (h : EndsNone b b') : Ends c b (proceed c hooks p b') := by
  refine proceed_induction (motive := fun _ _ b' => EndsNone b b') ?finished ?pending ?failed ?passed h
  case finished => exact fun p b' h => .reported _ nofun h
  case pending =>
    intro r rest p b₁ b₂ h hs
    have hserve := EndsNone.serve b₁ c r p
    rw [hs] at hserve
    exact .suspended ((h.trans hserve).trans (.of_journal rfl))
  case failed =>
    intro r rest p b₁ cause b₂ h hs
    have hserve := EndsNone.serve b₁ c r p
    rw [hs] at hserve
    exact .reported _ (Failure.report_outcome_ne_drop _ _) (h.trans hserve)
  case passed =>
    intro r rest p b₁ q b₂ h hs
    have hserve := EndsNone.serve b₁ c r p
    rw [hs] at hserve
    exact h.trans hserve

theorem begin_ends (b : Broker) (c : Chain) : Ends c b (b.begin c) :=
  proceed_ends c _ _ (.record (e := .began c) rfl b)

theorem wake_ends (b : Broker) (s : Suspended) : Ends s.chain b (b.wake s) := by
  have h := EndsNone.standing b s.chain s.turn
  rw [wake_eq_conclude]
  cases hs : b.standing s.chain s.turn with
  | mk st b' =>
    rw [hs] at h
    cases st with
    | pending => exact .suspended (h.trans (.of_journal rfl))
    | failed cause => exact .reported _ (Failure.report_outcome_ne_drop _ _) h
    | passed q => exact proceed_ends s.chain s.rest q h

/-- The chains that wait or are suspended are those of packets that belong to their points. -/
structure Routed (b : Broker) : Prop where
  waiting : ∀ c ∈ b.waiting, c.supplied.belongsTo c.point
  suspended : ∀ s ∈ b.suspended, s.chain.supplied.belongsTo s.chain.point

theorem Halts.routed {c : Chain} {touched : Nat → Prop} {b b' : Broker} (h : Halts c touched b b')
    (hb : Routed b) (hc : c.supplied.belongsTo c.point) : Routed b' := by
  obtain ⟨-, hwaiting, new, -, -, hend⟩ := h.told
  refine ⟨by rw [hwaiting]; exact hb.waiting, fun s hs => ?_⟩
  rcases hend with ⟨hsuspended, -⟩ | ⟨s', rfl, hsuspended, -⟩ <;> rw [hsuspended] at hs
  · exact hb.suspended s hs
  · rcases List.mem_append.1 hs with hs | hs
    · exact hb.suspended s hs
    · obtain rfl := List.mem_singleton.1 hs
      exact hc

theorem Routed.move {b : Broker} (h : Routed b) (m : Move) : Routed (b.move m) := by
  obtain ⟨b', heq, hi | hm⟩ := Broker.move_cases b m
  · rw [heq]
    exact ⟨by rw [hi.waiting]; exact h.waiting, by rw [hi.suspended]; exact h.suspended⟩
  · cases hm with
    | submitted c hn =>
      -- Whether the packet belongs to the point is asked here and nowhere else.
      simp only [Broker.move, submit]
      split
      · rename_i hp
        refine ⟨fun d hd => ?_, h.suspended⟩
        rcases List.mem_append.1 hd with hd | hd
        · exact h.waiting d hd
        · obtain rfl := List.mem_singleton.1 hd
          exact hp
      · exact ⟨h.waiting, h.suspended⟩
    | began c hw hfirst hfree =>
      rw [heq]
      refine (begin_halts _ c fun _ => False).routed ⟨fun d hd => ?_, h.suspended⟩ (h.waiting c (by simp [hw]))
      exact h.waiting d (mem_of_split hw hd)
    | woke s hs =>
      rw [heq]
      refine (wake_halts _ s).routed ⟨h.waiting, fun s' hs' => ?_⟩ (h.suspended s (by simp [hs]))
      exact h.suspended s' (mem_of_split hs hs')

theorem Routed.play {b : Broker} (h : Routed b) (ms : List Move) : Routed (b.play ms) :=
  play_preserves (P := Routed) (fun _ m h => h.move m) h ms

theorem routed_ofConfig (config : Config) (metered : Bool) : Routed (ofConfig config metered) := by
  constructor <;> simp [ofConfig]

def recorded (b : Broker) (m : Move) : List Entry := (b.move m).journal.drop b.journal.length

/-- Where the event ends a chain, the packet is dropped if it belongs to the point and the connection is
closed, and never otherwise. A packet that does not belong there goes on as it is. -/
def Settles (b : Broker) (e : Event) : Prop :=
  ∀ c outcome, e.outcome? = some (c, outcome) →
    (outcome = .drop ↔ c.supplied.belongsTo c.point ∧ b.roster.isClosed c.connection) ∧
    (¬c.supplied.belongsTo c.point → outcome = .proceed c.supplied)

/-- How a move may end a chain: with the report of one that waited or was suspended, which asks whether the
connection is closed by now, or at once, where a packet is handed over at a point to which it does not belong. -/
inductive Records (b b' : Broker) : Event → Prop where
  | other {e : Event} (hnone : e.outcome? = none) : Records b b' e
  | reported {c : Chain} {r : Report} (hlive : c ∈ b.waiting ∨ ∃ s ∈ b.suspended, s.chain = c)
      (hr : r.outcome ≠ .drop) : Records b b' (.reported c (r.onConnection (b'.roster.isClosed c.connection)))
  | misrouted {c : Chain} (hwrong : ¬c.supplied.belongsTo c.point) : Records b b' (.misrouted c)

theorem EndsNone.records (b : Broker) {b₁ b' : Broker} (h : EndsNone b₁ b') :
    ∃ new, b'.journal = b₁.journal ++ new ∧ ∀ e ∈ new, Records b b' e.event := by
  obtain ⟨new, hj, hnew⟩ := h
  exact ⟨new, hj, fun e he => .other (hnew e he)⟩

theorem Ends.records {c : Chain} {b b₁ b' : Broker} (h : Ends c b₁ b')
    (hlive : c ∈ b.waiting ∨ ∃ s ∈ b.suspended, s.chain = c) :
    ∃ new, b'.journal = b₁.journal ++ new ∧ ∀ e ∈ new, Records b b' e.event := by
  cases h with
  | suspended h => exact h.records b
  | @reported b' r hr h =>
    obtain ⟨new, hj, hnew⟩ := h
    refine ⟨_, by rw [report_journal, hj, List.append_assoc], fun e he => ?_⟩
    rcases List.mem_append.1 he with he | he
    · exact .other (hnew e he)
    · obtain rfl := List.mem_singleton.1 he
      rw [← report_roster b' c r]
      exact .reported hlive hr

theorem move_records (b : Broker) (m : Move) :
    ∃ new, (b.move m).journal = b.journal ++ new ∧ ∀ e ∈ new, Records b (b.move m) e.event := by
  have hstill {b' : Broker} (hj : b'.journal = b.journal) :
      ∃ new, b'.journal = b.journal ++ new ∧ ∀ e ∈ new, Records b b' e.event :=
    EndsNone.records b (.of_journal hj)
  cases m with
  | submit connection point p =>
    simp only [Broker.move, submit]
    split
    · exact hstill rfl
    · rename_i hwrong
      refine ⟨[_], rfl, fun e he => ?_⟩
      obtain rfl := List.mem_singleton.1 he
      exact .misrouted hwrong
  | begin lane =>
    simp only [Broker.move]
    split
    · split
      · rename_i c rest htake
        obtain ⟨before, after, hw, rfl, -, -⟩ := takeFirst?_eq_some.1 htake
        exact (begin_ends { b with waiting := before ++ after } c).records (.inl (by simp [hw]))
      · exact hstill rfl
    · exact hstill rfl
  | wake i =>
    simp only [Broker.move]
    split
    · rename_i s hs
      exact (wake_ends { b with suspended := b.suspended.eraseIdx i } s).records
        (.inr ⟨s, List.mem_of_getElem? hs, rfl⟩)
    · exact hstill rfl
  | work i =>
    simp only [Broker.move]
    split
    · rename_i s hs
      exact (EndsNone.run s.site s.program { b with now := max b.now s.due, sleepers := _ }).records b
    · exact hstill rfl
  | perform site op => exact (EndsNone.perform b site op).records b
  | _ => exact hstill rfl

theorem Routed.settles {b : Broker} (h : Routed b) (m : Move) :
    ∃ new, (b.move m).journal = b.journal ++ new ∧ ∀ e ∈ new, (b.move m).Settles e.event := by
  obtain ⟨new, hj, hnew⟩ := b.move_records m
  refine ⟨new, hj, fun e he => ?_⟩
  have hrecords := hnew e he
  generalize e.event = event at hrecords
  intro c outcome hout
  cases hrecords with
  | other hnone =>
    rw [hnone] at hout
    cases hout
  | reported hlive hr =>
    cases hout
    have hroute : c.supplied.belongsTo c.point := by
      rcases hlive with hc | ⟨s, hs, rfl⟩
      · exact h.waiting c hc
      · exact h.suspended s hs
    -- A fold never drops a packet by itself.
    rw [Report.onConnection_outcome_eq_drop hr]
    exact ⟨by simp [hroute], fun hwrong => absurd hroute hwrong⟩
  | misrouted hwrong =>
    cases hout
    exact ⟨by simp [hwrong], fun _ => rfl⟩

/-- Only packets that do not belong to their points are turned away there. -/
theorem misrouted_play {start : Broker} (hstart : ∀ e ∈ start.journal, ∀ c, e.event ≠ .misrouted c)
    (ms : List Move) : ∀ e ∈ (start.play ms).journal, ∀ c, e.event = .misrouted c →
      ¬c.supplied.belongsTo c.point := by
  refine play_preserves (P := fun b => ∀ e ∈ b.journal, ∀ c, e.event = .misrouted c →
    ¬c.supplied.belongsTo c.point) (fun b m h e he c hc => ?_) (fun e he c hc => absurd hc (hstart e he c)) ms
  obtain ⟨new, hj, hnew⟩ := b.move_records m
  rw [hj] at he
  rcases List.mem_append.1 he with he | he
  · exact h e he c hc
  · have hrecords := hnew e he
    rw [hc] at hrecords
    cases hrecords with
    | other hnone => cases hnone
    | misrouted hwrong => exact hwrong

/-- Whatever has happened, when a move ends the chain of a packet, the packet is dropped if it belongs to the
point and its connection is closed by then, and in no other case. If it does not belong to the point it goes
on as it is, even on a closed connection. -/
theorem dropped_iff_closed (config : Config) (metered : Bool) (before : List Move) (m : Move) :
    let b := (ofConfig config metered).play before
    ∀ e ∈ b.recorded m, ∀ c outcome, e.event.outcome? = some (c, outcome) →
      (outcome = .drop ↔ c.supplied.belongsTo c.point ∧ (b.move m).roster.isClosed c.connection) ∧
      (¬c.supplied.belongsTo c.point → outcome = .proceed c.supplied) := by
  intro b e he
  obtain ⟨new, hj, hnew⟩ := ((routed_ofConfig config metered).play before).settles m
  unfold recorded at he
  rw [hj, List.drop_left] at he
  exact hnew e he

def closingMoves : List Move :=
  deferringMoves ++
    [.submit 0 .pingreqInbound (.ping .request), .begin (0, .pingreqInbound),
      .perform { connection := 0, turn := 0 } (.close none), .elapse 10]

theorem closing_dropped : ∃ e ∈ ((ofConfig {} true).play closingMoves).recorded (.wake 0),
    e.event.outcome? = some (deferredPingreq 0, .drop) := by
  have hbegin := deferring_begins (b := (deferring.submit 0 .pingreqInbound (.ping .request)).2) rfl rfl rfl
  have hplay : (ofConfig {} true).play closingMoves =
      (((deferring.submit 0 .pingreqInbound (.ping .request)).2.move (.begin (0, .pingreqInbound))).play
        [.perform { connection := 0, turn := 0 } (.close none), .elapse 10]) := play_append ..
  rw [hplay, hbegin]
  exact ⟨_, List.mem_cons_of_mem _ (List.mem_singleton_self _), rfl⟩

theorem closing_closed : ∃ e ∈ ((ofConfig {} true).play closingMoves).recorded (.wake 0),
    e.event.outcome? = some (deferredPingreq 0, .drop) ∧
      (((ofConfig {} true).play closingMoves).move (.wake 0)).roster.isClosed 0 := by
  obtain ⟨e, he, hout⟩ := closing_dropped
  exact ⟨e, he, hout, ((dropped_iff_closed {} true closingMoves (.wake 0) e he _ _ hout).1.1 rfl).2⟩

/-- A PUBACK that is handed over as a PUBREC on a closed connection is not dropped. -/
theorem misrouted_not_dropped :
    ¬∀ (config : Config) (metered : Bool) (before : List Move) (m : Move),
      let b := (ofConfig config metered).play before
      ∀ e ∈ b.recorded m, ∀ c outcome, e.event.outcome? = some (c, outcome) →
        (outcome = .drop ↔ (b.move m).roster.isClosed c.connection) := by
  intro h
  have hdropped := h {} true [.openConnection "client" .v5 none,
    .perform { connection := 0, turn := 0 } (.close none)]
    (.submit 0 .pubrecInbound (.ack { kind := .puback, packetId := 1 })) _ (List.mem_singleton_self _) _ _ rfl
  cases hdropped.2 rfl

end Broker
end BrokerHooks
