import BrokerHooks.Proofs.Chain.Finish
import BrokerHooks.Session.Basic

namespace BrokerHooks.Broker

theorem orderly_ofConfig (config : Config) (metered : Bool) : Orderly (ofConfig config metered) := by
  constructor <;> simp [ofConfig]

theorem grounded_ofConfig (config : Config) (metered : Bool) : Grounded (ofConfig config metered) := by
  simp [Grounded, ofConfig]

theorem submit_fst (b : Broker) (connection : Nat) (point : Point) (p : Packet) :
    (b.submit connection point p).1 =
      { number := b.chains, connection, point, supplied := p } := by
  unfold submit
  simp only
  split <;> rfl

theorem Orderly.submit {b : Broker} (h : Orderly b) {p : Packet} {point : Point}
    (hp : p.belongsTo point) (connection : Nat) :
    Orderly (b.submit connection point p).2 ∧
      (b.submit connection point p).1 ∈ (b.submit connection point p).2.waiting := by
  refine ⟨h.move (.submit connection point p), ?_⟩
  simp [Broker.submit, hp]

theorem Orderly.untold {b : Broker} (h : Orderly b) {c : Chain} (hc : c ∈ b.waiting) :
    told c b.journal = [] :=
  told_eq_nil fun e he htold => h.told_begun e he c htold hc

/-- What has come of a chain that was taken out of its lane in `b₀`. Its course is the fold of its
visits to the hooks that the roster of `b₀` holds for it. Each hook that was not passed over was handed
the packet to which the visits before it fold. The chain is suspended in the turn of the next hook, which
was handed the packet to which all visits fold, or its one report is that of the fold. -/
def RefinesFold (c : Chain) (b₀ : Broker) (ms : List Move) (b' : Broker) : Prop :=
  ∃ ms₁ ms₂ vs rest b, ms = ms₁ ++ ms₂ ∧ Course c b₀ ms₁ vs rest b ∧
    vs.map (·.1) ++ rest = b₀.roster.ordered c.connection c.point ∧ HandedOver c b₀ vs ∧
    ((∃ r rest' p b₁, rest = r :: rest' ∧ foldVisits c.supplied vs = .ok p ∧
        (∃ input turn, b.HandsOver c r.hook p input turn) ∧ Suspends c r rest' p b b₁ ∧ b' = b₁.play ms₂ ∧
        invocationsOf c b'.journal = handed c.supplied vs ++ [(r.hook.number, p)] ∧
        reportsOf c b'.journal = []) ∨
      (rest = [] ∨ ∃ f, foldVisits c.supplied vs = .error f) ∧
        b' = (b.report c (Report.ofFold c.point (foldVisits c.supplied vs))).play ms₂ ∧
        invocationsOf c b'.journal = handed c.supplied vs ∧
        reportsOf c b'.journal =
          [(Report.ofFold c.point (foldVisits c.supplied vs)).onConnection
            (b.roster.isClosed c.connection)])

theorem Tells.of_untold {c : Chain} {is : List (Nat × Packet)} {b b' : Broker} (h : Tells c is b b')
    (hb : told c b.journal = []) :
    invocationsOf c b'.journal = is ∧ reportsOf c b'.journal = [] := by
  obtain ⟨new, hj, hi, hr⟩ := h
  rw [hj, invocationsOf_append, reportsOf_append, hi, hr]
  simp [invocationsOf, reportsOf, hb]

theorem Stage.refinesFold {c : Chain} {b₀ b : Broker} {ms : List Move} (h : Stage c b₀ ms b)
    (hb₀ : told c b₀.journal = []) : RefinesFold c b₀ ms b := by
  cases h with
  | @suspended ms₁ ms₂ vs r rest p b₁ b₂ _ h hp hsus hplay hsilent hmem hms =>
    have htells := ((h.tells.trans hsus.tells).trans hsilent.tells).of_untold hb₀
    rw [List.append_nil] at htells
    exact ⟨ms₁, ms₂, vs, r :: rest, b₁, hms, h, h.hooks, h.handedOver,
      .inl ⟨r, rest, p, b₂, rfl, hp, handsOver b₁ c r.hook p, hsus, hplay.symm, htells⟩⟩
  | @reported ms₁ ms₂ vs rest b₁ _ h hend hplay hsilent hms =>
    obtain ⟨hinvoked, hreports⟩ := h.tells.of_untold hb₀
    obtain ⟨new, hj, hnew⟩ := hsilent
    have hnil := told_eq_nil hnew
    refine ⟨ms₁, ms₂, vs, rest, b₁, hms, h, h.hooks, h.handedOver, .inr ⟨hend, hplay.symm, ?_, ?_⟩⟩
    · rw [hj, report_journal, invocationsOf_append, invocationsOf_append, hinvoked]
      simp [invocationsOf, Event.invocation?, hnil]
    · rw [hj, report_journal, reportsOf_append, reportsOf_append, hreports]
      simp [reportsOf, Event.report?, hnil]

/-- A chain that waits goes on waiting untouched, or its turn comes and its course is a fold. -/
theorem waits_or_refinesFold {b : Broker} (ho : Orderly b) {c : Chain} (hc : c ∈ b.waiting)
    (ms : List Move) :
    (c ∈ (b.play ms).waiting ∧ told c (b.play ms).journal = []) ∨
      ∃ ms₁ ms₂ b₀, ms = ms₁ ++ .begin c.lane :: ms₂ ∧ Heads c (b.play ms₁) b₀ ∧
        RefinesFold c b₀ ms₂ (b.play ms) := by
  rcases waits_or_began ho hc ms with hc | ⟨ms₁, ms₂, b₀, hms, hheads, hstage⟩
  · exact .inl ⟨hc, (ho.play ms).untold hc⟩
  · refine .inr ⟨ms₁, ms₂, b₀, hms, hheads, hstage.refinesFold ?_⟩
    obtain ⟨before, after, hw, -, rfl⟩ := hheads.head
    exact (ho.play ms₁).untold (by simp [hw])

/-- Executing a packet at its point refines the fold over the hooks, in every run: the chain waits, or
it has begun and its course is the fold of its visits. In any case it can be brought to its report. -/
theorem execution_refines_fold (config : Config) (metered : Bool) (before : List Move)
    (connection : Nat) (point : Point) (p : Packet) (hp : p.belongsTo point) (after : List Move) :
    let b := (ofConfig config metered).play before
    let c := (b.submit connection point p).1
    let b₁ := (b.submit connection point p).2
    ((c ∈ (b₁.play after).waiting ∧ told c (b₁.play after).journal = []) ∨
        ∃ ms ms' b₀, after = ms ++ .begin c.lane :: ms' ∧ Heads c (b₁.play ms) b₀ ∧
          RefinesFold c b₀ ms' (b₁.play after)) ∧
      ∃ more, Reported c ((b₁.play after).play more).journal := by
  intro b c b₁
  have ho : Orderly b := (orderly_ofConfig config metered).play before
  have hg : Grounded b := (grounded_ofConfig config metered).play before
  obtain ⟨ho₁, hc⟩ := ho.submit hp connection
  have hg₁ : Grounded b₁ := hg.move (.submit connection point p)
  refine ⟨waits_or_refinesFold ho₁ hc after, ?_⟩
  have hheld : b₁.Holds c := .inl hc
  exact (hheld.play ho₁ after).finishes (ho₁.play after) (hg₁.play after)

/-- A hook that asks for ten milliseconds whenever it is invoked. -/
def slow : Ranked where
  priority := 0
  hook := {
    extension := "slow"
    point := .pingreqInbound
    number := 0
    respond := fun _ _ => .perform (.defer 10 .success) fun _ => .done }

def deferringMoves : List Move :=
  [.openConnection "client" .v5 none, .perform { connection := 0, turn := 0 } (.register "slow" 0),
    .add .shared "slow" .pingreqInbound .ping slow.hook.respond]

def deferring : Broker := (ofConfig {} true).play deferringMoves

def deferredPingreq (number : Nat) : Chain where
  number
  connection := 0
  point := .pingreqInbound
  supplied := .ping .request

theorem deferring_begins {b : Broker} {number : Nat} {rest : List Chain}
    (hroster : b.roster = deferring.roster) (hwaiting : b.waiting = deferredPingreq number :: rest)
    (hsuspended : b.suspended = []) :
    b.move (.begin (0, .pingreqInbound)) = proceed (deferredPingreq number) [slow] (.ping .request)
      ({ b with waiting := rest }.record (.began (deferredPingreq number))) := by
  have hheads : Heads (deferredPingreq number) b { b with waiting := rest } :=
    ⟨by simp [hsuspended], [], rest, hwaiting, by simp, rfl⟩
  have hordered : deferring.roster.ordered 0 .pingreqInbound = [slow] := List.mergeSort_singleton _
  rw [← hordered, ← hroster]
  exact hheads.move

theorem deferred_pingreq_refines_fold :
    (Packet.ping .request).belongsTo .pingreqInbound ∧
      let c := (deferring.submit 0 .pingreqInbound (.ping .request)).1
      let b₁ := (deferring.submit 0 .pingreqInbound (.ping .request)).2
      ∃ ms b₀, RefinesFold c b₀ ms (b₁.play [.begin (0, .pingreqInbound), .elapse 10, .wake 0]) := by
  refine ⟨by decide, ?_⟩
  intro c b₁
  rcases (execution_refines_fold {} true deferringMoves 0 .pingreqInbound (.ping .request) (by decide)
    [.begin (0, .pingreqInbound), .elapse 10, .wake 0]).1 with ⟨hwaiting, -⟩ | ⟨_, ms, b₀, -, -, hfold⟩
  · have hbegin := deferring_begins (b := b₁) rfl rfl rfl
    have hwaiting : c ∈ ((b₁.move (.begin (0, .pingreqInbound))).play [.elapse 10, .wake 0]).waiting :=
      hwaiting
    rw [hbegin] at hwaiting
    have hnone : c ∈ ([] : List Chain) := hwaiting
    cases hnone
  · exact ⟨ms, b₀, hfold⟩

/-- Two packets that are handed over at one point of a connection are executed one after the other, in
the order in which they came, in every run. Nothing is told of the later chain before the report of the
earlier one, and its hooks are those that the roster holds when its turn comes, after that report. -/
theorem executions_in_order (config : Config) (metered : Bool) (before : List Move) (connection : Nat)
    (point : Point) (p q : Packet) (hp : p.belongsTo point) (hq : q.belongsTo point)
    (between after : List Move) :
    let b₁ := (ofConfig config metered).play before
    let c := (b₁.submit connection point p).1
    let b₂ := (b₁.submit connection point p).2.play between
    let d := (b₂.submit connection point q).1
    let b := (b₂.submit connection point q).2
    Precedes c d (b.play after).journal ∧
      ((d ∈ (b.play after).waiting ∧ told d (b.play after).journal = []) ∨
        ∃ ms ms' b₀, after = ms ++ .begin d.lane :: ms' ∧ Heads d (b.play ms) b₀ ∧
          Reported c b₀.journal ∧ RefinesFold d b₀ ms' (b.play after)) := by
  intro b₁ c b₂ d b
  have ho₁ : Orderly b₁ := (orderly_ofConfig config metered).play before
  obtain ⟨ho, hc⟩ := ho₁.submit hp connection
  have ho₂ : Orderly b₂ := ho.play between
  obtain ⟨ho', hd⟩ := ho₂.submit hq connection
  have hheld₂ : b₂.Holds c := Holds.play (.inl hc) ho between
  have hheld : b.Holds c := hheld₂.move ho₂ (.submit connection point q)
  have hc_lane : c.lane = (connection, point) := congrArg Chain.lane (submit_fst ..)
  have hd_lane : d.lane = (connection, point) := congrArg Chain.lane (submit_fst ..)
  have hlane : c.lane = d.lane := hc_lane.trans hd_lane.symm
  have hlt : c.number < d.number := by
    have hd_number : d.number = b₂.chains := congrArg Chain.number (submit_fst ..)
    rw [hd_number]
    exact hheld₂.lt ho₂
  -- Nothing is told of the later chain before its turn comes, hence nothing out of order.
  have hnone : Precedes c d b.journal := by
    intro _ e _ heq htold
    have he : e ∈ b.journal := heq ▸ List.mem_append_right _ (List.mem_cons_self ..)
    exact absurd hd (ho'.told_begun e he d htold)
  refine ⟨precedes_play ho' hheld hlane hlt hnone after, ?_⟩
  apply (waits_or_refinesFold ho' hd after).imp_right
  rintro ⟨ms, ms', b₀, hms, hheads, hfold⟩
  refine ⟨ms, ms', b₀, hms, hheads, ?_, hfold⟩
  -- The later chain heads its lane, so the earlier one is neither waiting nor suspended any more.
  obtain ⟨first, rest, hw, hfirst, rfl⟩ := hheads.head
  have ht := (ho'.play ms).takes_waiting d hw hfirst hheads.free
  exact ht.reported (hheld.play ho' ms) hlane hlt

theorem deferred_pingreqs_in_order :
    (Packet.ping .request).belongsTo .pingreqInbound ∧
      let c := (deferring.submit 0 .pingreqInbound (.ping .request)).1
      let b₂ := (deferring.submit 0 .pingreqInbound (.ping .request)).2
      let d := (b₂.submit 0 .pingreqInbound (.ping .request)).1
      let b := (b₂.submit 0 .pingreqInbound (.ping .request)).2
      let after : List Move := [.begin (0, .pingreqInbound), .begin (0, .pingreqInbound), .elapse 10,
        .wake 0, .begin (0, .pingreqInbound)]
      Precedes c d (b.play after).journal ∧
        ∃ ms b₀, Reported c b₀.journal ∧ RefinesFold d b₀ ms (b.play after) := by
  refine ⟨by decide, ?_⟩
  intro c b₂ d b after
  obtain ⟨hprecedes, ⟨hwaiting, -⟩ | ⟨_, ms, b₀, -, -, hreported, hfold⟩⟩ :=
    executions_in_order {} true deferringMoves 0 .pingreqInbound (.ping .request) (.ping .request)
      (by decide) (by decide) [] after
  · -- While the first is suspended its lane is not free, so the second of the three beginnings is void.
    have hfirst := deferring_begins (b := b) rfl rfl rfl
    obtain ⟨b', hb'⟩ : ∃ b', b' = (b.move (.begin (0, .pingreqInbound))).play
        [.begin (0, .pingreqInbound), .elapse 10, .wake 0] := ⟨_, rfl⟩
    have hwaiting : d ∈ (b'.move (.begin (0, .pingreqInbound))).waiting := by
      rw [hb']
      exact hwaiting
    rw [hfirst] at hb'
    have hwaits : b'.waiting = [deferredPingreq 1] := by rw [hb']; rfl
    have hfree : b'.suspended = [] := by rw [hb']; rfl
    have hheads : Heads (deferredPingreq 1) b' { b' with waiting := [] } :=
      ⟨by simp [hfree], [], [], hwaits, by simp, rfl⟩
    have hmove : b'.move (.begin (0, .pingreqInbound)) = _ := hheads.move
    have hnone : (b'.move (.begin (0, .pingreqInbound))).waiting = [] := by
      rw [hmove]
      exact (begin_halts _ _ fun _ => False).told.2.1
    rw [hnone] at hwaiting
    cases hwaiting
  · exact ⟨hprecedes, ms, b₀, hreported, hfold⟩

end BrokerHooks.Broker
