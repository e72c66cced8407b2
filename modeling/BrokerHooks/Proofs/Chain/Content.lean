import BrokerHooks.Proofs.Chain.Conclusion
import BrokerHooks.Proofs.Chain.Outcome
import BrokerHooks.Proofs.Chain.OwnTurn
import BrokerHooks.Proofs.Draft.Content

namespace BrokerHooks

theorem foldVisits_supplied {supplied : Packet} {vs : List (Ranked × Visit)} {f : Failure}
    (h : foldVisits supplied vs = .error f) : f.supplied = supplied := by
  induction vs using List.reverseRecOn with
  | nil => cases h
  | append_singleton vs x ih =>
    rw [foldVisits_concat] at h
    cases hp : foldVisits supplied vs with
    | error f' =>
      rw [hp] at h
      cases h
      exact ih hp
    | ok p =>
      rw [hp] at h
      exact (foldVisit_eq_error.1 h).2.2.1

/-- A failure that lets a packet go on lets the one go on that was handed over. -/
theorem Failure.proceeds_supplied {f : Failure} {point : Point} {q : Packet}
    (h : (f.report point).outcome = .proceed q) : q = f.supplied := by
  unfold report Reaction.outcome at h
  simp only at h
  split at h <;> cases h
  rfl

namespace Broker

section

variable {c : Chain} {r : Ranked} {rest : List Ranked} {p : Packet} {b b' : Broker} {ns : List Move}

theorem Visited.turn_eq {completion : Completion} {turn : Turn}
    (h : Visited c r rest p b ns (.ended completion turn) b') :
    ∃ history, turn = (Turn.fresh c.point b.limits b.maxTimeout p).after history := by
  -- The look at which the turn is seen to have ended is the last thing that its history tells of.
  have hpolled {b₁ : Broker} {history : List (Nat × Turn.Act)}
      (hturn : b₁.turn? b.turns.length =
        some ((Turn.fresh c.point b.limits b.maxTimeout p).after history))
      (hends : b₁.Ended b.turns.length completion turn) :
      ∃ history, turn = (Turn.fresh c.point b.limits b.maxTimeout p).after history := by
    obtain ⟨t, ht, hpoll⟩ := hends
    obtain rfl := Option.some.inj (ht.symm.trans hturn)
    refine ⟨history ++ [(b₁.now, .poll)], ?_⟩
    rw [Turn.after_append]
    exact (congrArg Prod.snd hpoll).symm
  cases h with
  | @atOnce _ _ b₁ hon hcall hends =>
    have hturn := callback_turn? b c r p
    rw [hcall] at hturn
    exact hpolled hturn hends
  | @awaited _ _ b₁ b₂ ms before after hsus hplay hsilent hmem hends =>
    have hturn := (story_walk b₁ ms).turn?_eq hsus.turn?
    rw [hplay] at hturn
    rw [← Turn.after_cons, ← Turn.after_append] at hturn
    exact hpolled hturn hends

/-- What a hook makes of its packet comes about by accepted changes. -/
theorem Visited.becomes {v : Visit} (h : Visited c r rest p b ns v b') {q : Packet}
    (hq : v.result p = .ok q) : p.Becomes b.limits q := by
  cases v with
  | passedOver =>
    cases hq
    exact .refl
  | broke cause => cases hq
  | ended completion turn =>
    obtain ⟨history, hturn⟩ := h.turn_eq
    rw [Visit.result_ended] at hq
    split at hq
    · cases hq
    split at hq <;> cases hq
    rw [hturn]
    exact (Turn.after_becomes (.fresh c.point b.limits b.maxTimeout p) history).2

end

section

variable {c : Chain} {b₀ b : Broker} {ms : List Move} {vs : List (Ranked × Visit)} {rest : List Ranked}

theorem Course.limits (h : Course c b₀ ms vs rest b) {p : Packet}
    (hp : foldVisits c.supplied vs = .ok p) : b.limits = b₀.limits := by
  have hbegan := (begin_walk b₀ c).append (story_walk (b₀.begin c) ms)
  rw [h.play hp] at hbegan
  rw [← (proceed_walk c rest p b).limits, hbegan.limits]

/-- The packet to which the visits fold comes about by accepted changes. -/
theorem Course.becomes (h : Course c b₀ ms vs rest b) {q : Packet}
    (hq : foldVisits c.supplied vs = .ok q) : c.supplied.Becomes b₀.limits q := by
  induction h generalizing q with
  | began =>
    cases hq
    exact .refl
  | @next ms ns vs r rest p v b b' h hp hv ih =>
    rw [foldVisits_concat_of_ok hp, foldVisit_eq_ok] at hq
    have hlast := hv.becomes hq
    rw [h.limits hp] at hlast
    exact (ih hp).trans hlast

theorem Course.handed_becomes (h : Course c b₀ ms vs rest b) :
    ∀ x ∈ handed c.supplied vs, c.supplied.Becomes b₀.limits x.2 := by
  induction h with
  | began => simp [handed]
  | next h hp hv ih =>
    rw [handed_concat hp]
    intro x hx
    rcases List.mem_append.1 hx with hx | hx
    · exact ih x hx
    · split at hx
      · obtain rfl := List.mem_singleton.1 hx
        exact h.becomes hp
      · cases hx

end

theorem Heads.limits {config : Config} {metered : Bool} {ms : List Move} {c : Chain} {b₀ : Broker}
    (h : Heads c ((ofConfig config metered).play ms) b₀) : b₀.limits = config.packetLimits := by
  obtain ⟨before, after, -, -, rfl⟩ := h.head
  exact (story_walk (ofConfig config metered) ms).limits

/-- A packet that a hook is handed is what accepted changes have made of the one that was handed over. -/
theorem invoked_becomes (config : Config) (metered : Bool) (ms : List Move) {e : Entry}
    (he : e ∈ ((ofConfig config metered).play ms).journal) {c : Chain} {h : Nat} {q : Packet}
    (hinvoked : e.event = .invoked c h q) : c.supplied.Becomes config.packetLimits q := by
  have ho := orderly_ofConfig config metered
  have hstart : ¬(ofConfig config metered).HasBegun c := by simp [HasBegun, ofConfig]
  obtain ⟨ms₁, ms₂, b₀, rfl, hheads, hstage⟩ := staged ho hstart (.inr ⟨e, he, by rw [hinvoked]; rfl⟩)
  obtain ⟨ns, ms₃, vs, rest, b, -, hcourse, -, -, hend⟩ := hstage.refinesFold (hheads.untold (ho.play ms₁))
  have hmem := mem_invocationsOf he hinvoked
  rw [← hheads.limits]
  rcases hend with ⟨r, _, p, _, -, hp, -, -, -, his, -⟩ | ⟨-, -, his, -⟩ <;> rw [his] at hmem
  · rcases List.mem_append.1 hmem with hmem | hmem
    · exact hcourse.handed_becomes _ hmem
    · obtain ⟨-, rfl⟩ := Prod.mk.inj (List.mem_singleton.1 hmem)
      exact hcourse.becomes hp
  · exact hcourse.handed_becomes _ hmem

theorem Concluded.becomes {config : Config} {metered : Bool} {ms : List Move} {c : Chain}
    {vs : List (Ranked × Visit)} {b : Broker} (h : Concluded (ofConfig config metered) ms c vs b) {q : Packet}
    (hq : foldVisits c.supplied vs = .ok q) : c.supplied.Becomes config.packetLimits q := by
  obtain ⟨ms₁, ms₂, ms₃, b₀, rest, -, hheads, hcourse, -, -⟩ := h
  exact hheads.limits ▸ hcourse.becomes hq

/-- A packet that leaves a chain is what accepted changes have made of the one that was handed over. -/
theorem proceeds_becomes (config : Config) (metered : Bool) (ms : List Move) {e : Entry}
    (he : e ∈ ((ofConfig config metered).play ms).journal) {c : Chain} {q : Packet}
    (hout : e.event.outcome? = some (c, .proceed q)) : c.supplied.Becomes config.packetLimits q := by
  -- Two events let a packet go on: a turning away, which leaves it alone, and a report.
  cases hevent : e.event with
  | misrouted d =>
    rw [hevent] at hout
    cases hout
    exact .refl
  | reported d r =>
    rw [hevent] at hout
    obtain ⟨rfl, hr⟩ : d = c ∧ r.outcome = .proceed q := by simpa [Event.outcome?] using hout
    obtain ⟨vs, b, hconcluded, rfl⟩ := concluded_of_reported config metered ms he hevent
    rw [Report.onConnection_outcome] at hr
    split at hr
    · cases hr
    cases hfold : foldVisits d.supplied vs with
    | error f =>
      rw [hfold] at hr
      rw [Failure.proceeds_supplied hr, foldVisits_supplied hfold]
    | ok p =>
      rw [hfold] at hr
      cases hr
      exact hconcluded.becomes hfold
  | began | invoked | expired | denied | noted =>
    rw [hevent] at hout
    cases hout

theorem play_alone {start : Broker} (hwaiting : start.waiting = []) (hsuspended : start.suspended = [])
    {connection : Nat} {point : Point} {p : Packet} (hp : p.belongsTo point) {hooks : List Ranked}
    (hhooks : start.roster.ordered connection point = hooks) :
    let c := (start.submit connection point p).1
    start.play [.submit connection point p, .begin (connection, point)] =
      proceed c hooks p ({ (start.submit connection point p).2 with waiting := [] }.record (.began c)) := by
  intro c
  have hheads : Heads c (start.submit connection point p).2
      { (start.submit connection point p).2 with waiting := [] } :=
    ⟨by simp [submit, hp, hsuspended], [], [], by simp [c, submit, hp, hwaiting], by simp, rfl⟩
  have hlane : c.lane = (connection, point) := congrArg Chain.lane (submit_fst ..)
  rw [← begin_alone hp hhooks, ← hheads.move, hlane]
  rfl

def filtered : List Move :=
  [.submit 0 .pubrecInbound filtering.traced, .begin (0, .pubrecInbound)]

theorem filtered_eq (program : Program) :
    let start := filtering [program]
    let c := (start.submit 0 .pubrecInbound filtering.traced).1
    start.play filtered = proceed c [filtering.hook 0 program] filtering.traced
      ({ (start.submit 0 .pubrecInbound filtering.traced).2 with waiting := [] }.record (.began c)) :=
  play_alone rfl rfl (by decide) (filtering.ordered _ rfl (by simp))

/-- Reason codes never switch sides, neither by any calls to one draft nor by all that the hooks of a chain do
to their drafts: a packet that goes on reports what the packet reports that was handed over. -/
theorem reason_codes_keep_sides :
    (∀ (limits : PacketLimits) (p : Packet) (cs : List Call),
      p.ReportsAs ((Draft.ofPacket limits p).after cs).packet) ∧
    ∀ (config : Config) (metered : Bool) (ms : List Move),
      ∀ e ∈ ((ofConfig config metered).play ms).journal, ∀ c q,
        e.event.outcome? = some (c, .proceed q) → c.supplied.ReportsAs q := by
  refine ⟨fun limits p cs => ?_, fun config metered ms e he c q hout => ?_⟩
  · exact ((Draft.ofPacket limits p).after_becomes cs).2.reportsAs
  · exact (proceeds_becomes config metered ms he hout).reportsAs

def recoding : Program :=
  .perform (.call (.edit (.ackReasonCode .noMatchingSubscribers))) fun _ =>
    .perform (.call (.edit (.ackReasonCode .unspecifiedError))) fun _ => .done

theorem recoded_pubrec_keeps_side : ∃ e ∈ ((filtering [recoding]).play filtered).journal, ∃ c q,
    e.event.outcome? = some (c, .proceed q) ∧ q.reasonCodes = [.noMatchingSubscribers] ∧
      c.supplied.reasonCodes = [.success] ∧ c.supplied.ReportsAs q := by
  obtain ⟨e, he, c, q, hout, hcodes, hsupplied⟩ : ∃ e ∈ ((filtering [recoding]).play filtered).journal, ∃ c q,
      e.event.outcome? = some (c, .proceed q) ∧ q.reasonCodes = [.noMatchingSubscribers] ∧
        c.supplied.reasonCodes = [.success] := by
    rw [filtered_eq]
    exact ⟨_, List.mem_append_right _ (List.mem_singleton_self _), _, _, rfl, rfl, rfl⟩
  refine ⟨e, he, c, q, hout, hcodes, hsupplied, ?_⟩
  obtain ⟨config, metered, ms, hstart⟩ := filtering.reachable [recoding]
  rw [hstart, ← play_append] at he
  exact reason_codes_keep_sides.2 config metered _ e he c q hout

/-- In every run, a packet that leaves a chain is what was handed over in all that has no setter, so it belongs
to the same points. -/
theorem chains_keep_fixed (config : Config) (metered : Bool) (ms : List Move) :
    ∀ e ∈ ((ofConfig config metered).play ms).journal, ∀ c q,
      e.event.outcome? = some (c, .proceed q) →
        q.fixed = c.supplied.fixed ∧ ∀ point, q.belongsTo point = c.supplied.belongsTo point := by
  intro e he c q hout
  have hfixed := (proceeds_becomes config metered ms he hout).fixed
  exact ⟨hfixed, Packet.belongsTo_of_fixed hfixed⟩

theorem stripped_pubrec_keeps_fixed :
    ∃ e ∈ ((filtering [filtering.removal]).play filtered).journal, ∃ c q,
      e.event.outcome? = some (c, .proceed q) ∧ q ≠ c.supplied ∧
        q.fixed = .ack .pubrec 7 ∧ q.fixed = c.supplied.fixed := by
  obtain ⟨e, he, c, q, hout, hchanged, hkind⟩ :
      ∃ e ∈ ((filtering [filtering.removal]).play filtered).journal, ∃ c q,
        e.event.outcome? = some (c, .proceed q) ∧ q ≠ c.supplied ∧ q.fixed = .ack .pubrec 7 := by
    rw [filtered_eq]
    exact ⟨_, List.mem_append_right _ (List.mem_singleton_self _), _, _, rfl, by decide, rfl⟩
  refine ⟨e, he, c, q, hout, hchanged, hkind, ?_⟩
  obtain ⟨config, metered, ms, hstart⟩ := filtering.reachable [filtering.removal]
  rw [hstart, ← play_append] at he
  exact (chains_keep_fixed config metered _ e he c q hout).1

end Broker

end BrokerHooks
