import BrokerHooks.Delivery
import BrokerHooks.Proofs.Chain.Content

namespace BrokerHooks

/-- The packets whose chain closes the connection when it fails. -/
def Packet.closesOnFailure (inbound : Bool) : Packet → Bool
  | .connack _ => true
  | .ack p => inbound && (p.kind = .puback || p.kind = .pubcomp)
  | .connect _ | .subscribe _ | .suback _ | .unsubscribe _ | .unsuback _ | .ping _ | .disconnect _ => false

/-- The packets that are refused when their chain fails. -/
def Packet.refusedOnFailure : Packet → Bool
  | .connect _ | .subscribe _ | .unsubscribe _ => true
  | .connack _ | .ack _ | .suback _ | .unsuback _ | .ping _ | .disconnect _ => false

def FailureAck.refuses : FailureAck → Packet → Bool
  | .connack _, .connect _ | .suback _, .subscribe _ | .unsuback _, .unsubscribe _ => true
  | _, _ => false

/-- How a report on a packet that was sent through the point of its kind is delivered. -/
structure Delivers (inbound : Bool) (supplied : Packet) (failed closed : Prop) (clientId : String)
    (r : Report) (d : Delivery) : Prop where
  drop : d = .drop ↔ closed
  close : d = .closeConnection ↔ supplied.closesOnFailure inbound ∧ failed ∧ ¬closed
  refuse : (∃ ack, d = .failureAck ack) ↔ supplied.refusedOnFailure ∧ failed ∧ ¬closed
  refuses : ∀ ack, d = .failureAck ack → ack.refuses supplied
  proceed : supplied.closesOnFailure inbound = false → supplied.refusedOnFailure = false →
    d = .drop ∨ ∃ q, d = .proceed q
  /-- No failure acknowledgement is asked for where none can be made. -/
  acknowledged : ∀ code, r.outcome = .failureAck code → r.failure.isSome ∧ ∃ ack, d = .failureAck ack
  /-- The client identifier of the connection never serves, as the failure is always known. -/
  known : ∀ clientId', Delivery.ofReport clientId' (supplied.point inbound) r = d

/-- The one reaction of a point to failures; preventing a packet has the same effect as failing. -/
theorem Cause.reaction_eq (cause : Cause) (point : Point) : cause.reaction point = point.failureReaction := by
  cases cause with
  | prevented => cases point <;> rfl
  | _ => rfl

theorem Packet.failureReaction_point (p : Packet) (inbound : Bool) :
    (p.point inbound).failureReaction =
      if p.refusedOnFailure then .failureAck .unspecifiedError
      else if p.closesOnFailure inbound then .closeConnection else .forwardUnmodified := by
  cases p with
  | ack p =>
    obtain ⟨kind⟩ := p
    cases kind <;> cases inbound <;> rfl
  | ping p => cases p <;> rfl
  | disconnect p =>
    obtain ⟨direction⟩ := p
    cases direction <;> rfl
  | _ => rfl

theorem Packet.not_closes_of_refused {p : Packet} (h : p.refusedOnFailure) (inbound : Bool) :
    p.closesOnFailure inbound = false := by
  cases p <;> first | rfl | cases h

namespace Delivery

theorem ofReport_of_ne {r : Report} (h : ∀ code, r.outcome ≠ .failureAck code) (clientId : String)
    (point : Point) : ofReport clientId point r = ofOutcome r.outcome := by
  unfold ofReport
  split <;> simp_all

theorem ofReport_of_refused {p : Packet} (hp : p.refusedOnFailure) (inbound : Bool) {f : Failure}
    (hf : f.supplied = p) (code : ReasonCode) :
    ∃ ack, ack.refuses p ∧ ∀ clientId,
      ofReport clientId (p.point inbound) { outcome := .failureAck code, failure := some f } = .failureAck ack := by
  cases p with
  | connect p =>
    refine ⟨.connack (.refused code (connectReason p.clientId (some f))), rfl, fun clientId => ?_⟩
    simp [ofReport, Packet.point, connectReason, hf]
  | subscribe p =>
    refine ⟨.suback (.refusing p code subscribePrevented), rfl, fun clientId => ?_⟩
    simp [ofReport, Packet.point, refusal?, hf]
  | unsubscribe p =>
    refine ⟨.unsuback (.refusing p code unsubscribePrevented), rfl, fun clientId => ?_⟩
    simp [ofReport, Packet.point, refusal?, hf]
  | _ => cases hp

theorem ofOutcome_eq_drop (o : Outcome) : ofOutcome o = .drop ↔ o = .drop := by
  cases o <;> simp [ofOutcome]

theorem ofOutcome_eq_closeConnection {o : Outcome} (hne : ∀ code, o ≠ .failureAck code) :
    ofOutcome o = .closeConnection ↔ o = .closeConnection := by
  cases o with
  | failureAck code => exact absurd rfl (hne code)
  | _ => simp [ofOutcome]

theorem ofOutcome_ne_failureAck (o : Outcome) (ack : FailureAck) : ofOutcome o ≠ .failureAck ack := by
  cases o <;> simp [ofOutcome]

end Delivery

namespace Delivers

variable {inbound : Bool} {supplied : Packet} {failed closed : Prop} {r : Report}

/-- A report that asks for no acknowledgement is delivered as its outcome says. -/
theorem of_outcome (hne : ∀ code, r.outcome ≠ .failureAck code) (hdrop : r.outcome = .drop ↔ closed)
    (hclose : r.outcome = .closeConnection ↔ supplied.closesOnFailure inbound ∧ failed ∧ ¬closed)
    (hrefuse : ¬(supplied.refusedOnFailure ∧ failed ∧ ¬closed)) (clientId : String) :
    Delivers inbound supplied failed closed clientId r
      (Delivery.ofReport clientId (supplied.point inbound) r) := by
  rw [Delivery.ofReport_of_ne hne]
  have hack := Delivery.ofOutcome_ne_failureAck r.outcome
  exact {
    drop := (Delivery.ofOutcome_eq_drop _).trans hdrop
    close := (Delivery.ofOutcome_eq_closeConnection hne).trans hclose
    refuse := ⟨fun ⟨ack, h⟩ => absurd h (hack ack), fun h => absurd h hrefuse⟩
    refuses := fun ack h => absurd h (hack ack)
    proceed := fun hcloses _ => by
      have hopen := mt ((Delivery.ofOutcome_eq_closeConnection hne).trans hclose).1 (by simp [hcloses])
      cases hd : Delivery.ofOutcome r.outcome with
      | failureAck ack => exact absurd hd (hack ack)
      | closeConnection => exact absurd hd hopen
      | drop => exact .inl rfl
      | proceed q => exact .inr ⟨q, rfl⟩
    acknowledged := fun code h => absurd h (hne code)
    known := fun clientId' => Delivery.ofReport_of_ne hne .. }

theorem of_refused {f : Failure} (hrefused : supplied.refusedOnFailure) (hf : f.supplied = supplied)
    (hfailed : failed) (hopen : ¬closed) {code : ReasonCode}
    (hr : r = { outcome := .failureAck code, failure := some f }) (clientId : String) :
    Delivers inbound supplied failed closed clientId r
      (Delivery.ofReport clientId (supplied.point inbound) r) := by
  subst hr
  obtain ⟨ack, hrefuses, hack⟩ := Delivery.ofReport_of_refused hrefused inbound hf code
  rw [hack]
  exact {
    drop := ⟨nofun, fun h => absurd h hopen⟩
    close := ⟨nofun, fun h => by simp [supplied.not_closes_of_refused hrefused] at h⟩
    refuse := ⟨fun _ => ⟨hrefused, hfailed, hopen⟩, fun _ => ⟨ack, rfl⟩⟩
    refuses := fun ack' h => by cases h; exact hrefuses
    proceed := fun _ hnot => by rw [hrefused] at hnot; cases hnot
    acknowledged := fun _ _ => ⟨rfl, ack, rfl⟩
    known := hack }

theorem of_fold {fold : Except Failure Packet} (hsupplied : ∀ f, fold = .error f → f.supplied = supplied)
    (closed : Bool) (clientId : String) :
    let r := (Report.ofFold (supplied.point inbound) fold).onConnection closed
    Delivers inbound supplied (∃ f, fold = .error f) closed clientId r
      (Delivery.ofReport clientId (supplied.point inbound) r) := by
  intro r
  cases closed with
  | true =>
    -- On a closed connection the packet is dropped, whatever the fold has come to.
    have houtcome : r.outcome = .drop := Report.onConnection_outcome _ true
    apply of_outcome <;> simp [houtcome]
  | false =>
    have hr : r = Report.ofFold (supplied.point inbound) fold := rfl
    rw [hr]
    cases fold with
    | ok q => apply of_outcome <;> simp [Report.ofFold]
    | error f =>
      have hf := hsupplied f rfl
      have hreport : Report.ofFold (supplied.point inbound) (.error f) =
          { outcome := (supplied.point inbound).failureReaction.outcome f.supplied, failure := some f } := by
        simp only [Report.ofFold, Failure.report, Cause.reaction_eq]
      rw [hreport, supplied.failureReaction_point]
      split
      · rename_i hrefused
        exact of_refused hrefused hf ⟨f, rfl⟩ (by simp) rfl clientId
      · rename_i hrefused
        split
        · rename_i hcloses
          apply of_outcome <;> simp [Reaction.outcome, hcloses, hrefused]
        · rename_i hcloses
          apply of_outcome <;> simp [Reaction.outcome, hcloses, hrefused]

end Delivers

theorem Report.ofFold_failure {point : Point} {fold : Except Failure Packet} {f : Failure} :
    (ofFold point fold).failure = some f ↔ fold = .error f := by
  cases fold <;> simp [ofFold, Failure.report]

namespace Broker

theorem Visited.prevented {c : Chain} {r : Ranked} {rest : List Ranked} {p : Packet} {b b' : Broker}
    {ns : List Move} {v : Visit} (h : Visited c r rest p b ns v b') (hv : v.result p = .error .prevented) :
    c.point.preventReaction?.isSome := by
  cases v with
  | passedOver => cases hv
  | broke cause =>
    cases hv
    cases h with
    | broke hon hcall hcause => cases hcause
  | ended completion turn =>
    obtain ⟨history, rfl⟩ := h.turn_eq
    rw [Visit.result_ended] at hv
    split at hv
    · cases hv
    split at hv
    · rename_i hprevented
      exact (Turn.after_prevented _ hprevented).resolve_left nofun
    · cases hv

/-- A chain fails for a prevented packet only at a point that has a reaction to that. -/
theorem Course.prevented {c : Chain} {b₀ b : Broker} {ms : List Move} {vs : List (Ranked × Visit)}
    {rest : List Ranked} (h : Course c b₀ ms vs rest b) {f : Failure}
    (hf : foldVisits c.supplied vs = .error f) (hcause : f.cause = .prevented) :
    c.point.preventReaction?.isSome := by
  induction h with
  | began => cases hf
  | next h hp hv ih =>
    rw [foldVisits_concat_of_ok hp, foldVisit_eq_error, hcause] at hf
    exact hv.prevented hf.1

/-- Every packet that is sent through the point of its kind belongs there, so its chain queues up and is never
turned away. However the chain ends, the transport drops the packet if the connection is closed by then, and
otherwise does what the policy of the point says, depending only on whether a visit failed. -/
theorem pipelines_follow_policy (config : Config) (metered : Bool) (ms : List Move) :
    let start := ofConfig config metered
    let b := start.play ms
    (∀ connection p inbound,
      let submitted := b.submit connection (p.point inbound) p
      p.belongsTo (p.point inbound) ∧ submitted.1 ∈ submitted.2.waiting ∧ submitted.2.journal = b.journal) ∧
    ∀ e ∈ b.journal, ∀ c,
      (∀ inbound, e.event = .misrouted c → c.point ≠ c.supplied.point inbound) ∧
      ∀ r, e.event = .reported c r → ∃ vs b', Concluded start ms c vs b' ∧
        (∀ f, r.failure = some f ↔ foldVisits c.supplied vs = .error f) ∧
        (∀ f, r.failure = some f → f.cause = .prevented → c.point.preventReaction?.isSome) ∧
        ∀ inbound clientId, c.point = c.supplied.point inbound →
          Delivers inbound c.supplied (∃ f, foldVisits c.supplied vs = .error f)
            (b'.roster.isClosed c.connection) clientId r (Delivery.ofReport clientId c.point r) := by
  intro start b
  refine ⟨fun connection p inbound => ?_, fun e he c => ⟨fun inbound hmisrouted hpoint => ?_, fun r hr => ?_⟩⟩
  · have hp := p.belongsTo_point inbound
    simp [submit, hp]
  · have hstart : ∀ e ∈ start.journal, ∀ c, e.event ≠ .misrouted c := by simp [start, ofConfig]
    -- What is turned away does not belong to its point, but a packet belongs to the point of its kind.
    have hwrong := misrouted_play hstart ms e he c hmisrouted
    rw [hpoint] at hwrong
    exact hwrong (c.supplied.belongsTo_point inbound)
  · obtain ⟨vs, b', hconcluded, rfl⟩ := concluded_of_reported config metered ms he hr
    have hfailure : ∀ f, ((Report.ofFold c.point (foldVisits c.supplied vs)).onConnection
        (b'.roster.isClosed c.connection)).failure = some f ↔ foldVisits c.supplied vs = .error f := by
      intro f
      rw [Report.onConnection_failure, Report.ofFold_failure]
    refine ⟨vs, b', hconcluded, hfailure, fun f hf hcause => ?_, fun inbound clientId hpoint => ?_⟩
    · obtain ⟨_, _, _, _, _, -, -, hcourse, -, -⟩ := hconcluded
      exact hcourse.prevented ((hfailure f).1 hf) hcause
    · rw [hpoint]
      exact .of_fold (fun f => foldVisits_supplied) _ clientId

def guard : Ranked where
  priority := 0
  hook := {
    extension := "guard"
    point := .subscribeInbound
    number := 0
    respond := fun _ _ => .perform .prevent fun _ => .done }

def guardingMoves : List Move :=
  [.openConnection "client" .v5 none, .perform { connection := 0, turn := 0 } (.register "guard" 0),
    .add .shared "guard" .subscribeInbound .subscribe guard.hook.respond]

def guarded : SubscribePacket where
  packetId := 3
  subscriptions := [{ topicFilter := "a/b", qos := .atMostOnce }, { topicFilter := "c", qos := .atLeastOnce }]

theorem prevented_subscribe_refused :
    let ms := guardingMoves ++ [.submit 0 .subscribeInbound (.subscribe guarded), .begin (0, .subscribeInbound)]
    ∃ e ∈ ((ofConfig {} true).play ms).journal, ∃ c r, e.event = .reported c r ∧
      c.point.preventReaction?.isSome ∧ ∀ clientId, Delivery.ofReport clientId c.point r =
        .failureAck (.suback (.refusing guarded .unspecifiedError Delivery.subscribePrevented)) := by
  intro ms
  let start := (ofConfig {} true).play guardingMoves
  have hordered : start.roster.ordered 0 .subscribeInbound = [guard] := List.mergeSort_singleton _
  have hidle : start.waiting = [] := rfl
  have hplay : (ofConfig {} true).play ms = _ :=
    (play_append ..).trans (play_alone (p := .subscribe guarded) hidle rfl (by decide) hordered)
  obtain ⟨e, he, c, r, hr, hpoint, ⟨f, hf, hcause⟩, hdelivered⟩ :
      ∃ e ∈ ((ofConfig {} true).play ms).journal, ∃ c r, e.event = .reported c r ∧
        c.point = c.supplied.point true ∧ (∃ f, r.failure = some f ∧ f.cause = .prevented) ∧
        Delivery.ofReport "client" c.point r =
          .failureAck (.suback (.refusing guarded .unspecifiedError Delivery.subscribePrevented)) := by
    rw [hplay]
    exact ⟨_, List.mem_append_right _ (List.mem_singleton_self _), _, _, rfl, rfl, ⟨_, rfl, rfl⟩, rfl⟩
  obtain ⟨vs, b', -, -, hprevented, hdelivers⟩ := ((pipelines_follow_policy {} true ms).2 e he c).2 r hr
  refine ⟨e, he, c, r, hr, hprevented f hf hcause, fun clientId => ?_⟩
  rw [hpoint, (hdelivers true "client" hpoint).known clientId, hdelivered]

end Broker
end BrokerHooks
