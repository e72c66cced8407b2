import BrokerHooks.Broker.Perform

namespace BrokerHooks

theorem RateLimiter.exceeded_cases (r : RateLimiter) (now : Nat) : (r.exceeded now).1 = false ∨
    r.exceeded now = (true, { r with calls := r.calls + 1, reserve := r.reserve + 1 }) := by
  unfold exceeded
  split
  · exact .inl rfl
  split
  · exact .inl rfl
  dsimp only
  split
  · exact .inl rfl
  · cases decide (r.limit < (r.reserve + 1 : Nat)) with
    | false => exact .inl rfl
    | true => exact .inr rfl

namespace Broker

def turnedAway (b : Broker) : Broker :=
  { b with
    limiter := { b.limiter with calls := b.limiter.calls + 1, reserve := b.limiter.reserve + 1 }
    metrics := if b.metered then b.metrics.serviceDenied else b.metrics
    journal := b.journal ++ [{ time := b.now, event := .denied }] }

theorem check_cases (b : Broker) : b.check = (.error .rateLimitExceeded, b.turnedAway) ∨
    ∃ limiter, b.check = (.ok (), { b with limiter }) := by
  unfold check
  rcases b.limiter.exceeded_cases b.now with hadmitted | hdenied
  · refine .inr ⟨(b.limiter.exceeded b.now).2, ?_⟩
    simp only [hadmitted]
    rfl
  · refine .inl ?_
    simp only [hdenied, if_true, meter, record, turnedAway]
    split <;> rfl

@[elab_as_elim]
theorem admitted_induction {α : Type} {motive : Except ServiceError α × Broker → Prop} (b : Broker)
    (f : Broker → α × Broker) (denied : motive (.error .rateLimitExceeded, b.turnedAway))
    (admitted : ∀ limiter, motive (.ok (f { b with limiter }).1, (f { b with limiter }).2)) :
    motive (b.admitted f) := by
  unfold Broker.admitted
  rcases check_cases b with hdenied | ⟨limiter, hadmitted⟩
  · rw [hdenied]
    exact denied
  · rw [hadmitted]
    exact admitted limiter

inductive Disconnects (b : Broker) (clientId : String) (reason : Option ReasonCode) :
    Except ServiceError Bool × Broker → Prop where
  | unsuitable {code : ReasonCode} (hreason : reason = some code) (hcode : code.inServerDisconnect = false) :
      Disconnects b clientId reason (.error (.invalidReasonCode code), b)
  | denied (hreason : ∀ code ∈ reason, code.inServerDisconnect) :
      Disconnects b clientId reason (.error .rateLimitExceeded, b.turnedAway)
  | unknown (hreason : ∀ code ∈ reason, code.inServerDisconnect) (limiter : RateLimiter)
      (htracked : b.roster.tracked? clientId = none) :
      Disconnects b clientId reason (.ok false, { b with limiter })
  | closes (hreason : ∀ code ∈ reason, code.inServerDisconnect) (limiter : RateLimiter) {c : Nat}
      (htracked : b.roster.tracked? clientId = some c) :
      Disconnects b clientId reason
        (.ok (b.roster.close c reason).1, { b with limiter, roster := (b.roster.close c reason).2 })

theorem disconnects (b : Broker) (clientId : String) (reason : Option ReasonCode) :
    Disconnects b clientId reason (b.disconnectClient clientId reason) := by
  unfold disconnectClient
  cases hunsuitable : reason.filter (!·.inServerDisconnect) with
  | some code =>
    obtain ⟨hreason, hcode⟩ := Option.filter_eq_some_iff.1 hunsuitable
    exact .unsuitable hreason (by simpa using hcode)
  | none =>
    have hreason : ∀ code ∈ reason, code.inServerDisconnect := by
      simpa [Option.filter_eq_none_iff] using hunsuitable
    refine admitted_induction b _ (.denied hreason) fun limiter => ?_
    cases htracked : b.roster.tracked? clientId with
    | none => exact .unknown hreason limiter htracked
    | some c => exact .closes hreason limiter htracked

end Broker
end BrokerHooks
