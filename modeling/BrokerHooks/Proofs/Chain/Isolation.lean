import BrokerHooks.Proofs.Chain.OwnTurn

namespace BrokerHooks

open Broker filtering

/-- Failures are isolated, and chains compose. A chain over `A ++ h :: B` that fails at `h` reports what
depends on the cause, the point and the supplied packet alone, with the packet that a chain over `A`
proceeds with as the last good one. A chain over `A ++ B` reports what a chain over `B` reports of the
packet that a chain over `A` proceeds with, but for the packet that was supplied. -/
theorem failures_isolated_chains_compose (point : Point) (p : Packet) (A : List Interceptor) :
    (∀ (h : Interceptor) (B : List Interceptor) (cause : Cause) (X : Execution point p),
      X.Over (A ++ h :: B) → X.FailsAt A.length cause →
      ∃ q, X.report =
          { outcome := (cause.reaction point).outcome p
            failure := some { extension := h.extension, cause, supplied := p, lastGood := q } } ∧
        (∀ Y : Execution point p, Y.identity = X.identity → Y.Over A →
          Y.report = { outcome := .proceed q }) ∧
        (∀ (B' : List Interceptor) (X' : Execution point p), X'.identity = X.identity →
          X'.Over (A ++ h :: B') → X'.report = X.report) ∧
        (∀ (A' : List Interceptor) (h' : Interceptor) (B' : List Interceptor)
          (X' : Execution point p), X'.Over (A' ++ h' :: B') → X'.FailsAt A'.length cause →
          X'.report.outcome = X.report.outcome) ∧
        (cause.reaction point = .forwardUnmodified → X.report.outcome = .proceed p)) ∧
      ∀ (B : List Interceptor) (q : Packet) (Y X : Execution point p) (Z : Execution point q),
        X.identity = Y.identity → Z.identity = Y.identity → Y.Over A →
        Y.report = { outcome := .proceed q } → X.Over (A ++ B) → Z.Over B →
        X.report.failure = Z.report.failure.map (fun f => { f with supplied := p }) ∧
          X.report.outcome =
            if Z.report.failure.any (fun f => f.cause.reaction point = .forwardUnmodified) then
              .proceed p
            else Z.report.outcome := by
  constructor
  · intro h B cause X hover hfails
    obtain ⟨q, hA, hfold⟩ := hfails.fold X hover
    have hreport : X.report = Report.ofFold point (.error
        { extension := h.extension, cause, supplied := p, lastGood := q }) := by
      rw [X.report_eq hover, hfold B]
    refine ⟨q, hreport, ?_, ?_, ?_, ?_⟩
    · intro Y hid hY
      rw [Y.report_eq hY, hid, hA]
      rfl
    · intro B' X' hid hX'
      rw [X'.report_eq hX', hid, hfold B', hreport]
    · intro A' h' B' X' hX' hfails'
      obtain ⟨q', -, hfold'⟩ := hfails'.fold X' hX'
      rw [X'.report_eq hX', hfold' B', hreport]
      rfl
    · intro hforward
      rw [hreport]
      simp [Report.ofFold, Failure.report, hforward, Reaction.outcome]
  · intro B q Y X Z hXY hZY hY hproceeds hX hZ
    -- A report without a failure is that of a fold that made the packet.
    have hA : Interceptor.fold Y.identity p p A = .ok q := by
      rw [Y.report_eq hY] at hproceeds
      cases hfold : Interceptor.fold Y.identity p p A with
      | ok q' =>
        rw [hfold] at hproceeds
        obtain rfl : q' = q := by simpa [Report.ofFold] using hproceeds
        rfl
      | error f =>
        rw [hfold] at hproceeds
        simp [Report.ofFold, Failure.report] at hproceeds
    have hXB : X.report = Report.ofFold point (Interceptor.fold Y.identity p q B) := by
      rw [X.report_eq hX, hXY, Interceptor.fold_append, hA]
      rfl
    have hZB : Z.report = Report.ofFold point (Interceptor.fold Y.identity q q B) := by
      rw [Z.report_eq hZ, hZY]
    -- The rest of the long chain and the chain on its own differ only in what a failure says was supplied.
    rw [Interceptor.fold_supplied Y.identity q p q B] at hXB
    rw [hXB, hZB]
    cases Interceptor.fold Y.identity q q B with
    | ok q' => exact ⟨rfl, rfl⟩
    | error f =>
      refine ⟨rfl, ?_⟩
      have houtcome : ∀ f : Failure, (Report.ofFold point (.error f)).outcome =
          (f.cause.reaction point).outcome f.supplied := fun _ => rfl
      have hmap : (Except.error f : Except Failure Packet).mapError (fun f => { f with supplied := p }) =
          .error { f with supplied := p } := rfl
      rw [hmap, houtcome, houtcome]
      cases hreaction : f.cause.reaction point <;>
        simp [Report.ofFold, Failure.report, hreaction, Reaction.outcome]

/-- A PUBREC that loses a property to one program and is refused by the next. -/
theorem removal_isolated_from_refusal :
    removingThenRefusing.FailsAt 1 (.error (.other "refused")) ∧
      removing.report = { outcome := .proceed untraced } ∧
      removingThenRefusing.report.failure.map (·.lastGood) = some untraced ∧
      removingThenRefusing.report.outcome = .proceed traced ∧
      removingThenRefusing.report.failure =
        refusing.report.failure.map (fun f => { f with supplied := traced }) := by
  have hfails : removingThenRefusing.FailsAt 1 (.error (.other "refused")) :=
    removingThenRefusing.failsAt_of_fold (A := [remove]) (B := []) (q := untraced)
      removingThenRefusing_over (by rfl) rfl
  have hremoving : removing.report = { outcome := .proceed untraced } := rfl
  obtain ⟨hfailure, hcompose⟩ := failures_isolated_chains_compose .pubrecInbound traced [remove]
  obtain ⟨q, hreport, hproceeds, -, -, hforward⟩ :=
    hfailure refuse [] _ removingThenRefusing removingThenRefusing_over hfails
  have hq := (hproceeds removing rfl removing_over).symm.trans hremoving
  obtain rfl : q = untraced := by simpa using hq
  have hcomposed := hcompose [refuse] untraced removing removingThenRefusing refusing rfl rfl
    removing_over hremoving removingThenRefusing_over refusing_over
  exact ⟨hfails, hremoving, by rw [hreport]; rfl, hforward rfl, hcomposed.1⟩

end BrokerHooks
