import BrokerHooks.Proofs.Metrics.Balance
import BrokerHooks.Proofs.Metrics.Calls
import BrokerHooks.Proofs.Run.Story

namespace BrokerHooks

def exceedsLimit {α : Type} : Except ServiceError α → Bool
  | .error .rateLimitExceeded => true
  | .error (.invalidReasonCode _) | .ok _ => false

def Op.isDenied : (op : Op) → op.Answer → Bool
  | .check, answer => exceedsLimit answer
  | .isConnected _, answer | .disconnectClient _ _, answer => exceedsLimit answer
  | _, _ => false

namespace Broker

def Deed.isDenied : Deed → Bool
  | .did b s op => op.isDenied (b.perform s op).1
  | .began _ _ | .invoked _ _ _ _ | .looked _ _ _ => false

/-- From `b` to `b'` one service call is counted if one is denied, and none otherwise. -/
structure Denies (denied : Bool) (b b' : Broker) : Prop where
  metered : b'.metered = true
  denied : b'.metrics.denied = b.metrics.denied + denied.toNat

theorem check_denies {b : Broker} (h : b.metered) : Denies (exceedsLimit b.check.1) b b.check.2 := by
  unfold check
  simp only
  split
  · exact ⟨by simp [meter, h, record], by simp [meter, h, record, Metrics.serviceDenied, exceedsLimit]⟩
  · exact ⟨h, rfl⟩

theorem admitted_denies {α : Type} {b : Broker} (h : b.metered) {f : Broker → α × Broker}
    (hf : ∀ b, b.metered → Denies false b (f b).2) : Denies (exceedsLimit (b.admitted f).1) b (b.admitted f).2 := by
  have hcheck := check_denies h
  unfold admitted
  split <;> rename_i heq <;> rw [heq] at hcheck
  · rename_i e _
    cases e <;> exact hcheck
  · have hthen := hf _ hcheck.metered
    exact ⟨hthen.metered, hthen.denied.trans hcheck.denied⟩

theorem perform_denies {b : Broker} (h : b.metered) (s : Site) (op : Op) :
    Denies (op.isDenied (b.perform s op).1) b (b.perform s op).2 := by
  have hturn {α : Type} (default : α) (f : Turn → α × Turn) : Denies false b (b.onTurn s default f).2 := by
    unfold onTurn
    split <;> exact ⟨h, rfl⟩
  cases op with
  | call | defer | resume | prevent | view => exact hturn _ _
  | close | resolve | register | remove | enable | disable | isEnabled | note => exact ⟨h, rfl⟩
  | check => exact check_denies h
  | isConnected clientId => exact admitted_denies h fun b hb => ⟨hb, rfl⟩
  | disconnectClient clientId reason =>
    unfold perform Op.isDenied disconnectClient
    simp only
    split
    · exact ⟨h, rfl⟩
    · refine admitted_denies h fun b hb => ?_
      split <;> exact ⟨hb, rfl⟩

theorem standing_denies {b : Broker} (h : b.metered) (c : Chain) (turn : Nat) :
    Denies false b (b.standing c turn).2 := by
  unfold standing
  split
  · exact ⟨h, rfl⟩
  · rename_i t _
    cases t.poll b.now with
    | mk completion t' =>
      cases completion with
      | none => exact ⟨h, rfl⟩
      | some completion =>
        cases completion with
        | immediate | resumed => exact ⟨h, rfl⟩
        | timedOut fallback =>
          exact ⟨by simp [meter, setTurn, h, record], by simp [meter, setTurn, h, record, Metrics.timedOut]⟩

theorem Deed.denies (d : Deed) (h : d.before.metered) : Denies d.isDenied d.before d.after := by
  cases d with
  | began | invoked => exact ⟨h, rfl⟩
  | did b s op => exact perform_denies h s op
  | looked b c turn => exact standing_denies h c turn

theorem Walk.denied {b b' : Broker} {ds : List Deed} (h : Walk b ds b') (hmetered : b.metered) :
    b'.metrics.denied = b.metrics.denied + ds.countP Deed.isDenied := by
  induction h with
  | drift h => exact h.denied
  | @deed b b' d ds h _ ih =>
    have hbefore : d.before.metered := h.metered.trans hmetered
    have hdenies := d.denies hbefore
    rw [ih hdenies.metered, hdenies.denied, h.denied, List.countP_cons]
    cases d.isDenied <;> simp
    omega

/-- Chains are reported only of packets that belong to their points. -/
theorem reported_play {start : Broker} (hroute : Routed start)
    (hstart : ∀ e ∈ start.journal, ∀ c r, e.event ≠ .reported c r) (ms : List Move) :
    ∀ e ∈ (start.play ms).journal, ∀ c r, e.event = .reported c r → c.supplied.belongsTo c.point := by
  have hplay : Routed (start.play ms) ∧
      ∀ e ∈ (start.play ms).journal, ∀ c r, e.event = .reported c r → c.supplied.belongsTo c.point := by
    refine play_preserves (P := fun b => Routed b ∧
      ∀ e ∈ b.journal, ∀ c r, e.event = .reported c r → c.supplied.belongsTo c.point)
      (fun b m ⟨hb, h⟩ => ⟨hb.move m, fun e he c r hr => ?_⟩)
      ⟨hroute, fun e he c r hr => absurd hr (hstart e he c r)⟩ ms
    obtain ⟨new, hj, hnew⟩ := b.move_records m
    rw [hj] at he
    rcases List.mem_append.1 he with he | he
    · exact h e he c r hr
    · have hrecords := hnew e he
      rw [hr] at hrecords
      cases hrecords with
      | other hnone => cases hnone
      | reported hlive _ =>
        rcases hlive with hc | ⟨s, hs, rfl⟩
        · exact hb.waiting c hc
        · exact hb.suspended s hs
  exact hplay.2

/-- Reports are counted by counting answers, where packets that were turned away do not count. -/
theorem answered_eq_reports {start : Broker} (hstart : start.known = []) (ms : List Move)
    {P : Chain → Report → Bool} (hP : ∀ e ∈ (start.play ms).journal, ∀ c, e.event = .misrouted c →
      P c { outcome := .proceed c.supplied } = false) :
    start.answered ms P = (start.play ms).books.reports.countP fun x => P x.1 x.2 := by
  rw [answered_eq hstart ms P]
  unfold answers books
  simp only [List.countP_filterMap]
  refine List.countP_congr fun e he => ?_
  have hmisrouted := hP e he
  cases hevent : e.event with
  | misrouted c => simp [Entry.answer?, Event.reported?, hevent, hmisrouted c hevent]
  | _ => simp [Entry.answer?, Event.reported?, hevent]

theorem countP_failures {start : Broker} (hstart : start.known = []) (ms : List Move)
    (P : Point × Cause → Bool) : ((start.play ms).books.reports.filterMap failureOf? ++ []).countP P =
      start.answered ms fun c r => r.failure.any fun f => P (c.point, f.cause) := by
  rw [answered_eq_reports hstart ms fun _ _ _ _ => rfl, List.append_nil, List.countP_filterMap]
  refine List.countP_congr fun x _ => ?_
  cases hfailure : x.2.failure <;> simp [failureOf?, hfailure]

theorem countP_labels (config : Config) (metered : Bool) (ms : List Move) (point : Point) (label : String) :
    let start := ofConfig config metered
    ((start.play ms).books.reports.map labelOf).count (point, label) =
      start.answered ms fun c r => c.point = point && c.supplied.belongsTo point && r.outcome.label = label := by
  intro start
  have hbelongs : ∀ e ∈ (start.play ms).journal, ∀ c r, e.event = .reported c r → c.supplied.belongsTo c.point :=
    reported_play (routed_ofConfig config metered) (fun _ he => absurd he List.not_mem_nil) ms
  have hwrong : ∀ e ∈ (start.play ms).journal, ∀ c, e.event = .misrouted c → ¬c.supplied.belongsTo c.point :=
    misrouted_play (fun e (he : e ∈ start.journal) => absurd he List.not_mem_nil) ms
  rw [answered_eq_reports rfl ms, List.count, List.countP_map]
  · refine List.countP_congr fun x hx => ?_
    obtain ⟨e, he, hreported⟩ := List.mem_filterMap.1 hx
    have hevent : e.event = .reported x.1 x.2 := by
      cases h : e.event <;> simp_all [Event.reported?]
      subst hreported
      exact ⟨rfl, rfl⟩
    have hsupplied := hbelongs e he x.1 x.2 hevent
    have hpoint : x.1.point = point → x.1.supplied.belongsTo point := fun h => h ▸ hsupplied
    simp only [labelOf, Function.comp_apply, beq_iff_eq, Prod.mk.injEq, Bool.and_eq_true, decide_eq_true_eq]
    exact ⟨fun h => ⟨⟨h.1, hpoint h.1⟩, h.2⟩, fun h => ⟨h.1.1, h.2⟩⟩
  · intro e he c hc
    have hsupplied := hwrong e he c hc
    by_cases hp : c.point = point
    · simp [← hp, hsupplied]
    · simp [hp]

/-- At every moment of every run of a metered broker, its counters say how many of the packets that were handed
over where they belong have been answered with which outcome, how many of the answers say that an extension's
code failed or ran out of time, how many turns have ended by success because their time had run out, whatever
became of their chains, and how many service calls were denied. -/
theorem metrics_count_exactly (config : Config) (ms : List Move) :
    let start := ofConfig config true
    let b := start.play ms
    (∀ point label, b.metrics.chains.count (point, label) = start.answered ms fun c r =>
      c.point = point && c.supplied.belongsTo point && r.outcome.label = label) ∧
    (∀ point, b.metrics.extensionErrors.count point = start.answered ms fun c r =>
      r.failure.any fun f => c.point = point && f.cause.isExtensionError) ∧
    (b.metrics.timeouts.count .failure = start.answered ms fun _ r => r.failure.any (·.cause = .timeout)) ∧
    (b.metrics.timeouts.count .success = b.turns.countP (·.deferral = .timedOut .success)) ∧
    b.metrics.denied = (start.story ms).countP Deed.isDenied := by
  intro start b
  have hbooks : b.books.Balanced [] := ((accounted_ofConfig config).play ms).balanced
  refine ⟨fun point label => ?_, fun point => ?_, ?_, ?_, ?_⟩
  · exact (hbooks.chains (point, label)).trans (countP_labels config true ms point label)
  · exact (hbooks.errors point).trans (countP_failures rfl ms (brokeAt point))
  · exact hbooks.failures.trans (countP_failures rfl ms ranLate)
  · -- Time-outs that let the packet go on end no chain, so they are counted by the turns.
    have hexpired : b.metrics.timeouts.count .success = (b.turns.map (·.expired?)).count (some .success) :=
      hbooks.expired .success
    rw [hexpired, List.count, List.countP_map]
    refine List.countP_congr fun t _ => ?_
    cases hdeferral : t.deferral <;> simp [Turn.expired?, hdeferral]
  · rw [(story_walk start ms).denied rfl]
    exact Nat.zero_add _

end Broker
end BrokerHooks
