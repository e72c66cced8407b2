import BrokerHooks.Proofs.Alias.Balance
import BrokerHooks.Proofs.Metrics.Totals
import BrokerHooks.Proofs.Run.Services

namespace BrokerHooks

def Op.isClose : Op → Bool
  | .close _ | .disconnectClient _ _ => true
  | _ => false

namespace Broker

/-- How the services refuse a call: before it is counted, for an unsuitable reason, or because there have been too
many, whatever the call would have done. -/
structure RefusesCleanly (b : Broker) : Prop where
  unsuitable : ∀ clientId reason code, (b.disconnectClient clientId reason).1 = .error (.invalidReasonCode code) ↔
    reason = some code ∧ code.inServerDisconnect = false
  untouched : ∀ clientId reason code, (b.disconnectClient clientId reason).1 = .error (.invalidReasonCode code) →
    (b.disconnectClient clientId reason).2 = b
  denied : ∀ s op, op.isDenied (b.perform s op).1 → (b.perform s op).2 = b.turnedAway
  unrun : ∀ (α : Type) (f : Broker → α × Broker), exceedsLimit (b.admitted f).1 →
    (b.admitted f).2 = b.turnedAway

theorem admitted_of_denied {α : Type} {b : Broker} {f : Broker → α × Broker}
    (h : exceedsLimit (b.admitted f).1) : (b.admitted f).2 = b.turnedAway := by
  revert h
  exact admitted_induction b f (fun _ => rfl) fun limiter h => by cases h

theorem refusesCleanly (b : Broker) : b.RefusesCleanly where
  unsuitable clientId reason code := by
    have hsuitable (hreason : ∀ code ∈ reason, code.inServerDisconnect) :
        ¬(reason = some code ∧ code.inServerDisconnect = false) := by
      rintro ⟨rfl, hcode⟩
      rw [hreason code rfl] at hcode
      cases hcode
    -- The four outcomes of a call are told apart by their answers.
    have hdisconnects := disconnects b clientId reason
    generalize b.disconnectClient clientId reason = outcome at hdisconnects
    cases hdisconnects with
    | unsuitable hreason hcode =>
      rw [hreason]
      simp only [Except.error.injEq, ServiceError.invalidReasonCode.injEq, Option.some_inj]
      exact ⟨fun h => ⟨h, h ▸ hcode⟩, And.left⟩
    | denied hreason | unknown hreason | closes hreason => exact iff_of_false nofun (hsuitable hreason)
  untouched clientId reason code h := by
    have hdisconnects := disconnects b clientId reason
    generalize b.disconnectClient clientId reason = outcome at hdisconnects h
    cases hdisconnects with
    | unsuitable => rfl
    | denied | unknown | closes => cases h
  denied s op h := by
    cases op with
    | check =>
      rcases check_cases b with hdenied | ⟨limiter, hadmitted⟩
      · exact congrArg (·.2) hdenied
      · simp [Op.isDenied, perform, hadmitted, exceedsLimit] at h
    | isConnected clientId => exact admitted_of_denied h
    | disconnectClient clientId reason =>
      have hdisconnects := disconnects b clientId reason
      simp only [Op.isDenied, perform] at h ⊢
      generalize b.disconnectClient clientId reason = outcome at hdisconnects h
      cases hdisconnects with
      | denied => rfl
      | unsuitable | unknown | closes => cases h
    | _ => cases h
  unrun α f := admitted_of_denied

structure Closing where
  reason : Option ReasonCode
  answer : Bool
deriving DecidableEq, Repr

def Deed.closing? (c : Nat) : Deed → Option Closing
  | did b s (.close reason) =>
    if s.connection = c ∧ (b.roster.connection? c).isSome then
      some { reason, answer := (b.perform s (.close reason)).1 }
    else none
  | did b s (.disconnectClient clientId reason) =>
    match (b.perform s (.disconnectClient clientId reason)).1 with
    | .ok answer => if b.roster.tracked? clientId = some c then some { reason, answer } else none
    | .error _ => none
  | _ => none

def closings (c : Nat) (ds : List Deed) : List Closing := ds.filterMap (·.closing? c)

theorem perform_keepsClosed (b : Broker) (s : Site) (op : Op) (h : op.isClose = false) :
    b.roster.KeepsClosed (b.perform s op).2.roster := by
  cases op with
  | close | disconnectClient => cases h
  | call | defer | resume | prevent | view =>
    unfold perform
    rw [onTurn_roster]
    exact .refl _
  | resolve topic number => exact b.roster.answer_keepsClosed (.resolve s.connection topic number) rfl
  | register id priority => exact b.roster.answer_keepsClosed (.register id priority) rfl
  | remove id => exact b.roster.answer_keepsClosed (.remove id) rfl
  | enable id => exact b.roster.answer_keepsClosed (.enable id) rfl
  | disable id => exact b.roster.answer_keepsClosed (.disable id) rfl
  | isEnabled | note => exact .refl _
  | check =>
    unfold perform
    rw [check_roster]
    exact .refl _
  | isConnected clientId =>
    exact admitted_preserves (P := b.roster.KeepsClosed) (.refl _) _ fun _ hb => hb

/-- From `r` to `r'` the connection is closed by this call, if there is one and no earlier one did. -/
structure Closes (r r' : Roster) (c : Nat) (call : Option Closing) : Prop where
  reason : r'.closedFor? c = (r.closedFor? c).or (call.map (·.reason))
  answer : ∀ x ∈ call, x.answer = (r.closedFor? c).isNone

theorem closes_none {r r' : Roster} (h : r.KeepsClosed r') (c : Nat) : Closes r r' c none :=
  ⟨(h c).trans Option.or_none.symm, nofun⟩

theorem closes_close (r : Roster) (k : Nat) (reason : Option ReasonCode) (c : Nat) :
    Closes r (r.close k reason).2 c
      (if k = c ∧ (r.connection? c).isSome then some { reason, answer := (r.close k reason).1 } else none) := by
  obtain ⟨hanswer, hclosed⟩ := r.close_closedFor? k reason
  refine ⟨(hclosed c).trans ?_, fun x hx => ?_⟩
  · split <;> rfl
  · split at hx
    · rename_i hreaches
      obtain ⟨rfl, hsome⟩ := hreaches
      cases hx
      rw [hanswer, hsome, Bool.true_and]
    · cases hx

/-- What one deed does to the closing of a connection. -/
theorem Deed.closes (d : Deed) (c : Nat) : Closes d.before.roster d.after.roster c (d.closing? c) := by
  cases d with
  | began | invoked => exact closes_none (.refl _) c
  | looked b chain turn =>
    refine closes_none ?_ c
    unfold Deed.after
    rw [standing_roster]
    exact .refl _
  | did b s op =>
    cases op with
    | close reason => exact closes_close b.roster s.connection reason c
    | disconnectClient clientId reason =>
      have hdisconnects := disconnects b clientId reason
      simp only [before, after, closing?, perform]
      generalize b.disconnectClient clientId reason = outcome at hdisconnects
      cases hdisconnects with
      | unsuitable | denied => exact closes_none (.refl _) c
      | unknown _ limiter htracked =>
        simp only [htracked]
        exact closes_none (.refl _) c
      | @closes _ limiter k htracked =>
        -- A connection that is tracked exists, so the call reaches it.
        have hreaches : k = c ∧ (b.roster.connection? c).isSome ↔ k = c :=
          and_iff_left_of_imp fun hk => hk ▸ Roster.isSome_of_tracked? htracked
        have hcloses := closes_close b.roster k reason c
        simpa only [hreaches, htracked, Option.some_inj] using hcloses
    | _ =>
      refine closes_none ?_ c
      exact perform_keepsClosed b s _ rfl

namespace Walk

variable {b b' : Broker} {ds : List Deed}

/-- What a walk leads to: the first of its closes is for good. -/
theorem closedFor? (h : Walk b ds b') (c : Nat) : b'.roster.closedFor? c =
    (b.roster.closedFor? c).or ((closings c ds).head?.map (·.reason)) := by
  induction h with
  | drift h => exact (h.closed c).trans Option.or_none.symm
  | @deed b b' d ds h _ ih =>
    rw [ih, (d.closes c).reason, h.closed c, Option.or_assoc, closings, closings, List.filterMap_cons]
    cases d.closing? c <;> rfl

/-- Only the first of the closes in a walk says that it closed the connection, if it was open before. -/
theorem answers (h : Walk b ds b') (c : Nat) : ∀ (i : Nat) (x : Closing),
    (closings c ds)[i]? = some x → (x.answer = true ↔ i = 0 ∧ b.roster.closedFor? c = none) := by
  induction h with
  | drift h => exact fun i x hx => by simp [closings] at hx
  | @deed b b' d ds h _ ih =>
    intro i x hx
    obtain ⟨hafter, hanswer⟩ := d.closes c
    rw [h.closed c] at hafter hanswer
    rw [closings, List.filterMap_cons] at hx
    cases hclosing : d.closing? c with
    | none =>
      rw [hclosing] at hx hafter
      rw [ih i x hx, hafter, Option.map_none, Option.or_none]
    | some y =>
      rw [hclosing] at hx hafter
      cases i with
      | zero =>
        cases hx
        simp [hanswer x hclosing]
      | succ i =>
        -- The first call has closed the connection by now, if it was open at all.
        rw [ih i x hx, hafter]
        simp

theorem balanced (h : Walk b ds b') (hb : b.roster.Balanced) : b'.roster.Balanced := by
  have hroster := h.roster
  generalize b'.roster = r at hroster
  induction hroster with
  | refl => exact hb
  | tail _ hstep ih => exact ih.step hstep

end Walk

/-- What a connection shows for good once it has been closed for a reason. -/
structure ClosedFor (b : Broker) (c : Nat) (reason : Option ReasonCode) : Prop where
  isClosed : b.roster.isClosed c
  closeReason : (b.roster.connection? c).map (·.closeReason) = some reason
  aliasMaximum : b.roster.aliasMaximum c = 0
  unconnected : ∀ clientId, b.roster.tracked? clientId = some c → (b.isConnected clientId).1 ≠ .ok true

theorem closedFor_of_balanced {b : Broker} (hb : b.roster.Balanced) {c : Nat} {reason : Option ReasonCode}
    (h : b.roster.closedFor? c = some reason) : b.ClosedFor c reason := by
  obtain ⟨conn, hconn, hclosed, hreason⟩ := Roster.closedFor?_eq_some_iff.1 h
  have hisClosed : b.roster.isClosed c := by
    unfold Roster.isClosed
    rw [hconn]
    exact hclosed
  refine ⟨hisClosed, ?_, ?_, fun clientId htracked => ?_⟩
  · rw [hconn, Option.map_some, hreason]
  · have hnone : b.roster.aliases.table? c = none := by
      cases htable : b.roster.aliases.table? c with
      | none => rfl
      | some t =>
        -- Only live connections have tables.
        obtain ⟨conn', hconn', hopen, -⟩ := hb.holders (c, t) (Alias.Ledger.mem_of_table? htable)
        rw [hconn] at hconn'
        cases hconn'
        rw [hclosed] at hopen
        cases hopen
    unfold Roster.aliasMaximum
    rw [hnone]
    rfl
  · unfold isConnected
    refine admitted_induction b _ nofun fun limiter => ?_
    simp [htracked, hisClosed]

/-- Of the services that close connections, in every run: those that are refused leave nothing behind but that they
were counted; of all the calls that reach a connection to close it, by whatever way, the first answers that it did
and no other does; and the connection is closed for the reason of that call from then on. -/
theorem first_close_wins (config : Config) (metered : Bool) (ms : List Move) (c : Nat) :
    let start := ofConfig config metered
    (∀ b : Broker, b.RefusesCleanly) ∧
      (∀ i x, (closings c (start.story ms))[i]? = some x → (x.answer = true ↔ i = 0)) ∧
      (∀ earlier d later, start.story ms = earlier ++ d :: later →
        ∀ first ∈ (closings c earlier).head?, d.before.ClosedFor c first.reason) ∧
      (∀ first ∈ (closings c (start.story ms)).head?, (start.play ms).ClosedFor c first.reason) ∧
      (closings c (start.story ms) = [] → (start.play ms).roster.closedFor? c = none) := by
  intro start
  have hopen : start.roster.closedFor? c = none := rfl
  have hbalanced : start.roster.Balanced := balanced_play config metered []
  -- What holds at the end of every walk holds at each of its deeds, since a walk up to there is one.
  have hfirst {b : Broker} {ds : List Deed} (h : Walk start ds b) :
      ∀ first ∈ (closings c ds).head?, b.ClosedFor c first.reason := by
    intro first hmem
    have hclosed := h.closedFor? c
    rw [hopen, Option.none_or] at hclosed
    refine closedFor_of_balanced (h.balanced hbalanced) (hclosed.trans ?_)
    exact congrArg (Option.map (·.reason)) hmem
  have hwalk : Walk start (start.story ms) (start.play ms) := story_walk start ms
  refine ⟨refusesCleanly, fun i x hx => ?_, fun earlier d later hstory => ?_, hfirst hwalk, fun hnil => ?_⟩
  · rw [hwalk.answers c i x hx]
    exact and_iff_left hopen
  · rw [hstory] at hwalk
    exact hfirst hwalk.at_deed.1
  · rw [hwalk.closedFor? c, hopen, hnil]
    rfl

/-- A client is disconnected, after a call with an unsuitable reason, and before the transport closes the connection
and one more call is denied. -/
theorem disconnected_once :
    let config : Config := { limits := { serviceCallRate := 1 } }
    let site : Site := { connection := 0, turn := 0 }
    let ms : List Move := [.openConnection "reader" .v5 (some 2), .track 0,
      .perform site (.disconnectClient "reader" (some .noMatchingSubscribers)),
      .perform site (.disconnectClient "reader" (some .serverBusy)), .perform site (.close none),
      .perform site (.isConnected "reader"), .perform site (.disconnectClient "reader" none)]
    let b := (ofConfig config true).play ms
    closings 0 ((ofConfig config true).story ms) =
        [{ reason := some .serverBusy, answer := true }, { reason := none, answer := false }] ∧
      b.ClosedFor 0 (some .serverBusy) ∧ b.metrics.denied = 1 := by
  intro config site ms b
  have hclosings : closings 0 ((ofConfig config true).story ms) =
      [{ reason := some .serverBusy, answer := true }, { reason := none, answer := false }] := by
    decide +kernel
  obtain ⟨-, -, -, hclosed, -⟩ := first_close_wins config true ms 0
  rw [hclosings] at hclosed
  exact ⟨hclosings, hclosed _ rfl, by decide +kernel⟩

end Broker
end BrokerHooks
