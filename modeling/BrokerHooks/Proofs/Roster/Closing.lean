import BrokerHooks.Proofs.Roster.History

namespace BrokerHooks.Roster

variable {r r' : Roster}

def closedFor? (r : Roster) (c : Nat) : Option (Option ReasonCode) :=
  ((r.connection? c).filter (·.closed)).map (·.closeReason)

theorem closedFor?_eq_some_iff {c : Nat} {reason : Option ReasonCode} : r.closedFor? c = some reason ↔
    ∃ conn, r.connection? c = some conn ∧ conn.closed ∧ conn.closeReason = reason := by
  unfold closedFor?
  simp only [Option.map_eq_some_iff, Option.filter_eq_some_iff, and_assoc]

theorem isSome_of_tracked? {clientId : String} {c : Nat} (h : r.tracked? clientId = some c) :
    (r.connection? c).isSome := by
  obtain ⟨-, hreleased⟩ := Option.filter_eq_some_iff.1 h
  cases hconn : r.connection? c with
  | none => simp [isReleased, hconn] at hreleased
  | some conn => rfl

/-- Closed connections stay closed for their reasons, and no others are closed. -/
def KeepsClosed (r r' : Roster) : Prop := ∀ c, r'.closedFor? c = r.closedFor? c

theorem KeepsClosed.refl (r : Roster) : KeepsClosed r r := fun _ => rfl

theorem KeepsClosed.trans {r'' : Roster} (h : KeepsClosed r r') (h' : KeepsClosed r' r'') :
    KeepsClosed r r'' := fun c => (h' c).trans (h c)

theorem keepsClosed_of_modify {c : Nat} {f : Connection → Connection}
    (hconnections : r'.connections = r.connections.modify c f)
    (hf : ∀ conn, (f conn).closed = conn.closed ∧ (f conn).closeReason = conn.closeReason) :
    KeepsClosed r r' := by
  intro k
  unfold closedFor? connection?
  rw [hconnections, List.getElem?_modify]
  cases r.connections[k]? with
  | none => rfl
  | some conn => by_cases hk : c = k <;> simp [hk, Option.filter, hf, apply_ite]

theorem keepsClosed_purge (r : Roster) (id : String) : KeepsClosed r (r.purge id) := by
  intro k
  unfold closedFor? purge connection?
  rw [List.getElem?_mapIdx]
  cases r.connections[k]? with
  | none => rfl
  | some conn => by_cases hk : r.isTracked k <;> simp [hk, Option.filter, apply_ite]

theorem keepsClosed_openConnection (r : Roster) (clientId : String) (version : ProtocolVersion)
    (aliasMaximum : Option UInt16) : KeepsClosed r (r.openConnection clientId version aliasMaximum).2 := by
  intro c
  unfold closedFor? openConnection connection?
  rcases Nat.lt_or_ge c r.connections.length with hlt | hge
  · rw [List.getElem?_append_left hlt]
  · rw [List.getElem?_append_right hge, List.getElem?_eq_none hge]
    cases c - r.connections.length <;> simp [Option.filter]

theorem keepsClosed_setEnabled {id : String} {enabled : Bool} (h : r.setEnabled id enabled = .ok r') :
    KeepsClosed r r' := by
  obtain ⟨-, rfl⟩ := setEnabled_eq h
  exact .refl r

theorem keepsClosed_tryUpdate (update : Except RegistryError Roster)
    (h : ∀ r', update = .ok r' → KeepsClosed r r') : KeepsClosed r (Broker.tryUpdate r update).2 := by
  cases update with
  | error e => exact .refl r
  | ok r' => exact h r' rfl

def Request.isClose : Request → Bool
  | .close _ _ => true
  | _ => false

theorem answer_keepsClosed (r : Roster) (q : Request) (h : q.isClose = false) :
    KeepsClosed r (r.answer q).2 := by
  cases q with
  | close c reason => cases h
  | openConnection clientId version aliasMaximum =>
    exact keepsClosed_openConnection r clientId version aliasMaximum
  | track c =>
    simp only [answer, track]
    split <;> exact .refl r
  | untrack clientId => exact .refl r
  | resolve c topic number =>
    simp only [answer, resolve]
    split <;> exact .refl r
  | letGo c => exact keepsClosed_of_modify rfl fun _ => ⟨rfl, rfl⟩
  | release c => exact keepsClosed_of_modify rfl fun _ => ⟨rfl, rfl⟩
  | register id priority =>
    refine keepsClosed_tryUpdate _ fun r' hr => ?_
    unfold register at hr
    split at hr <;> cases hr
    exact .refl r
  | remove id =>
    refine keepsClosed_tryUpdate _ fun r' hr => ?_
    obtain ⟨-, rfl⟩ := remove_eq hr
    exact keepsClosed_purge _ id
  | enable id => exact keepsClosed_tryUpdate _ fun r' hr => keepsClosed_setEnabled hr
  | disable id =>
    refine keepsClosed_tryUpdate _ fun r' hr => ?_
    obtain ⟨r₁, hset, rfl⟩ := disable_eq hr
    exact (keepsClosed_setEnabled hset).trans (keepsClosed_purge r₁ id)
  | add place id point family respond =>
    refine keepsClosed_tryUpdate _ fun r' hr => ?_
    obtain ⟨-, rfl⟩ := add_eq hr
    cases place with
    | shared => exact .refl r
    | connection c => exact keepsClosed_of_modify rfl fun _ => ⟨rfl, rfl⟩

/-- A close of a connection that exists closes it, and says so, unless an earlier close did. -/
theorem close_closedFor? (r : Roster) (c : Nat) (reason : Option ReasonCode) :
    (r.close c reason).1 = ((r.connection? c).isSome && (r.closedFor? c).isNone) ∧
      ∀ k, (r.close c reason).2.closedFor? k =
        (r.closedFor? k).or (if c = k ∧ (r.connection? k).isSome then some reason else none) := by
  cases hconn : r.connection? c with
  | none =>
    have hclose : r.close c reason = (false, r) := if_pos (by simp [isClosed, hconn])
    rw [hclose]
    refine ⟨rfl, fun k => ?_⟩
    rw [if_neg, Option.or_none]
    rintro ⟨rfl, hsome⟩
    rw [hconn] at hsome
    cases hsome
  | some conn =>
    cases hclosed : conn.closed with
    | true =>
      have hclose : r.close c reason = (false, r) := if_pos (by simp [isClosed, hconn, hclosed])
      have hreason : r.closedFor? c = some conn.closeReason := closedFor?_eq_some_iff.2 ⟨conn, hconn, hclosed, rfl⟩
      rw [hclose, hreason]
      refine ⟨rfl, fun k => ?_⟩
      by_cases hk : c = k
      · subst hk
        rw [hreason]
        rfl
      · rw [if_neg fun h => hk h.1, Option.or_none]
    | false =>
      have hopen : ¬r.isClosed c := by simp [isClosed, hconn, hclosed]
      have hconn' : r.connections[c]? = some conn := hconn
      unfold close
      rw [if_neg hopen]
      refine ⟨by simp [closedFor?, hconn, Option.filter, hclosed], fun k => ?_⟩
      -- The one case in which something changes: the connection exists and is open.
      unfold closedFor? modifyConnection connection?
      simp only [List.getElem?_modify]
      by_cases hk : c = k
      · subst hk
        simp [hconn', Option.filter, hclosed]
      · simp [hk]

end BrokerHooks.Roster
