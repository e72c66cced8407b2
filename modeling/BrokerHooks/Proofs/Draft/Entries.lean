import BrokerHooks.Proofs.Draft.ReasonCodes

namespace BrokerHooks

def Edit.Makes (limits : PacketLimits) (e : Edit) (p q : Packet) : Prop :=
  ∃ r, e.apply limits p = .ok r ∧ r.value = q

section Lists

variable {α : Type} {xs : List α} {i : Nat}

/-- A list with one entry replaced holds the new entry and all the others. -/
theorem forall_mem_set_iff {P : α → Prop} (hi : i < xs.length) (y : α) :
    (∀ z ∈ xs.set i y, P z) ↔ P y ∧ ∀ z ∈ xs.eraseIdx i, P z := by
  induction xs generalizing i with
  | nil => exact absurd hi (Nat.not_lt_zero i)
  | cons x xs ih =>
    cases i with
    | zero => rw [List.set_cons_zero, List.eraseIdx_cons_zero, List.forall_mem_cons]
    | succ i =>
      rw [List.set_cons_succ, List.eraseIdx_cons_succ, List.forall_mem_cons, List.forall_mem_cons,
        ih (Nat.lt_of_succ_lt_succ hi), and_left_comm]

theorem forall₂_set_iff {R : α → α → Prop} {x : α} (hx : xs[i]? = some x) (y : α) :
    List.Forall₂ R xs (xs.set i y) ↔ R x y ∧ ∀ z ∈ xs.eraseIdx i, R z z := by
  induction xs generalizing i with
  | nil => simp at hx
  | cons w xs ih =>
    cases i with
    | zero =>
      obtain rfl : w = x := by simpa using hx
      rw [List.set_cons_zero, List.eraseIdx_cons_zero, List.forall₂_cons, List.forall₂_same]
    | succ i =>
      rw [List.set_cons_succ, List.eraseIdx_cons_succ, List.forall₂_cons, List.forall_mem_cons,
        ih (by simpa using hx), and_left_comm]

end Lists

theorem ListEdit.target_at_eq_ok {α : Type} {xs ys : List α} {i : Nat} {y : α} :
    (ListEdit.at i y).target xs = .ok ys ↔ i < xs.length ∧ xs.set i y = ys := by
  simp only [target, bind_eq_ok, entryAt_eq_ok, Except.ok.injEq, List.getElem?_eq_some_iff]
  constructor
  · rintro ⟨_, ⟨hi, -⟩, hset⟩
    exact ⟨hi, hset⟩
  · rintro ⟨hi, hset⟩
    exact ⟨xs[i], ⟨hi, rfl⟩, hset⟩

/-- The codes with one replaced pass together if the new one may stand where the old one stood and the packet
admits all the others, which are on their own side anyway. -/
theorem checkReasonCodes_set_eq_ok {packet : String} {allowed : ReasonCode → Bool} {cs : List ReasonCode} {i : Nat}
    {c : ReasonCode} (hc : cs[i]? = some c) (d : ReasonCode) :
    checkReasonCodes packet allowed cs (cs.set i d) = .ok () ↔
      (allowed d ∧ d.isError = c.isError) ∧ ∀ z ∈ cs.eraseIdx i, allowed z := by
  rw [checkReasonCodes_eq_ok, forall₂_set_iff hc]
  simp only [and_true]

namespace Edit

variable (limits : PacketLimits) (i : Nat)

/-- A subscription is replaced by what the change makes of it alone. -/
theorem subscription_makes_iff (p : SubscribePacket) (e : SubscriptionEdit) (q : Packet) :
    (subscription i e).Makes limits (.subscribe p) q ↔
      ∃ s t, p.subscriptions[i]? = some s ∧ e.apply limits s = .ok t ∧
        q = .subscribe { p with subscriptions := p.subscriptions.set i t.value } := by
  simp only [Makes, apply, SubscribePacket.editAt, map_eq_ok, bind_eq_ok, entryAt_eq_ok, Except.ok.injEq]
  constructor
  · rintro ⟨_, ⟨_, ⟨s, hs, t, ht, rfl⟩, rfl⟩, rfl⟩
    exact ⟨s, t, hs, ht, rfl⟩
  · rintro ⟨s, t, hs, ht, rfl⟩
    exact ⟨_, ⟨_, ⟨s, hs, t, ht, rfl⟩, rfl⟩, rfl⟩

theorem topicFilter_makes_iff (p : UnsubscribePacket) (filter : String) (q : Packet) :
    (topicFilters (.at i filter)).Makes limits (.unsubscribe p) q ↔
      (i < p.topicFilters.length ∧ limits.checkTopicFilter filter = .ok ()) ∧
        (∀ other ∈ p.topicFilters.eraseIdx i, limits.checkTopicFilter other = .ok ()) ∧
        q = .unsubscribe { p with topicFilters := p.topicFilters.set i filter } := by
  simp only [Makes, apply, UnsubscribePacket.editFilters, map_eq_ok, bind_eq_ok, ListEdit.target_at_eq_ok]
  have hlength : ¬ (p.topicFilters.set i filter).length ≠ p.topicFilters.length := by simp
  constructor
  · rintro ⟨_, ⟨_, ⟨_, ⟨hi, rfl⟩, h⟩, rfl⟩, rfl⟩
    rw [if_neg hlength, check_bind_eq_ok] at h
    obtain ⟨hchecked, heq⟩ := h
    obtain ⟨hfilter, hothers⟩ := (forall_mem_set_iff hi filter).1 (forM_eq_ok.1 hchecked)
    obtain rfl := Except.ok.inj heq
    exact ⟨⟨hi, hfilter⟩, hothers, rfl⟩
  · rintro ⟨⟨hi, hfilter⟩, hothers, rfl⟩
    have hchecked := forM_eq_ok.2 ((forall_mem_set_iff hi filter).2 ⟨hfilter, hothers⟩)
    let r := Revision.store p.topicFilters (p.topicFilters.set i filter)
      { p with topicFilters := p.topicFilters.set i filter }
    refine ⟨_, ⟨r, ⟨_, ⟨hi, rfl⟩, ?_⟩, rfl⟩, rfl⟩
    rw [if_neg hlength, check_bind_eq_ok]
    exact ⟨hchecked, rfl⟩

theorem code_makes_iff {α : Type} {packet : String} {allowed : ReasonCode → Bool} {cs : List ReasonCode}
    {code : ReasonCode} (put : List ReasonCode → α) (wrap : α → Packet) (q : Packet) :
    (∃ r, Except.map (Revision.map wrap) (do
        let codes ← (ListEdit.at i code).target cs
        checkReasonCodes packet allowed cs codes
        .ok (.store cs codes (put codes))) = .ok r ∧ r.value = q) ↔
      (∃ old, cs[i]? = some old ∧ allowed code ∧ code.isError = old.isError) ∧
        (∀ other ∈ cs.eraseIdx i, allowed other) ∧ q = wrap (put (cs.set i code)) := by
  simp only [map_eq_ok, bind_eq_ok, ListEdit.target_at_eq_ok]
  constructor
  · rintro ⟨_, ⟨_, ⟨_, ⟨hi, rfl⟩, _, hchecked, heq⟩, rfl⟩, rfl⟩
    have hold := List.getElem?_eq_getElem hi
    obtain ⟨hcode, hothers⟩ := (checkReasonCodes_set_eq_ok hold code).1 hchecked
    obtain rfl := Except.ok.inj heq
    exact ⟨⟨_, hold, hcode⟩, hothers, rfl⟩
  · rintro ⟨⟨old, hold, hcode⟩, hothers, rfl⟩
    obtain ⟨hi, -⟩ := List.getElem?_eq_some_iff.1 hold
    have hchecked : checkReasonCodes packet allowed cs (cs.set i code) = .ok () :=
      (checkReasonCodes_set_eq_ok hold code).2 ⟨hcode, hothers⟩
    exact ⟨_, ⟨_, ⟨_, ⟨hi, rfl⟩, (), hchecked, rfl⟩, rfl⟩, rfl⟩

/-- Whether an entry may be replaced at an index, by the index, the entry that is there, the new one, and, except for
a subscription, by all the entries that stay: each of them has to be one that could be put in anew. Where the change
is accepted, only the entry at the index differs afterwards. -/
theorem indexed_edits_accepted_iff :
    (∀ (p : SubscribePacket) (e : SubscriptionEdit) (q : Packet),
      (subscription i e).Makes limits (.subscribe p) q ↔
        ∃ s t, p.subscriptions[i]? = some s ∧ e.apply limits s = .ok t ∧
          q = .subscribe { p with subscriptions := p.subscriptions.set i t.value }) ∧
    (∀ (p : UnsubscribePacket) (filter : String) (q : Packet),
      (topicFilters (.at i filter)).Makes limits (.unsubscribe p) q ↔
        (i < p.topicFilters.length ∧ limits.checkTopicFilter filter = .ok ()) ∧
          (∀ other ∈ p.topicFilters.eraseIdx i, limits.checkTopicFilter other = .ok ()) ∧
          q = .unsubscribe { p with topicFilters := p.topicFilters.set i filter }) ∧
    (∀ (p : SubackPacket) (code : ReasonCode) (q : Packet),
      (subackCodes (.at i code)).Makes limits (.suback p) q ↔
        (∃ old, p.reasonCodes[i]? = some old ∧ ReasonCode.inSuback code ∧ code.isError = old.isError) ∧
          (∀ other ∈ p.reasonCodes.eraseIdx i, ReasonCode.inSuback other) ∧
          q = .suback { p with reasonCodes := p.reasonCodes.set i code }) ∧
    ∀ (p : UnsubackPacket) (code : ReasonCode) (q : Packet),
      (unsubackCodes (.at i code)).Makes limits (.unsuback p) q ↔
        (∃ old, p.reasonCodes[i]? = some old ∧ ReasonCode.inUnsuback code ∧ code.isError = old.isError) ∧
          (∀ other ∈ p.reasonCodes.eraseIdx i, ReasonCode.inUnsuback other) ∧
          q = .unsuback { p with reasonCodes := p.reasonCodes.set i code } := by
  refine ⟨subscription_makes_iff limits i, topicFilter_makes_iff limits i, fun p code q => ?_, fun p code q => ?_⟩
  · exact code_makes_iff i (fun codes => { p with reasonCodes := codes }) .suback q
  · exact code_makes_iff i (fun codes => { p with reasonCodes := codes }) .unsuback q

/-- Where wildcards are not permitted, a filter with one keeps the other filter of its UNSUBSCRIBE from being
replaced, and a code that no SUBACK may carry does the same to the other code. A SUBSCRIBE for the same filters takes
the change. -/
theorem wildcard_elsewhere_refuses :
    let limits : PacketLimits := { wildcardSubscriptions := false }
    let filters := ["sensors/1", "sensors/+"]
    let asking (filters : List String) : Packet :=
      .subscribe { packetId := 1, subscriptions := filters.map fun f => { topicFilter := f, qos := .atMostOnce } }
    (0 < filters.length ∧ limits.checkTopicFilter "sensors/2" = .ok () ∧
      (topicFilters (.at 0 "sensors/2")).apply limits (.unsubscribe { packetId := 1, topicFilters := filters }) =
        .error (.invalidTopicFilter "sensors/+" .wildcardsDisabled)) ∧
    (ReasonCode.inSuback .grantedQos1 ∧ ReasonCode.grantedQos1.isError = ReasonCode.success.isError ∧
      (subackCodes (.at 0 .grantedQos1)).apply limits
          (.suback { packetId := 1, reasonCodes := [.success, .noSubscriptionExisted] }) =
        .error (.reasonCodeNotAllowed "SUBACK" .noSubscriptionExisted)) ∧
    (subscription 0 (.topicFilter "sensors/2")).Makes limits (asking filters) (asking ["sensors/2", "sensors/+"]) := by
  refine ⟨by decide, by decide, _, rfl, rfl⟩

end Edit
end BrokerHooks
