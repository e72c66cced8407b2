import BrokerHooks.Proofs.Draft.Content
import BrokerHooks.Proofs.Draft.Entries

namespace BrokerHooks

def TopicFilter.Replaces (limits : PacketLimits) (old new : String) : Prop :=
  new = old ∨ limits.checkTopicFilter new = .ok ()

namespace Subscription

/-- The subscription sets no local although it is shared, which it must not. -/
def IsSharedNoLocal (s : Subscription) : Prop := s.noLocal ∧ TopicFilter.isShared s.topicFilter

structure Replaces (limits : PacketLimits) (old new : Subscription) : Prop where
  topicFilter : TopicFilter.Replaces limits old.topicFilter new.topicFilter
  qos : new.qos = old.qos ∨ new.qos.level ≤ limits.maxQos.level
  sharedNoLocal : new.IsSharedNoLocal → old.IsSharedNoLocal

end Subscription

namespace Packet

def subscriptions : Packet → List Subscription
  | .subscribe p => p.subscriptions
  | .connect _ | .connack _ | .ack _ | .suback _ | .unsubscribe _ | .unsuback _ | .ping _ | .disconnect _ => []

def topicFilters : Packet → List String
  | .unsubscribe p => p.topicFilters
  | .connect _ | .connack _ | .ack _ | .subscribe _ | .suback _ | .unsuback _ | .ping _ | .disconnect _ => []

def HasSharedNoLocal (p : Packet) : Prop := ∃ s ∈ p.subscriptions, s.IsSharedNoLocal

/-- `q` has as many entries as `p`, and each requests what the one in its place did or what the limits allow. -/
structure RequestsWithin (limits : PacketLimits) (p q : Packet) : Prop where
  family : q.family = p.family
  subscriptions : List.Forall₂ (Subscription.Replaces limits) p.subscriptions q.subscriptions
  topicFilters : List.Forall₂ (TopicFilter.Replaces limits) p.topicFilters q.topicFilters
  sharedNoLocal : ¬p.HasSharedNoLocal → ¬q.HasSharedNoLocal

end Packet

variable {limits : PacketLimits}

namespace TopicFilter.Replaces

theorem refl (filter : String) : Replaces limits filter filter := .inl rfl

theorem trans {f g h : String} (hfg : Replaces limits f g) (hgh : Replaces limits g h) : Replaces limits f h := by
  rcases hgh with rfl | hchecked
  · exact hfg
  · exact .inr hchecked

end TopicFilter.Replaces

namespace Subscription.Replaces

theorem refl (s : Subscription) : s.Replaces limits s := ⟨.refl _, .inl rfl, id⟩

theorem trans {s t u : Subscription} (hst : s.Replaces limits t) (htu : t.Replaces limits u) :
    s.Replaces limits u where
  topicFilter := hst.topicFilter.trans htu.topicFilter
  qos := by
    rcases htu.qos with hsame | hallowed
    · rw [hsame]
      exact hst.qos
    · exact .inr hallowed
  sharedNoLocal := hst.sharedNoLocal ∘ htu.sharedNoLocal

theorem exists_sharedNoLocal {ss ts : List Subscription} (h : List.Forall₂ (Subscription.Replaces limits) ss ts)
    (hts : ∃ t ∈ ts, t.IsSharedNoLocal) : ∃ s ∈ ss, s.IsSharedNoLocal := by
  induction h with
  | nil => simp at hts
  | cons hst _ ih =>
    rw [List.exists_mem_cons_iff] at hts ⊢
    exact hts.imp hst.sharedNoLocal ih

end Subscription.Replaces

namespace Packet.RequestsWithin

variable {p q r : Packet}

/-- Where the entries are replaced one by one, none of them comes to set no local that is shared. -/
theorem of_entries (hfamily : q.family = p.family)
    (hsubscriptions : List.Forall₂ (Subscription.Replaces limits) p.subscriptions q.subscriptions)
    (hfilters : List.Forall₂ (TopicFilter.Replaces limits) p.topicFilters q.topicFilters) :
    p.RequestsWithin limits q :=
  ⟨hfamily, hsubscriptions, hfilters, mt (Subscription.Replaces.exists_sharedNoLocal hsubscriptions)⟩

theorem of_same (hfamily : q.family = p.family) (hsubscriptions : q.subscriptions = p.subscriptions)
    (hfilters : q.topicFilters = p.topicFilters) : p.RequestsWithin limits q :=
  of_entries hfamily (hsubscriptions ▸ List.forall₂_same.2 fun s _ => .refl s)
    (hfilters ▸ List.forall₂_same.2 fun f _ => .refl f)

theorem refl (p : Packet) : p.RequestsWithin limits p := of_same rfl rfl rfl

theorem trans (h : p.RequestsWithin limits q) (h' : q.RequestsWithin limits r) : p.RequestsWithin limits r where
  family := h'.family.trans h.family
  subscriptions := forall₂_trans (fun _ _ _ => .trans) h.subscriptions h'.subscriptions
  topicFilters := forall₂_trans (fun _ _ _ => .trans) h.topicFilters h'.topicFilters
  sharedNoLocal := h'.sharedNoLocal ∘ h.sharedNoLocal

end Packet.RequestsWithin

open Packet (RequestsWithin)
open Revision (store kept)

theorem checkAtMost_eq_ok {field : String} {value max : Nat} :
    checkAtMost field value max = .ok () ↔ value ≤ max := by
  unfold checkAtMost
  split
  · simpa using ‹value > max›
  · simpa using ‹¬value > max›

variable (limits)

theorem SubscriptionEdit.replaces (s : Subscription) (e : SubscriptionEdit) :
    Yields (e.apply limits s) fun r => s.Replaces limits r.value := by
  cases e with
  | topicFilter value =>
    simp only [apply, yields_ite, yields_error, yields_check, yields_ok, store, kept]
    refine ⟨fun _ => .refl s, fun _ => ⟨fun _ => trivial, fun hapart hchecked => ?_⟩⟩
    exact ⟨.inr hchecked, .inl rfl, fun h => absurd (Bool.and_eq_true_iff.2 h) hapart⟩
  | qos value =>
    simp only [apply, yields_check, yields_ok, store, checkAtMost_eq_ok]
    exact fun hallowed => ⟨.refl _, .inr hallowed, id⟩
  | retainHandling value => exact (yields_ok _).2 ⟨.refl _, .inl rfl, id⟩
  | retainAsPublished value => exact (yields_ok _).2 ⟨.refl _, .inl rfl, id⟩
  | noLocal value =>
    simp only [apply, yields_ite, yields_error, yields_ok, store]
    refine ⟨fun _ => trivial, fun hapart => ?_⟩
    exact ⟨.refl _, .inl rfl, fun h => absurd (Bool.and_eq_true_iff.2 h) hapart⟩

theorem SubscribePacket.editAt_requestsWithin (p : SubscribePacket) (index : Nat) (e : SubscriptionEdit) :
    Yields (p.editAt limits index e) fun r => (Packet.subscribe p).RequestsWithin limits (.subscribe r.value) := by
  simp only [editAt, yields_bind, yields_ok, entryAt_eq_ok]
  intro current hcurrent changed hchanged
  have hreplaces := e.replaces limits current changed hchanged
  exact .of_entries rfl ((forall₂_set_iff hcurrent _).2 ⟨hreplaces, fun s _ => .refl s⟩) .nil

/-- The list of filters is judged as a whole, so that each of them has passed, changed or not. -/
theorem UnsubscribePacket.editFilters_requestsWithin (p : UnsubscribePacket) (e : ListEdit String) :
    Yields (p.editFilters limits e) fun r =>
      (Packet.unsubscribe p).RequestsWithin limits (.unsubscribe r.value) := by
  simp only [editFilters, yields_bind, yields_ite, yields_error, yields_ok, List.forM_eq_forM]
  refine fun filters _ => ⟨fun _ => trivial, fun hlength _ hchecked => .of_entries rfl .nil ?_⟩
  refine List.forall₂_iff_zip.2 ⟨(not_not.1 hlength).symm, fun {old new} hpair => ?_⟩
  exact .inr (forM_eq_ok.1 hchecked new (List.of_mem_zip hpair).2)

theorem Edit.setUserProperties_requestsWithin (p : Packet) (e : PropertyEdit) :
    Yields (setUserProperties limits p e) fun r => p.RequestsWithin limits r.value := by
  unfold setUserProperties
  split
  · exact yields_error _
  · simp only [yields_bind, yields_ok]
    intro changed _
    cases p <;> exact .of_same rfl rfl rfl

theorem Edit.setReasonString_requestsWithin (p : Packet) (value : Option String) :
    Yields (setReasonString limits p value) fun r => p.RequestsWithin limits r.value := by
  unfold setReasonString
  split
  · exact yields_error _
  · simp only [yields_check, yields_ite, yields_error, implies_true, true_and, yields_ok]
    intro _ _
    cases p <;> exact .of_same rfl rfl rfl

/-- Every accepted change leaves a packet that requests no more. Only two of them reach the entries. -/
theorem Edit.requestsWithin (e : Edit) (p : Packet) :
    Yields (e.apply limits p) fun r => p.RequestsWithin limits r.value := by
  have lift {α : Type} {f : α → Packet} {x : Except PacketError (Revision α)} {part : α}
      (h : Yields x fun r => (f part).RequestsWithin limits (f r.value)) :
      Yields (x.map (·.map f)) fun r => (f part).RequestsWithin limits r.value := (yields_map _ _).2 h
  unfold apply
  split
  · exact setUserProperties_requestsWithin limits p _
  · exact setReasonString_requestsWithin limits p _
  · exact lift fun r _ => .of_same rfl rfl rfl
  · exact lift fun r _ => .of_same rfl rfl rfl
  · exact lift fun r _ => .of_same rfl rfl rfl
  · exact lift (SubscribePacket.editAt_requestsWithin limits _ _ _)
  · exact lift fun r _ => .of_same rfl rfl rfl
  · exact lift (UnsubscribePacket.editFilters_requestsWithin limits _ _)
  · exact lift fun r _ => .of_same rfl rfl rfl
  · exact lift fun r _ => .of_same rfl rfl rfl
  · exact yields_error _

variable {limits}

theorem Packet.Becomes.requestsWithin {p q : Packet} (h : p.Becomes limits q) : p.RequestsWithin limits q := by
  apply h.preserves (.refl p)
  intro r hr e
  exact (e.requestsWithin limits r).mono fun s hs => hr.trans hs

end BrokerHooks
