import BrokerHooks.Proofs.Draft.Requests

namespace BrokerHooks

namespace PacketLimits

def Permits (limits : PacketLimits) (s : String) : Prop := ∀ field, limits.checkString field s = .ok ()

def PermitsProperty (limits : PacketLimits) (x : UserProperty) : Prop :=
  limits.Permits x.name ∧ limits.Permits x.value

structure PermitsWill (limits : PacketLimits) (w : WillMessage) : Prop where
  topic_ne_empty : w.topic ≠ ""
  no_wildcard : ∀ c ∈ w.topic.toList, c ≠ '+' ∧ c ≠ '#'
  topic : limits.Permits w.topic
  qos : w.qos.level ≤ limits.maxQos.level
  userProperties : ∀ x ∈ w.userProperties, limits.PermitsProperty x

variable {limits : PacketLimits}

theorem checkString_eq_ok_iff_permits {field s : String} :
    limits.checkString field s = .ok () ↔ limits.Permits s :=
  ⟨fun h _ => checkString_eq_ok.2 (checkString_eq_ok.1 h), fun h => h field⟩

theorem checkOptional_eq_ok {field : String} {value : Option String} :
    limits.checkOptional field value = .ok () ↔ ∀ s ∈ value, limits.Permits s := by
  cases value with
  | none => simp [checkOptional]
  | some s => simp [checkOptional, checkString_eq_ok_iff_permits]

theorem checkProperty_eq_ok {x : UserProperty} : checkProperty limits x = .ok () ↔ limits.PermitsProperty x := by
  rw [checkProperty, check_bind_eq_ok, checkString_eq_ok_iff_permits, checkString_eq_ok_iff_permits, PermitsProperty]

theorem PermitsWill.of_check {w : WillMessage} (h : checkWill limits w = .ok ()) : limits.PermitsWill w := by
  unfold checkWill at h
  by_cases hempty : w.topic.isEmpty
  · rw [if_pos hempty] at h
    cases h
  by_cases hwildcard : TopicFilter.hasWildcard w.topic
  · rw [if_neg hempty, if_pos hwildcard] at h
    cases h
  rw [if_neg hempty, if_neg hwildcard, check_bind_eq_ok, check_bind_eq_ok, checkString_eq_ok_iff_permits,
    checkAtMost_eq_ok, List.forM_eq_forM, forM_eq_ok] at h
  obtain ⟨htopic, hqos, hproperties⟩ := h
  exact {
    topic_ne_empty := fun htopic => hempty (by simp [htopic])
    no_wildcard := by simpa [TopicFilter.hasWildcard, TopicFilter.isWildcard] using hwildcard
    topic := htopic
    qos := hqos
    userProperties := fun x hx => checkProperty_eq_ok.1 (hproperties x hx) }

end PacketLimits

/-- What the limits make of the fields of a CONNECT that came as `p`. The fields that are not named may hold
anything. -/
structure ConnectPacket.Within (limits : PacketLimits) (p q : ConnectPacket) : Prop where
  protocolVersion : q.protocolVersion = p.protocolVersion
  clientId : q.clientId = p.clientId ∨ q.clientId ≠ "" ∧ limits.Permits q.clientId
  keepAlive : q.keepAlive = p.keepAlive ∨ q.keepAlive ≤ limits.maxKeepAlive
  sessionExpiryInterval : q.sessionExpiryInterval = p.sessionExpiryInterval ∨
    q.sessionExpiryInterval ≤ limits.maxSessionExpiryInterval
  receiveMaximum : q.receiveMaximum = p.receiveMaximum ∨ q.receiveMaximum ≠ 0
  maximumPacketSize : q.maximumPacketSize = p.maximumPacketSize ∨
    0 < q.maximumPacketSize ∧ q.maximumPacketSize ≤ limits.maxPacketSize
  username : q.username = p.username ∨ ∀ s ∈ q.username, limits.Permits s
  authMethod : q.authMethod = p.authMethod ∨ ∀ s ∈ q.authMethod, limits.Permits s
  will : q.will = p.will ∨ ∀ w ∈ q.will, limits.PermitsWill w
  userProperties : ∀ x ∈ q.userProperties, x ∈ p.userProperties ∨ limits.PermitsProperty x

def Direction.maySend : Direction → ReasonCode → Bool
  | .inbound _ => ReasonCode.inClientDisconnect
  | .outbound => ReasonCode.inServerDisconnect

/-- What the limits and the role of its sender make of the fields of a DISCONNECT that came as `p`. Only a client may
change when its session expires, and not to a time if it connected without one; only a server may name another. -/
structure DisconnectPacket.Within (limits : PacketLimits) (p q : DisconnectPacket) : Prop where
  direction : q.direction = p.direction
  reasonCode : q.reasonCode = p.reasonCode ∨ p.direction.maySend q.reasonCode
  reasonString : q.reasonString = p.reasonString ∨ ∀ s ∈ q.reasonString, limits.Permits s
  sessionExpiryInterval : q.sessionExpiryInterval = p.sessionExpiryInterval ∨
    ∃ connectExpiry, p.direction = .inbound connectExpiry ∧
      ∀ v ∈ q.sessionExpiryInterval, v ≤ limits.maxSessionExpiryInterval ∧ (connectExpiry = 0 → v = 0)
  serverReference : q.serverReference = p.serverReference ∨
    p.direction = .outbound ∧ ∀ s ∈ q.serverReference, limits.Permits s
  userProperties : ∀ x ∈ q.userProperties, x ∈ p.userProperties ∨ limits.PermitsProperty x

variable {limits : PacketLimits}

open Revision (store kept)
open PacketLimits (checkString_eq_ok_iff_permits checkOptional_eq_ok checkProperty_eq_ok)

/-- A list of properties loses some by a change, or gains one that has passed. -/
theorem PropertyEdit.mem_or_permits {before ps : UserProperties}
    (h : ∀ x ∈ ps, x ∈ before ∨ limits.PermitsProperty x) (e : PropertyEdit) :
    Yields (e.apply limits ps) fun r => ∀ x ∈ r.value, x ∈ before ∨ limits.PermitsProperty x := by
  cases e with
  | add p =>
    simp only [apply, yields_check, yields_ok, Revision.grown, checkProperty_eq_ok]
    intro hp x hx
    rcases List.mem_append.1 hx with hx | hx
    · exact h x hx
    · exact .inr (List.mem_singleton.1 hx ▸ hp)
  | remove p => exact (yields_ok _).2 fun x hx => h x (List.mem_of_mem_filter hx)
  | removeName name => exact (yields_ok _).2 fun x hx => h x (List.mem_of_mem_filter hx)
  | clear => exact (yields_ok _).2 fun _ hx => absurd hx List.not_mem_nil

theorem checkSessionExpiry_eq_ok {connectExpiry : UInt32} {value : Option UInt32} :
    checkSessionExpiry limits connectExpiry value = .ok () ↔
      ∀ v ∈ value, v ≤ limits.maxSessionExpiryInterval ∧ (connectExpiry = 0 → v = 0) := by
  cases value with
  | none => simp [checkSessionExpiry]
  | some v =>
    have hrefused : 0 < v ∧ connectExpiry = 0 ↔ ¬(connectExpiry = 0 → v = 0) := by
      rw [Classical.not_imp, and_comm, UInt32.pos_iff_ne_zero]
    rw [checkSessionExpiry, check_bind_eq_ok, checkAtMost_eq_ok, ← UInt32.le_iff_toNat_le]
    simp [hrefused]

namespace ConnectPacket.Within

variable {p q : ConnectPacket}

theorem refl (p : ConnectPacket) : p.Within limits p :=
  ⟨rfl, .inl rfl, .inl rfl, .inl rfl, .inl rfl, .inl rfl, .inl rfl, .inl rfl, .inl rfl, fun _ hx => .inl hx⟩

/-- A change writes one field, and what it writes there has passed the check of that field. -/
theorem change (h : p.Within limits q) (e : ConnectEdit) :
    Yields (e.apply limits q) fun r => p.Within limits r.value := by
  -- Each setter that is judged passes on what its check found; the others write fields of which `Within` says nothing.
  cases e with
  | clientId value =>
    simp only [ConnectEdit.apply, yields_ite, yields_error, yields_check, yields_ok, store,
      checkString_eq_ok_iff_permits]
    refine ⟨fun _ => trivial, fun hempty hpermits => ?_⟩
    have hne : value ≠ "" := by simpa using hempty
    exact { h with clientId := .inr ⟨hne, hpermits⟩ }
  | keepAlive value =>
    simp only [ConnectEdit.apply, yields_check, yields_ok, store, checkAtMost_eq_ok]
    exact fun hle => { h with keepAlive := .inr (UInt16.le_iff_toNat_le.2 hle) }
  | sessionExpiryInterval value =>
    simp only [ConnectEdit.apply, yields_check, yields_ok, store, checkAtMost_eq_ok]
    exact fun hle => { h with sessionExpiryInterval := .inr (UInt32.le_iff_toNat_le.2 hle) }
  | receiveMaximum value =>
    simp only [ConnectEdit.apply, yields_ite, yields_error, yields_ok, store]
    exact ⟨fun _ => trivial, fun hzero => { h with receiveMaximum := .inr hzero }⟩
  | maximumPacketSize value =>
    simp only [ConnectEdit.apply, yields_ite, yields_error, yields_check, yields_ok, store, checkAtMost_eq_ok]
    refine ⟨fun _ => trivial, fun hzero hle => ?_⟩
    exact { h with maximumPacketSize := .inr ⟨UInt32.pos_iff_ne_zero.2 hzero, UInt32.le_iff_toNat_le.2 hle⟩ }
  | username value =>
    simp only [ConnectEdit.apply, yields_check, yields_ok, store, checkOptional_eq_ok]
    exact fun hpermits => { h with username := .inr hpermits }
  | authMethod value =>
    simp only [ConnectEdit.apply, yields_check, yields_ok, store, checkOptional_eq_ok]
    exact fun hpermits => { h with authMethod := .inr hpermits }
  | will value =>
    cases value with
    | none => exact (yields_ok _).2 { h with will := .inr fun _ hw => absurd hw (Option.not_mem_none _) }
    | some w =>
      simp only [ConnectEdit.apply, yields_check, yields_ok, store]
      exact fun hcheck => { h with will := .inr fun _ hw => Option.some.inj hw ▸ .of_check hcheck }
  | cleanStart | topicAliasMaximum | requestResponseInformation | requestProblemInformation | password | authData =>
    exact (yields_ok _).2 { h with }

end ConnectPacket.Within

namespace DisconnectPacket

theorem allows_eq (p : DisconnectPacket) : p.allows = p.direction.maySend := by
  funext code
  unfold allows isInbound
  cases p.direction <;> rfl

namespace Within

variable {p q : DisconnectPacket}

theorem refl (p : DisconnectPacket) : p.Within limits p :=
  ⟨rfl, .inl rfl, .inl rfl, .inl rfl, .inl rfl, fun _ hx => .inl hx⟩

/-- The role of the sender decides which change is accepted at all, and no change touches the role. -/
theorem change (h : p.Within limits q) (e : DisconnectEdit) :
    Yields (e.apply limits q) fun r => p.Within limits r.value := by
  cases e with
  | reasonCode value =>
    simp only [DisconnectEdit.apply, yields_ite, yields_error, yields_ok, store, allows_eq]
    refine ⟨fun hallowed => ?_, fun _ => trivial⟩
    rw [h.direction] at hallowed
    exact { h with reasonCode := .inr hallowed }
  | sessionExpiryInterval value =>
    cases hdirection : q.direction with
    | outbound => simp only [DisconnectEdit.apply, hdirection, yields_error]
    | inbound connectExpiry =>
      simp only [DisconnectEdit.apply, hdirection, yields_ite, yields_check, yields_ok, store, kept,
        checkSessionExpiry_eq_ok]
      -- an expiry that is set to itself is not judged, and needs not be: it is what it was
      refine ⟨fun _ => h, fun _ hjudged => ?_⟩
      have hp : .inbound connectExpiry = p.direction := hdirection.symm.trans h.direction
      exact { h with direction := hp, sessionExpiryInterval := .inr ⟨connectExpiry, hp.symm, hjudged⟩ }
  | serverReference value =>
    cases hdirection : q.direction with
    | inbound connectExpiry => simp [DisconnectEdit.apply, isInbound, hdirection]
    | outbound =>
      simp only [DisconnectEdit.apply, isInbound, hdirection, yields_ite, yields_error, yields_check, yields_ok, store,
        checkOptional_eq_ok]
      refine ⟨fun _ => trivial, fun _ hpermits => ?_⟩
      have hp : .outbound = p.direction := hdirection.symm.trans h.direction
      exact { h with direction := hp, serverReference := .inr ⟨hp.symm, hpermits⟩ }

end Within
end DisconnectPacket

namespace Edit

theorem connect_within {p q : ConnectPacket} (h : p.Within limits q) (e : Edit) :
    Yields (e.apply limits (.connect q)) fun r => ∃ q', r.value = .connect q' ∧ p.Within limits q' := by
  cases e with
  | property e =>
    simp only [apply, setUserProperties, Packet.userProperties?, yields_bind, yields_ok]
    intro changed hchanged
    exact ⟨_, rfl, { h with userProperties := e.mem_or_permits h.userProperties changed hchanged }⟩
  | connect e => exact (yields_map _ _).2 ((h.change e).mono fun r hr => ⟨_, rfl, hr⟩)
  | reasonString | connack | ackReasonCode | subscription | subackCodes | topicFilters | unsubackCodes | disconnect =>
    exact yields_error _

theorem disconnect_within {p q : DisconnectPacket} (h : p.Within limits q) (e : Edit) :
    Yields (e.apply limits (.disconnect q)) fun r => ∃ q', r.value = .disconnect q' ∧ p.Within limits q' := by
  cases e with
  | property e =>
    simp only [apply, setUserProperties, Packet.userProperties?, yields_bind, yields_ok]
    intro changed hchanged
    exact ⟨_, rfl, { h with userProperties := e.mem_or_permits h.userProperties changed hchanged }⟩
  | reasonString value =>
    simp only [apply, setReasonString, Packet.allowsReasonString?, yields_check, yields_ite, yields_error, yields_ok,
      store, checkOptional_eq_ok]
    exact fun hpermits => ⟨fun _ => trivial, fun _ => ⟨_, rfl, { h with reasonString := .inr hpermits }⟩⟩
  | disconnect e => exact (yields_map _ _).2 ((h.change e).mono fun r hr => ⟨_, rfl, hr⟩)
  | connect | connack | ackReasonCode | subscription | subackCodes | topicFilters | unsubackCodes =>
    exact yields_error _

end Edit

namespace Packet.Becomes

theorem connect_within {p : ConnectPacket} {r : Packet} (h : (Packet.connect p).Becomes limits r) :
    ∃ q, r = .connect q ∧ p.Within limits q := by
  apply h.preserves (P := fun r => ∃ q, r = .connect q ∧ p.Within limits q) ⟨p, rfl, .refl p⟩
  rintro _ ⟨q, rfl, hq⟩ e
  exact e.connect_within hq

theorem disconnect_within {p : DisconnectPacket} {r : Packet} (h : (Packet.disconnect p).Becomes limits r) :
    ∃ q, r = .disconnect q ∧ p.Within limits q := by
  apply h.preserves (P := fun r => ∃ q, r = .disconnect q ∧ p.Within limits q) ⟨p, rfl, .refl p⟩
  rintro _ ⟨q, rfl, hq⟩ e
  exact e.disconnect_within hq

end Packet.Becomes

/-- A CONNECT or a DISCONNECT stays within the limits under any calls to its draft: whatever they are and whatever
the packet came with, what is left of it holds in each field what it came with or what that field may hold. -/
theorem settings_stay_within (limits : PacketLimits) (cs : List Call) :
    (∀ p : ConnectPacket, ∃ q, ((Draft.ofPacket limits (.connect p)).after cs).packet = .connect q ∧
      p.Within limits q) ∧
    ∀ p : DisconnectPacket, ∃ q, ((Draft.ofPacket limits (.disconnect p)).after cs).packet = .disconnect q ∧
      p.Within limits q :=
  ⟨fun p => ((Draft.ofPacket limits (.connect p)).after_becomes cs).2.connect_within,
    fun p => ((Draft.ofPacket limits (.disconnect p)).after_becomes cs).2.disconnect_within⟩

end BrokerHooks
