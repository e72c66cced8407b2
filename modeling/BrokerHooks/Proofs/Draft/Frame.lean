import BrokerHooks.Point
import BrokerHooks.Proofs.Draft.ReasonCodes

namespace BrokerHooks

/-- The parts of a packet that no change reaches, and the lengths of its lists. -/
inductive Packet.Fixed where
  | connect (protocolVersion : ProtocolVersion)
  | connack (sessionPresent : Bool) (assignedClientIdentifier : Option String)
      (responseInformationRequested : Bool)
  | ack (kind : AckKind) (packetId : UInt16)
  | subscribe (packetId : UInt16) (subscriptionIdentifier : Option UInt32) (subscriptions : Nat)
  | suback (packetId : UInt16) (reasonCodes : Nat)
  | unsubscribe (packetId : UInt16) (topicFilters : Nat)
  | unsuback (packetId : UInt16) (reasonCodes : Nat)
  | ping (p : PingPacket)
  | inboundDisconnect (connectSessionExpiry : UInt32) (serverReference : Option String)
  | outboundDisconnect (sessionExpiryInterval : Option UInt32)
deriving DecidableEq, Repr

namespace Packet

def fixed : Packet → Fixed
  | .connect p => .connect p.protocolVersion
  | .connack p =>
    .connack p.sessionPresent p.assignedClientIdentifier p.responseInformationRequested
  | .ack p => .ack p.kind p.packetId
  | .subscribe p => .subscribe p.packetId p.subscriptionIdentifier p.subscriptions.length
  | .suback p => .suback p.packetId p.reasonCodes.length
  | .unsubscribe p => .unsubscribe p.packetId p.topicFilters.length
  | .unsuback p => .unsuback p.packetId p.reasonCodes.length
  | .ping p => .ping p
  | .disconnect p =>
    match p.direction with
    | .inbound connectSessionExpiry => .inboundDisconnect connectSessionExpiry p.serverReference
    | .outbound => .outboundDisconnect p.sessionExpiryInterval

@[simp] theorem fixed_withUserProperties (ps : UserProperties) (p : Packet) :
    (p.withUserProperties ps).fixed = p.fixed := by
  cases p <;> rfl

@[simp] theorem fixed_withReasonString (s : Option String) (p : Packet) :
    (p.withReasonString s).fixed = p.fixed := by
  cases p <;> rfl

def Fixed.belongsTo : Fixed → Point → Bool
  | .connect .., point => point.family = .connect
  | .connack .., point => point.family = .connack
  | .ack kind _, point => point = .ofAck kind true || point = .ofAck kind false
  | .subscribe .., point => point.family = .subscribe
  | .suback .., point => point.family = .suback
  | .unsubscribe .., point => point.family = .unsubscribe
  | .unsuback .., point => point.family = .unsuback
  | .ping p, point => (Packet.ping p).belongsTo point
  | .inboundDisconnect .., point => point = .disconnectInbound
  | .outboundDisconnect _, point => point = .disconnectOutbound

theorem belongsTo_fixed (p : Packet) (point : Point) : p.fixed.belongsTo point = p.belongsTo point := by
  cases p with
  | disconnect p =>
    obtain ⟨direction⟩ := p
    cases direction <;> rfl
  | _ => rfl

/-- What a packet belongs to is decided by parts that no change reaches. -/
theorem belongsTo_of_fixed {p q : Packet} (h : q.fixed = p.fixed) (point : Point) :
    q.belongsTo point = p.belongsTo point := by
  rw [← belongsTo_fixed, h, belongsTo_fixed]

end Packet

open Revision (store kept)

variable (limits : PacketLimits)

theorem ConnectEdit.fixed (p : ConnectPacket) (e : ConnectEdit) :
    Yields (e.apply limits p) fun r => (Packet.connect r.value).fixed = (Packet.connect p).fixed := by
  cases e with
  | will value => cases value <;> simp [apply, store, Packet.fixed]
  | _ => simp [apply, store, Packet.fixed]

theorem ConnackEdit.fixed (p : ConnackPacket) (e : ConnackEdit) :
    Yields (e.apply limits p) fun r => (Packet.connack r.value).fixed = (Packet.connack p).fixed := by
  cases e <;> simp [apply, store, Packet.fixed]

theorem AckPacket.withReasonCode_fixed (p : AckPacket) (value : ReasonCode) :
    Yields (p.withReasonCode value) fun r => (Packet.ack r.value).fixed = (Packet.ack p).fixed := by
  simp [withReasonCode, store, Packet.fixed]

theorem SubscribePacket.editAt_fixed (p : SubscribePacket) (index : Nat) (e : SubscriptionEdit) :
    Yields (p.editAt limits index e) fun r =>
      (Packet.subscribe r.value).fixed = (Packet.subscribe p).fixed := by
  simp [editAt, Revision.map, Packet.fixed]

theorem UnsubscribePacket.editFilters_fixed (p : UnsubscribePacket) (e : ListEdit String) :
    Yields (p.editFilters limits e) fun r =>
      (Packet.unsubscribe r.value).fixed = (Packet.unsubscribe p).fixed := by
  simp only [editFilters, yields_bind, yields_ite, yields_error, yields_ok, implies_true, true_and,
    not_not, store, Packet.fixed]
  intro filters _ hlength _ _
  rw [hlength]

theorem SubackPacket.editCodes_fixed (p : SubackPacket) (e : ListEdit ReasonCode) :
    Yields (p.editCodes e) fun r => (Packet.suback r.value).fixed = (Packet.suback p).fixed := by
  simp only [editCodes, yields_bind, yields_ok, store, Packet.fixed]
  intro codes _ _ hcodes
  rw [(checkReasonCodes_eq_ok.1 hcodes).length_eq]

theorem UnsubackPacket.editCodes_fixed (p : UnsubackPacket) (e : ListEdit ReasonCode) :
    Yields (p.editCodes e) fun r => (Packet.unsuback r.value).fixed = (Packet.unsuback p).fixed := by
  simp only [editCodes, yields_bind, yields_ok, store, Packet.fixed]
  intro codes _ _ hcodes
  rw [(checkReasonCodes_eq_ok.1 hcodes).length_eq]

/-- The session expiry can change only on the way in, the server reference only on the way out. -/
theorem DisconnectEdit.fixed (p : DisconnectPacket) (e : DisconnectEdit) :
    Yields (e.apply limits p) fun r => (Packet.disconnect r.value).fixed = (Packet.disconnect p).fixed := by
  cases h : p.direction <;> cases e <;>
    simp [apply, store, kept, Packet.fixed, DisconnectPacket.isInbound, h]

/-- No accepted change touches the parts of a packet that are fixed. -/
theorem Edit.fixed (e : Edit) (p : Packet) :
    Yields (e.apply limits p) fun r => r.value.fixed = p.fixed := by
  have lift {α : Type} {f : α → Packet} {x : Except PacketError (Revision α)} {part : α}
      (h : Yields x fun r => (f r.value).fixed = (f part).fixed) :
      Yields (x.map (·.map f)) fun r => r.value.fixed = (f part).fixed := (yields_map _ _).2 h
  unfold apply
  split
  · unfold setUserProperties
    split <;> simp [Revision.map]
  · unfold setReasonString
    split <;> simp [store]
  · exact lift (ConnectEdit.fixed limits _ _)
  · exact lift (ConnackEdit.fixed limits _ _)
  · exact lift (AckPacket.withReasonCode_fixed _ _)
  · exact lift (SubscribePacket.editAt_fixed limits _ _ _)
  · exact lift (SubackPacket.editCodes_fixed _ _)
  · exact lift (UnsubscribePacket.editFilters_fixed limits _ _)
  · exact lift (UnsubackPacket.editCodes_fixed _ _)
  · exact lift (DisconnectEdit.fixed limits _ _)
  · exact yields_error _

end BrokerHooks
