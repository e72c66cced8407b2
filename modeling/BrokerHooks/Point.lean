import BrokerHooks.Packet.Basic

namespace BrokerHooks

inductive Point where
  | connectInbound
  | connackOutbound
  | pubackInbound
  | pubackOutbound
  | pubrecInbound
  | pubrecOutbound
  | pubrelInbound
  | pubrelOutbound
  | pubcompInbound
  | pubcompOutbound
  | subscribeInbound
  | subackOutbound
  | unsubscribeInbound
  | unsubackOutbound
  | pingreqInbound
  | pingrespOutbound
  | disconnectInbound
  | disconnectOutbound
deriving DecidableEq, Repr, Inhabited

inductive Reaction where
  | closeConnection
  | forwardUnmodified
  | failureAck (code : ReasonCode)
deriving DecidableEq, Repr

namespace Point

def all : List Point :=
  [.connectInbound, .connackOutbound, .pubackInbound, .pubackOutbound, .pubrecInbound,
   .pubrecOutbound, .pubrelInbound, .pubrelOutbound, .pubcompInbound, .pubcompOutbound,
   .subscribeInbound, .subackOutbound, .unsubscribeInbound, .unsubackOutbound, .pingreqInbound,
   .pingrespOutbound, .disconnectInbound, .disconnectOutbound]

def label : Point → String
  | .connectInbound => "connect_inbound"
  | .connackOutbound => "connack_outbound"
  | .pubackInbound => "puback_inbound"
  | .pubackOutbound => "puback_outbound"
  | .pubrecInbound => "pubrec_inbound"
  | .pubrecOutbound => "pubrec_outbound"
  | .pubrelInbound => "pubrel_inbound"
  | .pubrelOutbound => "pubrel_outbound"
  | .pubcompInbound => "pubcomp_inbound"
  | .pubcompOutbound => "pubcomp_outbound"
  | .subscribeInbound => "subscribe_inbound"
  | .subackOutbound => "suback_outbound"
  | .unsubscribeInbound => "unsubscribe_inbound"
  | .unsubackOutbound => "unsuback_outbound"
  | .pingreqInbound => "pingreq_inbound"
  | .pingrespOutbound => "pingresp_outbound"
  | .disconnectInbound => "disconnect_inbound"
  | .disconnectOutbound => "disconnect_outbound"

def isInbound : Point → Bool
  | .connectInbound | .pubackInbound | .pubrecInbound | .pubrelInbound | .pubcompInbound
  | .subscribeInbound | .unsubscribeInbound | .pingreqInbound | .disconnectInbound => true
  | _ => false

def failureReaction : Point → Reaction
  | .connectInbound | .subscribeInbound | .unsubscribeInbound => .failureAck .unspecifiedError
  | .connackOutbound | .pubackInbound | .pubcompInbound => .closeConnection
  | _ => .forwardUnmodified

/-- The reaction to a prevented packet, at the points where a packet can be prevented. -/
def preventReaction? : Point → Option Reaction
  | .connackOutbound => some .closeConnection
  | .subscribeInbound | .unsubscribeInbound => some (.failureAck .unspecifiedError)
  | _ => none

/-- The point an acknowledgement of a PUBLISH passes in one direction. -/
def ofAck : AckKind → (inbound : Bool) → Point
  | .puback, true => .pubackInbound
  | .puback, false => .pubackOutbound
  | .pubrec, true => .pubrecInbound
  | .pubrec, false => .pubrecOutbound
  | .pubrel, true => .pubrelInbound
  | .pubrel, false => .pubrelOutbound
  | .pubcomp, true => .pubcompInbound
  | .pubcomp, false => .pubcompOutbound

def family : Point → Family
  | .connectInbound => .connect
  | .connackOutbound => .connack
  | .pubackInbound | .pubackOutbound | .pubrecInbound | .pubrecOutbound | .pubrelInbound
  | .pubrelOutbound | .pubcompInbound | .pubcompOutbound => .ack
  | .subscribeInbound => .subscribe
  | .subackOutbound => .suback
  | .unsubscribeInbound => .unsubscribe
  | .unsubackOutbound => .unsuback
  | .pingreqInbound | .pingrespOutbound => .ping
  | .disconnectInbound | .disconnectOutbound => .disconnect

end Point

def Family.points (f : Family) : List Point := Point.all.filter (·.family = f)

/-- Whether the packet passes that point, by its kind and direction. -/
def Packet.belongsTo : Packet → Point → Bool
  | .ack p, point => point = .ofAck p.kind true || point = .ofAck p.kind false
  | .ping .request, point => point = .pingreqInbound
  | .ping .response, point => point = .pingrespOutbound
  | .disconnect p, point =>
    point = if p.isInbound then .disconnectInbound else .disconnectOutbound
  | p, point => point.family = p.family

namespace Point

theorem mem_all (p : Point) : p ∈ all := by
  cases p <;> decide

theorem mem_points {p : Point} {f : Family} : p ∈ f.points ↔ p.family = f := by
  simp [Family.points, mem_all]

theorem label_injective {p q : Point} (h : p.label = q.label) : p = q := by
  revert h
  cases p <;> cases q <;> decide

end Point

theorem Packet.family_of_belongsTo {p : Packet} {point : Point} (h : p.belongsTo point) :
    point.family = p.family := by
  unfold belongsTo at h
  split at h
  · rename_i a
    cases hk : a.kind <;> simp [hk, Point.ofAck] at h <;> rcases h with h | h <;> subst h <;> rfl
  · simp at h; subst h; rfl
  · simp at h; subst h; rfl
  · simp at h; subst h; split <;> rfl
  · simpa using h

end BrokerHooks
