import BrokerHooks.Report

namespace BrokerHooks

inductive FailureAck where
  | connack (p : ConnackPacket)
  | suback (p : SubackPacket)
  | unsuback (p : UnsubackPacket)
deriving DecidableEq, Repr

def FailureAck.packet : FailureAck → Packet
  | .connack p => .connack p
  | .suback p => .suback p
  | .unsuback p => .unsuback p

inductive Delivery where
  | proceed (p : Packet)
  | drop
  | closeConnection
  | failureAck (ack : FailureAck)
deriving DecidableEq, Repr

namespace Delivery

def connectTimeout : String := "Extension interceptor timeout"

def connectFailed (clientId : String) : String :=
  s!"Connect with client ID {clientId} failed because of an exception was thrown by an CONNECT inbound interceptor."

def subscribePrevented : String := "SUBSCRIBE prevented by an extension."

def unsubscribePrevented : String := "UNSUBSCRIBE prevented by an extension."

/-- An acknowledgement that nobody can send closes the connection. -/
def ofOutcome : Outcome → Delivery
  | .proceed p => .proceed p
  | .drop => .drop
  | .closeConnection => .closeConnection
  | .failureAck _ => .closeConnection

/-- The reason a refused CONNECT is given; `clientId` serves where no failure is known. -/
def connectReason (clientId : String) : Option Failure → String
  | none => connectFailed clientId
  | some f =>
    if f.cause = .timeout then connectTimeout
    else
      match f.supplied with
      | .connect p => connectFailed p.clientId
      | _ => connectFailed clientId

/-- The acknowledgement that refuses a SUBSCRIBE or UNSUBSCRIBE. -/
def refusal? (code : ReasonCode) : Packet → Option FailureAck
  | .subscribe p => some (.suback (.refusing p code subscribePrevented))
  | .unsubscribe p => some (.unsuback (.refusing p code unsubscribePrevented))
  | _ => none

/-- The delivery of a packet that was sent through the point of its kind; `clientId` is that of the
connection. -/
def ofReport (clientId : String) (point : Point) (r : Report) : Delivery :=
  match r.outcome, point, r.failure with
  | .failureAck code, .connectInbound, failure =>
    .failureAck (.connack (.refused code (connectReason clientId failure)))
  | .failureAck code, .subscribeInbound, some f
  | .failureAck code, .unsubscribeInbound, some f =>
    match refusal? code f.supplied with
    | some ack => .failureAck ack
    | none => .closeConnection
  | outcome, _, _ => ofOutcome outcome

end Delivery

/-- The point at which the transport hands over a packet. Only acknowledgements of a PUBLISH travel
both ways under one kind, so only they need a direction. -/
def Packet.point (inbound : Bool) : Packet → Point
  | .connect _ => .connectInbound
  | .connack _ => .connackOutbound
  | .ack p => .ofAck p.kind inbound
  | .subscribe _ => .subscribeInbound
  | .suback _ => .subackOutbound
  | .unsubscribe _ => .unsubscribeInbound
  | .unsuback _ => .unsubackOutbound
  | .ping .request => .pingreqInbound
  | .ping .response => .pingrespOutbound
  | .disconnect p => if p.isInbound then .disconnectInbound else .disconnectOutbound

theorem Packet.belongsTo_point (p : Packet) (inbound : Bool) : p.belongsTo (p.point inbound) := by
  cases p with
  | ack p => cases inbound <;> simp [point, belongsTo]
  | ping p => cases p <;> rfl
  | disconnect p => simp [point, belongsTo]
  | _ => rfl

end BrokerHooks
