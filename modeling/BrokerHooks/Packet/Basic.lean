import BrokerHooks.Packet.Properties
import BrokerHooks.Protocol
import BrokerHooks.ReasonCode

namespace BrokerHooks

abbrev Bytes := List UInt8

structure WillMessage where
  topic : String
  payload : Bytes := []
  qos : Qos := .atMostOnce
  retain : Bool := false
  delayInterval : UInt32 := 0
  userProperties : UserProperties := []
deriving DecidableEq, Repr, Inhabited

structure ConnectPacket where
  protocolVersion : ProtocolVersion := .v5
  clientId : String
  cleanStart : Bool := true
  keepAlive : UInt16 := 60
  sessionExpiryInterval : UInt32 := 0
  receiveMaximum : UInt16 := 65535
  maximumPacketSize : UInt32 := 268435460
  topicAliasMaximum : UInt16 := 0
  requestResponseInformation : Bool := false
  requestProblemInformation : Bool := true
  username : Option String := none
  password : Option Bytes := none
  authMethod : Option String := none
  authData : Option Bytes := none
  will : Option WillMessage := none
  userProperties : UserProperties := []
deriving DecidableEq, Repr, Inhabited

structure ConnackPacket where
  reasonCode : ReasonCode := .success
  sessionPresent : Bool := false
  reasonString : Option String := none
  responseInformation : Option String := none
  serverReference : Option String := none
  assignedClientIdentifier : Option String := none
  /-- Whether the CONNECT asked for response information. -/
  responseInformationRequested : Bool := false
  userProperties : UserProperties := []
deriving DecidableEq, Repr, Inhabited

namespace ConnackPacket

def refused (code : ReasonCode) (reason : String) : ConnackPacket :=
  { reasonCode := code, reasonString := some reason }

def allowsReasonString (p : ConnackPacket) : Bool := p.reasonCode.isError

end ConnackPacket

/-- The four packets that acknowledge a PUBLISH. -/
inductive AckKind where
  | puback
  | pubrec
  | pubrel
  | pubcomp
deriving DecidableEq, Repr, Inhabited

namespace AckKind

def name : AckKind → String
  | .puback => "PUBACK"
  | .pubrec => "PUBREC"
  | .pubrel => "PUBREL"
  | .pubcomp => "PUBCOMP"

def allows : AckKind → ReasonCode → Bool
  | .puback | .pubrec => ReasonCode.inPuback
  | .pubrel | .pubcomp => ReasonCode.inPubrel

end AckKind

structure AckPacket where
  kind : AckKind
  packetId : UInt16
  reasonCode : ReasonCode := .success
  reasonString : Option String := none
  userProperties : UserProperties := []
deriving DecidableEq, Repr, Inhabited

def AckPacket.allowsReasonString (p : AckPacket) : Bool := p.reasonCode.isError

structure Subscription where
  topicFilter : String
  qos : Qos
  retainHandling : RetainHandling := .sendAtSubscribe
  retainAsPublished : Bool := false
  noLocal : Bool := false
deriving DecidableEq, Repr, Inhabited

structure SubscribePacket where
  packetId : UInt16
  subscriptions : List Subscription
  subscriptionIdentifier : Option UInt32 := none
  userProperties : UserProperties := []
deriving DecidableEq, Repr, Inhabited

structure UnsubscribePacket where
  packetId : UInt16
  topicFilters : List String
  userProperties : UserProperties := []
deriving DecidableEq, Repr, Inhabited

structure SubackPacket where
  packetId : UInt16
  reasonCodes : List ReasonCode
  reasonString : Option String := none
  userProperties : UserProperties := []
deriving DecidableEq, Repr, Inhabited

namespace SubackPacket

def refusing (request : SubscribePacket) (code : ReasonCode) (reason : String) : SubackPacket where
  packetId := request.packetId
  reasonCodes := request.subscriptions.map fun _ => code
  reasonString := some reason

def allowsReasonString (p : SubackPacket) : Bool := p.reasonCodes.any (·.isError)

end SubackPacket

structure UnsubackPacket where
  packetId : UInt16
  reasonCodes : List ReasonCode
  reasonString : Option String := none
  userProperties : UserProperties := []
deriving DecidableEq, Repr, Inhabited

namespace UnsubackPacket

def refusing (request : UnsubscribePacket) (code : ReasonCode) (reason : String) :
    UnsubackPacket where
  packetId := request.packetId
  reasonCodes := request.topicFilters.map fun _ => code
  reasonString := some reason

def allowsReasonString (p : UnsubackPacket) : Bool := p.reasonCodes.any (·.isError)

end UnsubackPacket

inductive PingPacket where
  | request
  | response
deriving DecidableEq, Repr, Inhabited

/-- Who sends a DISCONNECT; an inbound one keeps the session expiry of the client's CONNECT. -/
inductive Direction where
  | inbound (connectSessionExpiry : UInt32)
  | outbound
deriving DecidableEq, Repr, Inhabited

structure DisconnectPacket where
  direction : Direction
  reasonCode : ReasonCode := .success
  reasonString : Option String := none
  sessionExpiryInterval : Option UInt32 := none
  serverReference : Option String := none
  userProperties : UserProperties := []
deriving DecidableEq, Repr, Inhabited

namespace DisconnectPacket

def isInbound (p : DisconnectPacket) : Bool :=
  match p.direction with
  | .inbound _ => true
  | .outbound => false

def allows (p : DisconnectPacket) (code : ReasonCode) : Bool :=
  if p.isInbound then code.inClientDisconnect else code.inServerDisconnect

end DisconnectPacket

inductive Packet where
  | connect (p : ConnectPacket)
  | connack (p : ConnackPacket)
  | ack (p : AckPacket)
  | subscribe (p : SubscribePacket)
  | suback (p : SubackPacket)
  | unsubscribe (p : UnsubscribePacket)
  | unsuback (p : UnsubackPacket)
  | ping (p : PingPacket)
  | disconnect (p : DisconnectPacket)
deriving DecidableEq, Repr, Inhabited

/-- The packets that share a set of fields, and so the hooks that can read them. -/
inductive Family where
  | connect
  | connack
  | ack
  | subscribe
  | suback
  | unsubscribe
  | unsuback
  | ping
  | disconnect
deriving DecidableEq, Repr, Inhabited

namespace Packet

def family : Packet → Family
  | .connect _ => .connect
  | .connack _ => .connack
  | .ack _ => .ack
  | .subscribe _ => .subscribe
  | .suback _ => .suback
  | .unsubscribe _ => .unsubscribe
  | .unsuback _ => .unsuback
  | .ping _ => .ping
  | .disconnect _ => .disconnect

def name : Packet → String
  | .connect _ => "CONNECT"
  | .connack _ => "CONNACK"
  | .ack p => p.kind.name
  | .subscribe _ => "SUBSCRIBE"
  | .suback _ => "SUBACK"
  | .unsubscribe _ => "UNSUBSCRIBE"
  | .unsuback _ => "UNSUBACK"
  | .ping .request => "PINGREQ"
  | .ping .response => "PINGRESP"
  | .disconnect _ => "DISCONNECT"

def userProperties? : Packet → Option UserProperties
  | .connect p => some p.userProperties
  | .connack p => some p.userProperties
  | .ack p => some p.userProperties
  | .subscribe p => some p.userProperties
  | .suback p => some p.userProperties
  | .unsubscribe p => some p.userProperties
  | .unsuback p => some p.userProperties
  | .ping _ => none
  | .disconnect p => some p.userProperties

def withUserProperties (ps : UserProperties) : Packet → Packet
  | .connect p => .connect { p with userProperties := ps }
  | .connack p => .connack { p with userProperties := ps }
  | .ack p => .ack { p with userProperties := ps }
  | .subscribe p => .subscribe { p with userProperties := ps }
  | .suback p => .suback { p with userProperties := ps }
  | .unsubscribe p => .unsubscribe { p with userProperties := ps }
  | .unsuback p => .unsuback { p with userProperties := ps }
  | .ping p => .ping p
  | .disconnect p => .disconnect { p with userProperties := ps }

def reasonString? : Packet → Option (Option String)
  | .connack p => some p.reasonString
  | .ack p => some p.reasonString
  | .suback p => some p.reasonString
  | .unsuback p => some p.reasonString
  | .disconnect p => some p.reasonString
  | _ => none

def withReasonString (s : Option String) : Packet → Packet
  | .connack p => .connack { p with reasonString := s }
  | .ack p => .ack { p with reasonString := s }
  | .suback p => .suback { p with reasonString := s }
  | .unsuback p => .unsuback { p with reasonString := s }
  | .disconnect p => .disconnect { p with reasonString := s }
  | p => p

/-- Whether the packet may carry a reason string in its state; `none` if it has no slot for one. -/
def allowsReasonString? : Packet → Option Bool
  | .connack p => some p.allowsReasonString
  | .ack p => some p.allowsReasonString
  | .suback p => some p.allowsReasonString
  | .unsuback p => some p.allowsReasonString
  | .disconnect _ => some true
  | _ => none

@[simp] theorem userProperties?_withUserProperties (ps : UserProperties) (p : Packet) :
    (p.withUserProperties ps).userProperties? = p.userProperties?.map fun _ => ps := by
  cases p <;> rfl

@[simp] theorem family_withUserProperties (ps : UserProperties) (p : Packet) :
    (p.withUserProperties ps).family = p.family := by
  cases p <;> rfl

@[simp] theorem family_withReasonString (s : Option String) (p : Packet) :
    (p.withReasonString s).family = p.family := by
  cases p <;> rfl

@[simp] theorem reasonString?_withReasonString (s : Option String) (p : Packet) :
    (p.withReasonString s).reasonString? = p.reasonString?.map fun _ => s := by
  cases p <;> rfl

theorem isSome_allowsReasonString? (p : Packet) :
    p.allowsReasonString?.isSome = p.reasonString?.isSome := by
  cases p <;> rfl

theorem withUserProperties_eq_self {p : Packet} {ps : UserProperties} (h : p.userProperties? = some ps)
    (ps' : UserProperties) : p.withUserProperties ps' = p ↔ ps' = ps := by
  constructor
  · intro heq
    have := p.userProperties?_withUserProperties ps'
    simpa [heq, h] using this.symm
  · rintro rfl
    cases p <;> cases h <;> rfl

theorem withReasonString_eq_self {p : Packet} {s : Option String} (h : p.reasonString? = some s)
    (s' : Option String) : p.withReasonString s' = p ↔ s' = s := by
  constructor
  · intro heq
    have := p.reasonString?_withReasonString s'
    simpa [heq, h] using this.symm
  · rintro rfl
    cases p <;> cases h <;> rfl

end Packet
end BrokerHooks
