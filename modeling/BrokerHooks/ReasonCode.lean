namespace BrokerHooks

inductive ReasonCode where
  | success
  | grantedQos1
  | grantedQos2
  | disconnectWithWill
  | noMatchingSubscribers
  | noSubscriptionExisted
  | continueAuthentication
  | reAuthenticate
  | unspecifiedError
  | malformedPacket
  | protocolError
  | implementationError
  | unsupportedProtocolVersion
  | clientIdNotValid
  | badUserNameOrPassword
  | notAuthorized
  | serverUnavailable
  | serverBusy
  | banned
  | serverShuttingDown
  | badAuthenticationMethod
  | keepAliveTimeout
  | sessionTakenOver
  | topicFilterInvalid
  | topicNameInvalid
  | packetIdInUse
  | packetIdNotFound
  | receiveMaximumExceeded
  | topicAliasInvalid
  | packetTooLarge
  | messageRateTooHigh
  | quotaExceeded
  | administrativeAction
  | payloadFormatInvalid
  | retainNotSupported
  | qosNotSupported
  | useAnotherServer
  | serverMoved
  | sharedSubscriptionsNotSupported
  | connectionRateExceeded
  | maximumConnectTime
  | subscriptionIdsNotSupported
  | wildcardSubscriptionsNotSupported
deriving DecidableEq, Repr, Inhabited

namespace ReasonCode

def byte : ReasonCode → UInt8
  | .success => 0x00
  | .grantedQos1 => 0x01
  | .grantedQos2 => 0x02
  | .disconnectWithWill => 0x04
  | .noMatchingSubscribers => 0x10
  | .noSubscriptionExisted => 0x11
  | .continueAuthentication => 0x18
  | .reAuthenticate => 0x19
  | .unspecifiedError => 0x80
  | .malformedPacket => 0x81
  | .protocolError => 0x82
  | .implementationError => 0x83
  | .unsupportedProtocolVersion => 0x84
  | .clientIdNotValid => 0x85
  | .badUserNameOrPassword => 0x86
  | .notAuthorized => 0x87
  | .serverUnavailable => 0x88
  | .serverBusy => 0x89
  | .banned => 0x8A
  | .serverShuttingDown => 0x8B
  | .badAuthenticationMethod => 0x8C
  | .keepAliveTimeout => 0x8D
  | .sessionTakenOver => 0x8E
  | .topicFilterInvalid => 0x8F
  | .topicNameInvalid => 0x90
  | .packetIdInUse => 0x91
  | .packetIdNotFound => 0x92
  | .receiveMaximumExceeded => 0x93
  | .topicAliasInvalid => 0x94
  | .packetTooLarge => 0x95
  | .messageRateTooHigh => 0x96
  | .quotaExceeded => 0x97
  | .administrativeAction => 0x98
  | .payloadFormatInvalid => 0x99
  | .retainNotSupported => 0x9A
  | .qosNotSupported => 0x9B
  | .useAnotherServer => 0x9C
  | .serverMoved => 0x9D
  | .sharedSubscriptionsNotSupported => 0x9E
  | .connectionRateExceeded => 0x9F
  | .maximumConnectTime => 0xA0
  | .subscriptionIdsNotSupported => 0xA1
  | .wildcardSubscriptionsNotSupported => 0xA2

/-- Every code once, by ascending byte. -/
def all : List ReasonCode :=
  [.success, .grantedQos1, .grantedQos2, .disconnectWithWill, .noMatchingSubscribers,
   .noSubscriptionExisted, .continueAuthentication, .reAuthenticate, .unspecifiedError,
   .malformedPacket, .protocolError, .implementationError, .unsupportedProtocolVersion,
   .clientIdNotValid, .badUserNameOrPassword, .notAuthorized, .serverUnavailable, .serverBusy,
   .banned, .serverShuttingDown, .badAuthenticationMethod, .keepAliveTimeout, .sessionTakenOver,
   .topicFilterInvalid, .topicNameInvalid, .packetIdInUse, .packetIdNotFound,
   .receiveMaximumExceeded, .topicAliasInvalid, .packetTooLarge, .messageRateTooHigh,
   .quotaExceeded, .administrativeAction, .payloadFormatInvalid, .retainNotSupported,
   .qosNotSupported, .useAnotherServer, .serverMoved, .sharedSubscriptionsNotSupported,
   .connectionRateExceeded, .maximumConnectTime, .subscriptionIdsNotSupported,
   .wildcardSubscriptionsNotSupported]

def ofByte? (b : UInt8) : Option ReasonCode := all.find? (·.byte = b)

/-- Codes from `0x80` on report a failure. -/
def isError (c : ReasonCode) : Bool := 0x80 ≤ c.byte

def isSuccess (c : ReasonCode) : Bool := c.byte < 0x80

/-- One of the two codes reports a failure and the other does not. -/
def crosses (c d : ReasonCode) : Bool := c.isSuccess != d.isSuccess

def inConnack : ReasonCode → Bool
  | .success | .unspecifiedError | .malformedPacket | .protocolError | .implementationError
  | .unsupportedProtocolVersion | .clientIdNotValid | .badUserNameOrPassword
  | .notAuthorized | .serverUnavailable | .serverBusy | .banned | .badAuthenticationMethod
  | .topicNameInvalid | .packetTooLarge | .quotaExceeded | .payloadFormatInvalid
  | .retainNotSupported | .qosNotSupported | .useAnotherServer | .serverMoved
  | .connectionRateExceeded => true
  | _ => false

def inPuback : ReasonCode → Bool
  | .success | .noMatchingSubscribers | .unspecifiedError | .implementationError
  | .notAuthorized | .topicNameInvalid | .packetIdInUse | .quotaExceeded
  | .payloadFormatInvalid => true
  | _ => false

def inPubrel : ReasonCode → Bool
  | .success | .packetIdNotFound => true
  | _ => false

def inSuback : ReasonCode → Bool
  | .success | .grantedQos1 | .grantedQos2 | .unspecifiedError | .implementationError
  | .notAuthorized | .topicFilterInvalid | .packetIdInUse | .quotaExceeded
  | .sharedSubscriptionsNotSupported | .subscriptionIdsNotSupported
  | .wildcardSubscriptionsNotSupported => true
  | _ => false

def inUnsuback : ReasonCode → Bool
  | .success | .noSubscriptionExisted | .unspecifiedError | .implementationError
  | .notAuthorized | .topicFilterInvalid | .packetIdInUse => true
  | _ => false

def inClientDisconnect : ReasonCode → Bool
  | .success | .disconnectWithWill | .unspecifiedError | .malformedPacket | .protocolError
  | .implementationError | .topicNameInvalid | .receiveMaximumExceeded | .topicAliasInvalid
  | .packetTooLarge | .messageRateTooHigh | .quotaExceeded | .administrativeAction
  | .payloadFormatInvalid => true
  | _ => false

def inServerDisconnect : ReasonCode → Bool
  | .success | .unspecifiedError | .malformedPacket | .protocolError | .implementationError
  | .notAuthorized | .serverBusy | .serverShuttingDown | .keepAliveTimeout
  | .sessionTakenOver | .topicFilterInvalid | .topicNameInvalid | .receiveMaximumExceeded
  | .topicAliasInvalid | .packetTooLarge | .messageRateTooHigh | .quotaExceeded
  | .administrativeAction | .payloadFormatInvalid | .retainNotSupported | .qosNotSupported
  | .useAnotherServer | .serverMoved | .sharedSubscriptionsNotSupported
  | .connectionRateExceeded | .maximumConnectTime | .subscriptionIdsNotSupported
  | .wildcardSubscriptionsNotSupported => true
  | _ => false

def description : ReasonCode → String
  | .success => "Success"
  | .grantedQos1 => "Granted QoS 1"
  | .grantedQos2 => "Granted QoS 2"
  | .disconnectWithWill => "Disconnect with Will Message"
  | .noMatchingSubscribers => "No matching subscribers"
  | .noSubscriptionExisted => "No subscription existed"
  | .continueAuthentication => "Continue authentication"
  | .reAuthenticate => "Re-authenticate"
  | .unspecifiedError => "Unspecified error"
  | .malformedPacket => "Malformed Packet"
  | .protocolError => "Protocol Error"
  | .implementationError => "Implementation specific error"
  | .unsupportedProtocolVersion => "Unsupported Protocol Version"
  | .clientIdNotValid => "Client Identifier not valid"
  | .badUserNameOrPassword => "Bad User Name or Password"
  | .notAuthorized => "Not authorized"
  | .serverUnavailable => "Server unavailable"
  | .serverBusy => "Server busy"
  | .banned => "Banned"
  | .serverShuttingDown => "Server shutting down"
  | .badAuthenticationMethod => "Bad authentication method"
  | .keepAliveTimeout => "Keep Alive timeout"
  | .sessionTakenOver => "Session taken over"
  | .topicFilterInvalid => "Topic Filter invalid"
  | .topicNameInvalid => "Topic Name invalid"
  | .packetIdInUse => "Packet Identifier in use"
  | .packetIdNotFound => "Packet Identifier not found"
  | .receiveMaximumExceeded => "Receive Maximum exceeded"
  | .topicAliasInvalid => "Topic Alias invalid"
  | .packetTooLarge => "Packet too large"
  | .messageRateTooHigh => "Message rate too high"
  | .quotaExceeded => "Quota exceeded"
  | .administrativeAction => "Administrative action"
  | .payloadFormatInvalid => "Payload format invalid"
  | .retainNotSupported => "Retain not supported"
  | .qosNotSupported => "QoS not supported"
  | .useAnotherServer => "Use another server"
  | .serverMoved => "Server moved"
  | .sharedSubscriptionsNotSupported => "Shared Subscriptions not supported"
  | .connectionRateExceeded => "Connection rate exceeded"
  | .maximumConnectTime => "Maximum connect time"
  | .subscriptionIdsNotSupported => "Subscription Identifiers not supported"
  | .wildcardSubscriptionsNotSupported => "Wildcard Subscriptions not supported"

def hexDigit (n : Nat) : Char := Nat.digitChar n |>.toUpper

/-- The description, then the byte as two upper-case hexadecimal digits. -/
def text (c : ReasonCode) : String :=
  let b := c.byte.toNat
  s!"{c.description} (0x{hexDigit (b / 16)}{hexDigit (b % 16)})"

theorem isError_eq_not_isSuccess (c : ReasonCode) : c.isError = !c.isSuccess := by
  cases c <;> rfl

theorem ofByte?_byte (c : ReasonCode) : ofByte? c.byte = some c := by
  cases c <;> decide

theorem mem_all (c : ReasonCode) : c ∈ all := by
  cases c <;> decide

end ReasonCode
end BrokerHooks
