import BrokerHooks.ReasonCode
import BrokerHooks.TopicFilter

namespace BrokerHooks

inductive Restriction where
  | willTopicWildcard
  | responseInformationNotRequested
  | sharedNoLocal
  | sessionExpiryOutbound
  | sessionExpiryFromZero
  | serverReferenceInbound
deriving DecidableEq, Repr

def Restriction.message : Restriction → String
  | .willTopicWildcard => "will topic must not contain wildcards"
  | .responseInformationNotRequested => "response information was not requested in the CONNECT"
  | .sharedNoLocal => "shared subscriptions must not set no local"
  | .sessionExpiryOutbound => "session expiry can only be changed on inbound DISCONNECT"
  | .sessionExpiryFromZero =>
    "session expiry must stay zero when the client connected with zero"
  | .serverReferenceInbound => "server reference can only be set on outbound DISCONNECT"

inductive PacketError where
  | stringTooLong (field : String) (length max : Nat)
  | malformedUtf8 (field : String)
  | reasonCodeNotAllowed (packet : String) (code : ReasonCode)
  | reasonCodeSwitch (current next : ReasonCode)
  | reasonStringOnSuccess (packet : String)
  | invalidTopicFilter (filter : String) (fault : TopicFilter.Fault)
  | outOfRange (field : String) (value max : Nat)
  | empty (field : String)
  | lengthMismatch (expected actual : Nat)
  | indexOutOfBounds (index length : Nat)
  | notAllowed (restriction : Restriction)
  /-- The packet has no such field. -/
  | inapplicable (packet : String)
deriving DecidableEq, Repr

def PacketError.message : PacketError → String
  | .stringTooLong field length max => s!"{field} length {length} exceeds maximum of {max}"
  | .malformedUtf8 field => s!"{field} is UTF-8 malformed"
  | .reasonCodeNotAllowed packet code =>
    s!"Reason code {code.text} must not be used for {packet} packets"
  | .reasonCodeSwitch current next =>
    s!"Reason code must not switch from {current.text} to {next.text}"
  | .reasonStringOnSuccess packet =>
    s!"Reason string must not be set on a successful {packet}"
  | .invalidTopicFilter filter fault => s!"Invalid topic filter '{filter}': {fault.message}"
  | .outOfRange field value max => s!"{field} {value} exceeds maximum of {max}"
  | .empty field => s!"{field} must not be empty or zero"
  | .lengthMismatch expected actual => s!"Expected {expected} entries but got {actual}"
  | .indexOutOfBounds index length => s!"Index {index} out of bounds for {length} entries"
  | .notAllowed restriction => "Not allowed: " ++ restriction.message
  | .inapplicable packet => s!"{packet} packets have no such field"

end BrokerHooks
