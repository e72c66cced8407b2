import BrokerHooks.Turn

namespace BrokerHooks

inductive ExtensionError where
  | packet (e : PacketError)
  | illegalUse (e : IllegalUse)
  | other (message : String)
deriving DecidableEq, Repr

namespace ExtensionError

/-- The text of the error behind this one. -/
def source : ExtensionError → String
  | .packet e => e.message
  | .illegalUse e => e.message
  | .other message => message

def message : ExtensionError → String
  | .packet e => "Packet error: " ++ e.message
  | .illegalUse e => "Intercept error: " ++ e.message
  | .other message => message

end ExtensionError

inductive RegistryError where
  | duplicateExtension (extension : String)
  | unknownExtension (extension : String)
  | unsupportedPoint (point : Point) (family : Family)
deriving DecidableEq, Repr

def Family.title : Family → String
  | .connect => "CONNECT"
  | .connack => "CONNACK"
  | .ack => "acknowledgement"
  | .subscribe => "SUBSCRIBE"
  | .suback => "SUBACK"
  | .unsubscribe => "UNSUBSCRIBE"
  | .unsuback => "UNSUBACK"
  | .ping => "ping"
  | .disconnect => "DISCONNECT"

def RegistryError.message : RegistryError → String
  | .duplicateExtension extension => s!"Extension \"{extension}\" is already registered"
  | .unknownExtension extension => s!"Extension \"{extension}\" is not registered"
  | .unsupportedPoint point family =>
    s!"{family.title} interceptors cannot run at {point.label}"

inductive ServiceError where
  | rateLimitExceeded
  | invalidReasonCode (code : ReasonCode)
deriving DecidableEq, Repr

def ServiceError.message : ServiceError → String
  | .rateLimitExceeded => "Extension service call rate limit exceeded"
  | .invalidReasonCode code =>
    s!"Reason code {code.text} must not be used for outbound DISCONNECT"

end BrokerHooks
