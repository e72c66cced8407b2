import BrokerHooks.Config.Duration
import BrokerHooks.Packet.Limits

namespace BrokerHooks

structure LimitsConfig where
  serviceCallRate : Int := 0
  topicAliasSoftLimit : Int := 52428800
  topicAliasHardLimit : Int := 209715200
deriving DecidableEq, Repr, Inhabited

structure PacketsConfig where
  maxStringLength : Nat := 65535
  validateUtf8 : Bool := true
  maxKeepAlive : UInt16 := 65535
  maxSessionExpiryInterval : UInt32 := 4294967295
  maxPacketSize : UInt32 := 268435460
  maxQos : UInt8 := 2
  wildcardSubscriptions : Bool := true
  sharedSubscriptions : Bool := true
deriving DecidableEq, Repr, Inhabited

/-- Durations are in nanoseconds. -/
structure ExtensionsConfig where
  maxAsyncTimeout : Nat := 3 * 60 * 60 * Duration.nanosPerSecond
deriving DecidableEq, Repr, Inhabited

structure Config where
  limits : LimitsConfig := {}
  packets : PacketsConfig := {}
  extensions : ExtensionsConfig := {}
deriving DecidableEq, Repr, Inhabited

inductive ConfigFault where
  | maxQos
  | maxStringLength
  | maxPacketSize
  | negativeAliasLimit
  | aliasLimitsCrossed (soft hard : Int)
  | maxAsyncTimeout
deriving DecidableEq, Repr

def ConfigFault.message : ConfigFault → String
  | .maxQos => "Validation error: packets.max_qos must be 0, 1, or 2"
  | .maxStringLength => "Validation error: packets.max_string_length must be greater than 0"
  | .maxPacketSize => "Validation error: packets.max_packet_size must be greater than 0"
  | .negativeAliasLimit => "Validation error: topic alias limits must not be negative"
  | .aliasLimitsCrossed soft hard =>
    s!"Validation error: topic_alias_soft_limit ({soft}) must not exceed topic_alias_hard_limit ({hard})"
  | .maxAsyncTimeout => "Validation error: extensions.max_async_timeout must be greater than 0"

namespace Config

/-- The first rule that the configuration breaks. -/
def fault? (c : Config) : Option ConfigFault :=
  if 2 < c.packets.maxQos then some .maxQos
  else if c.packets.maxStringLength = 0 then some .maxStringLength
  else if c.packets.maxPacketSize = 0 then some .maxPacketSize
  else if c.limits.topicAliasSoftLimit < 0 ∨ c.limits.topicAliasHardLimit < 0 then
    some .negativeAliasLimit
  else if c.limits.topicAliasHardLimit < c.limits.topicAliasSoftLimit then
    some (.aliasLimitsCrossed c.limits.topicAliasSoftLimit c.limits.topicAliasHardLimit)
  else if c.extensions.maxAsyncTimeout = 0 then some .maxAsyncTimeout
  else none

/-- The limits for packets; a quality of service that does not exist counts as the highest. -/
def packetLimits (c : Config) : PacketLimits where
  maxStringLength := c.packets.maxStringLength
  validateUtf8 := c.packets.validateUtf8
  maxKeepAlive := c.packets.maxKeepAlive
  maxSessionExpiryInterval := c.packets.maxSessionExpiryInterval
  maxPacketSize := c.packets.maxPacketSize
  maxQos := (Qos.ofLevel? c.packets.maxQos.toNat).getD .exactlyOnce
  wildcardSubscriptions := c.packets.wildcardSubscriptions
  sharedSubscriptions := c.packets.sharedSubscriptions

end Config
end BrokerHooks
