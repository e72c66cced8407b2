import BrokerHooks.Config.Basic
import BrokerHooks.Record

namespace BrokerHooks

open Datum

def LimitsConfig.datum (c : LimitsConfig) : Datum := .record [
  ("service_call_rate", .number c.serviceCallRate),
  ("topic_alias_soft_limit", .number c.topicAliasSoftLimit),
  ("topic_alias_hard_limit", .number c.topicAliasHardLimit)]

def PacketsConfig.datum (c : PacketsConfig) : Datum := .record [
  ("max_string_length", .nat c.maxStringLength),
  ("validate_utf8", .flag c.validateUtf8),
  ("max_keep_alive", .nat c.maxKeepAlive.toNat),
  ("max_session_expiry_interval", .nat c.maxSessionExpiryInterval.toNat),
  ("max_packet_size", .nat c.maxPacketSize.toNat),
  ("max_qos", .nat c.maxQos.toNat),
  ("wildcard_subscriptions", .flag c.wildcardSubscriptions),
  ("shared_subscriptions", .flag c.sharedSubscriptions)]

def Duration.datum (nanos : Nat) : Datum :=
  .list [.nat (nanos / nanosPerSecond), .nat (nanos % nanosPerSecond)]

def Config.datum (c : Config) : Datum := .record [
  ("limits", c.limits.datum),
  ("packets", c.packets.datum),
  ("extensions", .record [("max_async_timeout", Duration.datum c.extensions.maxAsyncTimeout)])]

end BrokerHooks
