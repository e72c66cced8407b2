import BrokerHooks.Config.Basic

namespace BrokerHooks

/-- The values of a source. A section's fields are found by position or by name; a field that is not
found takes its default. -/
structure Decoder (ν : Type) where
  fields? : ν → Option (Nat → String → Option ν)
  int? : ν → Option Int
  /-- A number below the bound. -/
  nat? : Nat → ν → Option Nat
  flag? : ν → Option Bool
  duration? : ν → Option Nat

namespace Decoder

variable {ν : Type} (d : Decoder ν)

def field {α : Type} (default : α) (read : ν → Option α) (found : Option ν) : Option α :=
  match found with
  | none => some default
  | some v => read v

def limits? (v : ν) : Option LimitsConfig := do
  let get ← d.fields? v
  let c : LimitsConfig := {}
  return {
    serviceCallRate := ← field c.serviceCallRate d.int? (get 0 "service_call_rate")
    topicAliasSoftLimit := ← field c.topicAliasSoftLimit d.int? (get 1 "topic_alias_soft_limit")
    topicAliasHardLimit := ← field c.topicAliasHardLimit d.int? (get 2 "topic_alias_hard_limit") }

def uint16? (v : ν) : Option UInt16 := (d.nat? UInt16.size v).map UInt16.ofNat

def uint32? (v : ν) : Option UInt32 := (d.nat? UInt32.size v).map UInt32.ofNat

def uint8? (v : ν) : Option UInt8 := (d.nat? UInt8.size v).map UInt8.ofNat

def packets? (v : ν) : Option PacketsConfig := do
  let get ← d.fields? v
  let c : PacketsConfig := {}
  return {
    maxStringLength := ← field c.maxStringLength (d.nat? UInt64.size) (get 0 "max_string_length")
    validateUtf8 := ← field c.validateUtf8 d.flag? (get 1 "validate_utf8")
    maxKeepAlive := ← field c.maxKeepAlive d.uint16? (get 2 "max_keep_alive")
    maxSessionExpiryInterval :=
      ← field c.maxSessionExpiryInterval d.uint32? (get 3 "max_session_expiry_interval")
    maxPacketSize := ← field c.maxPacketSize d.uint32? (get 4 "max_packet_size")
    maxQos := ← field c.maxQos d.uint8? (get 5 "max_qos")
    wildcardSubscriptions :=
      ← field c.wildcardSubscriptions d.flag? (get 6 "wildcard_subscriptions")
    sharedSubscriptions := ← field c.sharedSubscriptions d.flag? (get 7 "shared_subscriptions") }

def extensions? (v : ν) : Option ExtensionsConfig := do
  let get ← d.fields? v
  let c : ExtensionsConfig := {}
  return {
    maxAsyncTimeout := ← field c.maxAsyncTimeout d.duration? (get 0 "max_async_timeout") }

def config? (table : List (String × ν)) : Option Config := do
  return {
    limits := ← field {} d.limits? (table.lookup "limits")
    packets := ← field {} d.packets? (table.lookup "packets")
    extensions := ← field {} d.extensions? (table.lookup "extensions") }

end Decoder
end BrokerHooks
