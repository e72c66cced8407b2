import BrokerHooks.Packet.Error
import BrokerHooks.Protocol

namespace BrokerHooks

structure PacketLimits where
  maxStringLength : Nat := 65535
  validateUtf8 : Bool := true
  maxKeepAlive : UInt16 := 65535
  maxSessionExpiryInterval : UInt32 := 4294967295
  maxPacketSize : UInt32 := 268435460
  maxQos : Qos := .exactlyOnce
  wildcardSubscriptions : Bool := true
  sharedSubscriptions : Bool := true
deriving DecidableEq, Repr, Inhabited

/-- Control characters, and code points that Unicode keeps free of characters. -/
def isDiscouraged (c : Char) : Bool :=
  let n := c.toNat
  (1 ≤ n && n ≤ 0x1F) || (0x7F ≤ n && n ≤ 0x9F) || (0xFDD0 ≤ n && n ≤ 0xFDEF) ||
    0xFFFE ≤ n % 0x10000

namespace PacketLimits

/-- U+0000 is never permitted; the discouraged characters only where the limits do not look. -/
def admitsChars (limits : PacketLimits) (s : String) : Bool :=
  s.toList.all fun c => c.toNat ≠ 0 && !(limits.validateUtf8 && isDiscouraged c)

def checkString (limits : PacketLimits) (field value : String) : Except PacketError Unit :=
  if value.utf8ByteSize > limits.maxStringLength then
    .error (.stringTooLong field value.utf8ByteSize limits.maxStringLength)
  else if limits.admitsChars value then .ok ()
  else .error (.malformedUtf8 field)

def checkOptional (limits : PacketLimits) (field : String) :
    Option String → Except PacketError Unit
  | none => .ok ()
  | some value => limits.checkString field value

def checkTopicFilter (limits : PacketLimits) (filter : String) : Except PacketError Unit := do
  limits.checkString "topic filter" filter
  match TopicFilter.fault? filter with
  | some fault => .error (.invalidTopicFilter filter fault)
  | none =>
    if !limits.wildcardSubscriptions && TopicFilter.hasWildcard filter then
      .error (.invalidTopicFilter filter .wildcardsDisabled)
    else if !limits.sharedSubscriptions && TopicFilter.isShared filter then
      .error (.invalidTopicFilter filter .sharedDisabled)
    else .ok ()

theorem checkString_eq_ok {limits : PacketLimits} {field value : String} :
    limits.checkString field value = .ok () ↔
      value.utf8ByteSize ≤ limits.maxStringLength ∧ limits.admitsChars value := by
  unfold checkString
  split
  · rename_i hlong
    simp [Nat.not_le.2 hlong]
  · rename_i hlong
    split <;> simp_all

end PacketLimits
end BrokerHooks
