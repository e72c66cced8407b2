namespace BrokerHooks.Alias

/-- A value of a 64-bit counter that has been moved by `n` in all. -/
def counter (n : Int) : Int := n.bmod UInt64.size

def slotBytes : Int := 4

def topicBytes (topic : String) : Int := 38 + 2 * topic.utf8ByteSize

/-- The bytes and the aliases of a table's slots; `none` is an empty slot. -/
def slotsBytes (slots : List (Option String)) : Int :=
  slotBytes * slots.length + (slots.filterMap id).foldr (topicBytes · + ·) 0

def slotsCount (slots : List (Option String)) : Int := (slots.filterMap id).length

structure Account where
  softLimit : Int
  hardLimit : Int
  bytes : Int := 0
  aliases : Int := 0
deriving DecidableEq, Repr, Inhabited

namespace Account

def committed (a : Account) : Int := counter a.bytes

def count (a : Account) : Int := counter a.aliases

def available (a : Account) : Bool := a.committed < a.softLimit

def exceeded (a : Account) : Bool := a.hardLimit < a.committed

def chargeSlots (a : Account) (slots : Nat) : Account :=
  { a with bytes := a.bytes + slotBytes * slots }

def chargeTopic (a : Account) (topic : String) : Account :=
  { a with bytes := a.bytes + topicBytes topic, aliases := a.aliases + 1 }

def releaseTopic (a : Account) (topic : String) : Account :=
  { a with bytes := a.bytes - topicBytes topic, aliases := a.aliases - 1 }

def releaseTopics (a : Account) (topics : List String) : Account :=
  topics.foldl releaseTopic a

def releaseSlots (a : Account) (slots : List (Option String)) : Account :=
  { a with bytes := a.bytes - slotsBytes slots, aliases := a.aliases - slotsCount slots }

end Account
end BrokerHooks.Alias
