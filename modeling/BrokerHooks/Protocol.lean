namespace BrokerHooks

inductive ProtocolVersion where
  | v31
  | v311
  | v5
deriving DecidableEq, Repr, Inhabited

namespace ProtocolVersion

def number : ProtocolVersion → Nat
  | .v31 => 3
  | .v311 => 4
  | .v5 => 5

def ofNumber? : Nat → Option ProtocolVersion
  | 3 => some .v31
  | 4 => some .v311
  | 5 => some .v5
  | _ => none

end ProtocolVersion

inductive Qos where
  | atMostOnce
  | atLeastOnce
  | exactlyOnce
deriving DecidableEq, Repr, Inhabited

namespace Qos

def level : Qos → Nat
  | .atMostOnce => 0
  | .atLeastOnce => 1
  | .exactlyOnce => 2

def ofLevel? : Nat → Option Qos
  | 0 => some .atMostOnce
  | 1 => some .atLeastOnce
  | 2 => some .exactlyOnce
  | _ => none

theorem ofLevel?_level (q : Qos) : ofLevel? q.level = some q := by
  cases q <;> rfl

theorem ofLevel?_eq_some {n : Nat} {q : Qos} : ofLevel? n = some q ↔ n = q.level := by
  constructor
  · intro h
    unfold ofLevel? at h
    split at h <;> simp_all <;> subst h <;> rfl
  · rintro rfl
    exact ofLevel?_level q

end Qos

inductive RetainHandling where
  | sendAtSubscribe
  | sendIfNew
  | doNotSend
deriving DecidableEq, Repr, Inhabited

namespace RetainHandling

def number : RetainHandling → Nat
  | .sendAtSubscribe => 0
  | .sendIfNew => 1
  | .doNotSend => 2

def ofNumber? : Nat → Option RetainHandling
  | 0 => some .sendAtSubscribe
  | 1 => some .sendIfNew
  | 2 => some .doNotSend
  | _ => none

end RetainHandling
end BrokerHooks
