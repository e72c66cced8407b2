namespace BrokerHooks

structure UserProperty where
  name : String
  value : String
deriving DecidableEq, Repr, Inhabited

abbrev UserProperties := List UserProperty

namespace UserProperties

def getFirst? (ps : UserProperties) (name : String) : Option String :=
  (ps.find? (·.name = name)).map (·.value)

def getAll (ps : UserProperties) (name : String) : List String :=
  (ps.filter (·.name = name)).map (·.value)

def removePair (ps : UserProperties) (p : UserProperty) : UserProperties := ps.filter (· ≠ p)

def removeName (ps : UserProperties) (name : String) : UserProperties :=
  ps.filter (·.name ≠ name)

theorem getFirst?_eq_head? (ps : UserProperties) (name : String) :
    ps.getFirst? name = (ps.getAll name).head? := by
  simp [getFirst?, getAll, List.head?_filter]

end UserProperties
end BrokerHooks
