namespace BrokerHooks.Toml

inductive Value where
  | text (s : String)
  | integer (n : Int)
  | float (x : Float)
  | boolean (b : Bool)
  | datetime
  | array (items : List Value)
  | table (entries : List (String × Value))

namespace Value

def minInteger : Int := -9223372036854775808

def maxInteger : Int := 9223372036854775807

def integer? (n : Int) : Option Value :=
  if minInteger ≤ n ∧ n ≤ maxInteger then some (.integer n) else none

end Value
end BrokerHooks.Toml
