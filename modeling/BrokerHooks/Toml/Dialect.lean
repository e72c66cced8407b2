namespace BrokerHooks.Toml

structure Dialect where
  /-- Whether there are the escapes `\e` and `\x`, times without seconds, and inline tables that run
  over several lines or end in a comma. -/
  relaxed : Bool
  /-- How deep values may nest, and how many parts a key may have. -/
  maxDepth : Nat
  /-- Whether a dotted key may end in a table that headers imply but do not name, and so define it. -/
  joinsImplied : Bool
  /-- Whether a number below all doubles is refused, as one above them always is. -/
  boundedBelow : Bool
deriving DecidableEq, Repr

namespace Dialect

/-- TOML 1.0. -/
def first : Dialect where
  relaxed := false
  maxDepth := 79
  joinsImplied := false
  boundedBelow := false

/-- TOML 1.1. -/
def second : Dialect where
  relaxed := true
  maxDepth := 80
  joinsImplied := true
  boundedBelow := true

end Dialect
end BrokerHooks.Toml
