import BrokerHooks.Config.Decoder
import BrokerHooks.Config.Duration
import BrokerHooks.Toml.Document

namespace BrokerHooks

inductive ConfigError where
  | io
  | parse
  | config
  | validation (fault : ConfigFault)
deriving DecidableEq, Repr

namespace Config

def validated (c : Config) : Except ConfigError Config :=
  match c.fault? with
  | some fault => .error (.validation fault)
  | none => .ok c

/-- A date or time in the place of a section has none of its fields. -/
def strict : Decoder Toml.Value where
  fields?
    | .table entries => some fun _ name => entries.lookup name
    | .array items => some fun i _ => items[i]?
    | .datetime => some fun _ _ => none
    | _ => none
  int?
    | .integer n => some n
    | _ => none
  nat? bound
    | .integer n => if 0 ≤ n ∧ n < bound then some n.toNat else none
    | _ => none
  flag?
    | .boolean b => some b
    | _ => none
  duration?
    | .text s => Duration.ofText? s
    | _ => none

def parse (document : String) : Except ConfigError Config :=
  match (Toml.parse? .first document).bind strict.config? with
  | none => .error .parse
  | some c => c.validated

end Config
end BrokerHooks
