import BrokerHooks.Alias.Table
import BrokerHooks.Extension.Error

namespace BrokerHooks

/-- What a hook is handed with its turn. -/
structure Input where
  clientId : String
  version : ProtocolVersion
  packet : Packet
deriving DecidableEq, Repr, Inhabited

inductive Observation where
  | reply (r : Reply)
  | flag (b : Bool)
  | resolved (r : Except Alias.AliasError String)
  | registry (r : Except RegistryError Unit)
  | service (r : Except ServiceError Unit)
  | serviceFlag (r : Except ServiceError Bool)
  | turn (input : Input) (t : Turn)

inductive Note where
  | called (hook : String)
  | caught (hook action : String) (error : ExtensionError)
  | result (hook action : String) (value : Observation)

/-- An operation on the turn, on its connection, on the registry, on the services or the journal. -/
inductive Op where
  | call (c : Call)
  | defer (timeout : Nat) (fallback : Fallback)
  | resume
  | prevent
  | view
  | close (reason : Option ReasonCode)
  | resolve (topic : String) (number : Option UInt16)
  | register (extension : String) (priority : Int)
  | remove (extension : String)
  | enable (extension : String)
  | disable (extension : String)
  | isEnabled (extension : String)
  | check
  | isConnected (clientId : String)
  | disconnectClient (clientId : String) (reason : Option ReasonCode)
  | note (n : Note)

@[reducible] def Op.Answer : Op → Type
  | .call _ => Except PacketError Reply
  | .defer _ _ | .prevent => Except IllegalUse Unit
  | .resume | .note _ => Unit
  | .view => Turn
  | .close _ | .isEnabled _ => Bool
  | .resolve _ _ => Except Alias.AliasError String
  | .register _ _ | .remove _ | .enable _ | .disable _ => Except RegistryError Unit
  | .check => Except ServiceError Unit
  | .isConnected _ | .disconnectClient _ _ => Except ServiceError Bool

inductive Program where
  | done
  | fail (e : ExtensionError)
  /-- Breaks off, with a message if what was thrown carries one. -/
  | crash (message : Option String)
  | perform (op : Op) (next : op.Answer → Program)
  /-- Leaves work behind that acts on the same turn `delay` milliseconds later. -/
  | spawn (delay : Nat) (task next : Program)

/-- A hook may behave differently each time it is invoked: `respond n` is its `n`-th answer, from
zero. The number counts the hooks added before it. -/
structure Hook where
  extension : String
  point : Point
  number : Nat
  /-- The packets that it reads. -/
  family : Family := point.family
  respond : Nat → Input → Program

end BrokerHooks
