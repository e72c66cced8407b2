import BrokerHooks.Proofs.Chain.Execution
import BrokerHooks.Proofs.Lane.Coupling

namespace BrokerHooks.Broker

def alone : List Move :=
  [.elapse 5, .submit 0 .pingreqInbound (.ping .request), .begin (0, .pingreqInbound), .elapse 15, .wake 0]

end BrokerHooks.Broker
