import ClusterBroker.Proofs.Broker.Parting
import ClusterBroker.Proofs.GangControl.Share

/-!
# What a round gives back

The controller draws first, and then releases those who were drawn, one after the other. The
registry tracks each of them, so each is given back in a call of its own, with all its resources,
and whatever is answered to that call it waits. Only a registry that was stopped has nothing to give
back: it gave everything back before.
-/
namespace ClusterBroker

variable {σ : Type} (C : Connector σ) (clock now : Time)

namespace Broker

variable {b : Broker σ} {s : Supervisor}

end Broker

end ClusterBroker
