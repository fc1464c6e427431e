import ClusterBroker.Config
import ClusterBroker.LogFilter
import ClusterBroker.QueueService

/-!
# Setting up a service from its configuration

Loads the options from a file, checks that its log filter can be read, and starts the service.
-/
namespace ClusterBroker.QueueService

/-- Why a service is not set up. -/
inductive SetupFault where
  | load (fault : Config.LoadFault)
  | logFilter (fault : LogFilter.Fault)
  | start (fault : StartFault)
  deriving DecidableEq, Repr

/-- What went wrong, without the reasons. -/
def SetupFault.message : SetupFault → String
  | .load _ => "failed to load the broker configuration"
  | .logFilter _ => "failed to install logging"
  | .start f => f.message

/-- The option to blame, if the start of the service names one. -/
def SetupFault.option? : SetupFault → Option String
  | .start f => f.option?
  | _ => none

/-- Whether the set-up breaks off and has no more to say. -/
def SetupFault.isBrokenOff : SetupFault → Bool
  | .load f => f.isBrokenOff
  | .logFilter .cutCharacter => true
  | _ => false

/-- Sets a service up as a configuration file says. -/
def setUp {σ : Type} (C : Connector σ) (mint : Nat → ResourceId) (clock : Time) (file : Config.File)
    (inner : σ) : Except SetupFault (QueueService σ) := do
  let o ← (Config.load {} (some file) none).mapError .load
  let _ ← (LogFilter.parse o.logging.filter).mapError .logFilter
  (start C mint clock o inner).mapError .start

end ClusterBroker.QueueService
