import ClusterBroker.Config.Variable
import ClusterBroker.Options.Form
import ClusterBroker.Toml
import ClusterBroker.Value.Envelope

/-!
# Configuration

Options are put together in layers: defaults, a file, and the variables of the environment, of
which one for the log filter comes last. A later layer sets single options and leaves the others
as they are. The result has to make sense as a whole.
-/
namespace ClusterBroker.Config

/-- A configuration file. In its text, values may be in envelopes of a kind. -/
inductive File where
  | missing
  | text (s : String) (envelope : Option Value.Envelope := none)
  deriving DecidableEq, Repr

/-- Why there is no configuration. -/
inductive LoadFault where
  | unreadable (fault : Value.Fault)
  | invalid (fault : InvalidOption)
  deriving DecidableEq, Repr

/-- Whether loading breaks off and has no more to say. -/
def LoadFault.isBrokenOff : LoadFault → Bool
  | .unreadable f => f.kind = .brokenOff
  | .invalid _ => false

/-- What is said of a file that is not there or is no document. -/
def fileFault : Value.Fault := ⟨.message, []⟩

/-- The fields that a document describes, without envelopes. The document is none itself. -/
def documentFields (s : String) (envelope : Option Value.Envelope) :
    Option (List (String × Value)) :=
  match Toml.parse s, envelope with
  | none, _ => none
  | some fs, none => some fs
  | some fs, some e => e.openFields fs

/-- The layer of a file. -/
def File.layer : File → Except Value.Fault Value
  | .missing => .error fileFault
  | .text s envelope => match documentFields s envelope with
    | some fs => .ok (.object fs)
    | none => .error fileFault

/-! ### The environment -/

/-- The names of variables that set options begin with this. -/
def namePrefix : String := "CORRAL_"

/-- The variable that sets the log filter. -/
def filterVariable : String := "RUST_LOG"

/-- Two names that differ in case at most. -/
def sameName (a b : List Char) : Bool := a.map Char.toLower = b.map Char.toLower

/-- The segments of a name: two underscores begin a new one, and a point does too. One
underscore stands for a hyphen. -/
def segments (cs : List Char) : List (List Char) :=
  (go cs).map fun s => s.map Char.toLower
where
  go : List Char → List (List Char)
    | [] => [[]]
    | '_' :: '_' :: rest | '.' :: rest => [] :: go rest
    | c :: rest =>
      let c := if c = '_' then '-' else c
      match go rest with
      | s :: more => (c :: s) :: more
      | [] => [[c]]

/-- The path of the option that a variable sets. Names with an empty segment set nothing. -/
def path? (name : String) : Option (List String) :=
  let cs := Text.trim name.toList
  let n := namePrefix.length
  if sameName (cs.take n) namePrefix.toList then
    let path := segments (Text.trim (cs.drop n))
    if path.any List.isEmpty then none else some (path.map String.ofList)
  else none

/-- The path of the log filter for the variable that sets it. -/
def filterPath? (name : String) : Option (List String) :=
  if sameName (Text.trim name.toList) filterVariable.toList then some ["log-filter"] else none

/-- The layer of all variables that set something: one over the other, in the order given. There
is none if the reading of one of them breaks off. -/
def variablesLayer (path? : String → Option (List String)) (vars : List (String × String)) :
    Option Value :=
  vars.foldlM (fun layer e =>
    match path? e.1 with
    | none => some layer
    | some p => (Variable.parse e.2).map fun v => layer.overlay (.ofPath p v)) (.object [])

/-- The layers of an environment: the variables, and after all of them those for the log
filter. -/
def environmentLayers (vars : List (String × String)) : Except Value.Fault (List Value) :=
  match variablesLayer path? vars, variablesLayer filterPath? vars with
  | some options, some filter => .ok [options, filter]
  | _, _ => .error ⟨.brokenOff, []⟩

/-! ### Loading -/

/-- All layers, one laid over the other. The environment is read before the file. -/
def merged (base : BrokerOptions) (file : Option File) (env : Option (List (String × String))) :
    Except Value.Fault Value := do
  let envLayers ← environmentLayers (env.getD [])
  let fileLayers ← match file with
    | none => pure []
    | some f => pure [← f.layer]
  return (fileLayers ++ envLayers).foldl Value.overlay base.toValue

/-- Loads options. Without an environment no variable counts. -/
def load (base : BrokerOptions) (file : Option File) (env : Option (List (String × String))) :
    Except LoadFault BrokerOptions := do
  let v ← (merged base file env).mapError .unreadable
  let o ← (BrokerOptions.reader false v).mapError .unreadable
  match o.fault? with
  | some f => .error (.invalid f)
  | none => .ok o

end ClusterBroker.Config
