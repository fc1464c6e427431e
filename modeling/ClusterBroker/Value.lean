/-!
# Values

Trees of named fields, as configuration files and messages hold them. Laying one value over
another merges objects field by field, at any depth; anything else is replaced.
-/
namespace ClusterBroker

inductive Value where
  | null
  | bool (b : Bool)
  | int (n : Int)
  /-- A number with a fraction or an exponent; it is kept as it was written. -/
  | float (text : String)
  | char (c : Char)
  | string (s : String)
  | array (items : List Value)
  | object (fields : List (String × Value))
  deriving Inhabited, Repr

namespace Value

/-- The value of the first field of a name. -/
def field? (name : String) : List (String × Value) → Option Value
  | [] => none
  | (k, v) :: rest => if k = name then some v else field? name rest

/-- The fields with one set, in its old place or at the end. -/
def setField (name : String) (v : Value) : List (String × Value) → List (String × Value)
  | [] => [(name, v)]
  | (k, u) :: rest => if k = name then (k, v) :: rest else (k, u) :: setField name v rest

theorem field?_setField (name k : String) (v : Value) (fs : List (String × Value)) :
    field? k (setField name v fs) = if k = name then some v else field? k fs := by
  induction fs with
  | nil => simp [setField, field?, eq_comm]
  | cons f rest ih =>
    obtain ⟨n, u⟩ := f
    by_cases h : n = name
    · by_cases hk : n = k <;> grind [setField, field?]
    · by_cases hk : n = k <;> grind [setField, field?]

mutual

/-- Lays `top` over `base`. -/
def overlay (base : Value) : Value → Value
  | .object fs =>
    match base with
    | .object bs => .object (overlayFields bs fs)
    | _ => .object fs
  | top => top

/-- Lays fields over fields, one after the other. -/
def overlayFields (base : List (String × Value)) :
    List (String × Value) → List (String × Value)
  | [] => base
  | (k, v) :: rest =>
    let v := match field? k base with
      | some b => overlay b v
      | none => v
    overlayFields (setField k v base) rest

end

/-- One value at the end of a path of names. -/
def ofPath (path : List String) (v : Value) : Value :=
  path.foldr (fun k v => .object [(k, v)]) v

end Value

end ClusterBroker
