import ChartOverlay.Text.Basic

/-!
# Engine registry

Which class of engine answers to which name. A name is taken once; later claims to it are refused.
-/

namespace ChartOverlay

/-- Names with the class that was registered for them, in order of registration. -/
structure Registry where
  entries : List (Text × Text) := []
  distinct : (entries.map (·.1)).Nodup := by decide
  deriving Repr, DecidableEq

inductive RegistryError
  | alreadyRegistered (name owner : Text)
  | unknown (name : Text) (available : List Text)
  deriving Repr, DecidableEq

/-- Names in a row, or a word where they leave nothing to write. -/
def RegistryError.listing (names : List Text) : Text :=
  match List.intercalate ", " names with
  | [] => "(none)"
  | listed => listed

def RegistryError.message : RegistryError → Text
  | alreadyRegistered name owner => "Engine '" ++ name ++ "' is already registered by " ++ owner
  | unknown name available => "Unknown engine '" ++ name ++ "'. Available: " ++ listing available

namespace Registry

/-- Inserts a name before the first greater one, by code point. -/
def insertName (name : Text) : List Text → List Text
  | [] => [name]
  | x :: xs => if name.isAtMost x then name :: x :: xs else x :: insertName name xs

def names (r : Registry) : List Text := (r.entries.map (·.1)).foldr insertName []

def find? (r : Registry) (name : Text) : Option Text := r.entries.lookup name

theorem find?_eq_none_iff {r : Registry} {name : Text} : r.find? name = none ↔ name ∉ r.entries.map (·.1) := by
  rw [find?, List.lookup_eq_none_iff]
  constructor
  · intro other member
    obtain ⟨entry, inside, rfl⟩ := List.mem_map.mp member
    simpa using other entry inside
  · intro free entry inside
    have different : name ≠ entry.1 := fun same => free (same ▸ List.mem_map_of_mem inside)
    simpa using different

theorem distinct_append {r : Registry} {name : Text} (free : r.find? name = none) (owner : Text) :
    ((r.entries ++ [(name, owner)]).map (·.1)).Nodup := by
  rw [List.map_append, List.nodup_append]
  refine ⟨r.distinct, by simp, ?_⟩
  rintro a member b last rfl
  obtain rfl : a = name := by simpa using last
  exact find?_eq_none_iff.mp free member

def register (r : Registry) (name owner : Text) : Except RegistryError Registry :=
  match free : r.find? name with
  | some first => .error (.alreadyRegistered name first)
  | none => .ok { entries := r.entries ++ [(name, owner)], distinct := distinct_append free owner }

def create (r : Registry) (name : Text) : Except RegistryError Text :=
  match r.find? name with
  | some owner => .ok owner
  | none => .error (.unknown name r.names)

def builtIn : Registry where
  entries :=
    [("logistic_regression", "LogisticRegressionEngine"),
     ("linear_regression_ema", "LinearRegressionEmaEngine"),
     ("bull_bear_power", "BullBearPowerEngine")]

/-- A request to a registry, and what it answers. -/
inductive Step
  | register (name owner : Text)
  | create (name : Text)
  | list
  deriving Repr, DecidableEq

inductive Answer
  | owner (name : Text)
  | names (names : List Text)
  | failed (error : RegistryError)
  deriving Repr, DecidableEq

def step (r : Registry) : Step → Registry × Answer
  | .register name owner =>
    match r.register name owner with
    | .ok next => (next, .owner owner)
    | .error e => (r, .failed e)
  | .create name =>
    match r.create name with
    | .ok owner => (r, .owner owner)
    | .error e => (r, .failed e)
  | .list => (r, .names r.names)

def run (r : Registry) : List Step → List Answer
  | [] => []
  | s :: rest =>
    let (next, answer) := r.step s
    answer :: run next rest

end Registry

end ChartOverlay
