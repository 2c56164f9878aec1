import Diagnostics.Attribute

/-!
# What is logged

Every writing and reading of diagnostics is logged, with counts. An `Outcome` is what such an
operation leads to: its result, the store that it leaves and the entries that it logs.
-/

namespace Diagnostics

/-- What is logged about an exchange. -/
inductive LogEntry where
  | serialized (level : String) (labels notes chars : Nat)
  | serializing (diagnostics : Nat)
  | loaded (level : String) (labels notes : Nat)
  | loadedAll (diagnostics : Nat)
  | notLoaded (chars : Nat) (headline : String)
  | notLoadedAll (errors : Nat)
  | rejected (errors : Nat)
  deriving DecidableEq, Repr

/-- The line of a log. -/
def LogEntry.line : LogEntry → String
  | serialized level labels notes chars =>
    "DEBUG Serialized " ++ level ++ " diagnostic: " ++ toString labels ++ " label(s), " ++
      toString notes ++ " note(s), " ++ toString chars ++ " chars"
  | serializing diagnostics => "DEBUG Serializing " ++ toString diagnostics ++ " diagnostic(s)"
  | loaded level labels notes =>
    "DEBUG Loaded " ++ level ++ " diagnostic: " ++ toString labels ++ " label(s), " ++
      toString notes ++ " note(s)"
  | loadedAll diagnostics => "DEBUG Loaded " ++ toString diagnostics ++ " diagnostic(s)"
  | notLoaded chars headline =>
    "DEBUG Failed to load diagnostic from " ++ toString chars ++ " chars: " ++ headline
  | notLoadedAll errors => "DEBUG Failed to load diagnostics: " ++ toString errors ++ " error(s)"
  | rejected errors => "DEBUG Rejected diagnostic data: " ++ toString errors ++ " error(s)"

/-- What an operation leads to: a result, the store that it leaves and what it logs. -/
structure Outcome (α : Type) where
  result : Except Failure α
  store : Store
  log : List LogEntry

/-- The outcome of an action, which logs nothing. -/
def Action.outcome {α : Type} (a : Action α) (σ : Store) : Outcome α :=
  let (result, τ) := a.perform σ
  ⟨result, τ, []⟩

namespace Exchange

/-- How many parts a value has. -/
def length (v : Value) : Action Nat := do
  match v.asText?, v, ← Action.cell? v with
  | some s, _, _ => return s.length
  | none, .bytes bs, _ => return bs.length
  | none, _, some (.iterator _) => throw (.noLength (← Action.typeName v))
  | none, _, some c =>
    match c.items? with
    | some items => return items.length
    | none => throw (.noLength (← Action.typeName v))
  | none, _, none => throw (.noLength (← Action.typeName v))

/-- The word of a level that is a member of its enumeration. -/
def levelWord (v : Value) : Action String := do
  match (← Attribute.stored v "value").asText? with
  | some w => return w
  | none => Action.noAttribute v "value"

/-- The level of a diagnostic and how many labels and notes it has. -/
def summary (diagnostic : Value) : Action (String × Nat × Nat) := do
  let level ← levelWord (← Attribute.stored diagnostic "severity")
  let labels ← length (← Attribute.stored diagnostic "labels")
  let notes ← length (← Attribute.stored diagnostic "notes")
  return (level, labels, notes)

end Exchange

end Diagnostics
