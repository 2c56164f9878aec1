import Diagnostics.Value

/-!
# The store

A store is a list of cells that only grows: a new object gets the next location (`alloc`), and an
object keeps its location for good. Two values share an object exactly when they hold the same
location, so whatever changes the cell is seen through both.

The main statements say what reading gives after each operation: a new cell is read at the new
location and nothing else changes (`get?_alloc_self`, `get?_alloc_of_lt`); an update changes the
cell it names and no other (`get?_update_self`, `get?_update_ne`).
-/

namespace Diagnostics

/-- The calls that it takes to write values out, each inside of the call for what holds the value.
How many may be inside each other depends on where writing begins and is never changed from here, so
whatever is said about stores is said for any number of them. -/
structure Stack where
  /-- How many calls may be inside each other. -/
  room : Nat := 990
  /-- How many calls the one for a level or a style has inside of it. -/
  member : Nat := 3
  /-- How many calls there are between the one for a record and those for its fields. -/
  record : Nat := 3
  deriving DecidableEq, Repr

/-- The cells of all objects, how many values that are no number have been made, what values carry
beside their fields, under names, and the calls that it takes to write them out. -/
structure Store where
  cells : List Cell
  nans : Nat
  carried : List (Value × String × Value)
  stack : Stack := {}
  deriving Repr

namespace Store

/-- The store without any object. -/
def empty : Store := ⟨[], 0, [], {}⟩

/-- How many objects there are. -/
def size (σ : Store) : Nat := σ.cells.length

/-- The cell at a location. -/
def get? (σ : Store) (l : Loc) : Option Cell := σ.cells[l]?

/-- The cell that a value stands for. -/
def cell? (σ : Store) : Value → Option Cell
  | .object l => σ.get? l
  | _ => none

/-- Makes a new object. -/
def alloc (σ : Store) (c : Cell) : Loc × Store :=
  (σ.size, { σ with cells := σ.cells ++ [c] })

/-- Makes a new object and gives the value that stands for it. -/
def new (σ : Store) (c : Cell) : Value × Store :=
  let (l, σ) := σ.alloc c
  (.object l, σ)

/-- Replaces what an object holds. -/
def update (σ : Store) (l : Loc) (c : Cell) : Store :=
  { σ with cells := σ.cells.set l c }

/-- Makes a value that is no number and differs from all others of its kind. -/
def newNan (σ : Store) : Binary64 × Store :=
  (.nan σ.nans, { σ with nans := σ.nans + 1 })

/-- What a value carries under a name. -/
def carried? (σ : Store) (v : Value) (name : String) : Option Value :=
  (σ.carried.find? fun e => e.1 = v && e.2.1 = name).map (·.2.2)

/-- Makes a value carry another under a name. -/
def carry (σ : Store) (v : Value) (name : String) (w : Value) : Store :=
  { σ with carried := (v, name, w) :: σ.carried }

/-- Makes a value carry all that another carries. -/
def carryAll (σ : Store) (source target : Value) : Store :=
  { σ with carried :=
      (σ.carried.filter (·.1 = source)).map (fun e => (target, e.2)) ++ σ.carried }

/-- The name of the type of a value. -/
def typeName (σ : Store) : Value → String
  | .none => "NoneType"
  | .bool _ => "bool"
  | .int _ => "int"
  | .real _ => "float"
  | .text _ => "str"
  | .bytes _ => "bytes"
  | .severity _ => "Severity"
  | .style _ => "LabelStyle"
  | .object l => ((σ.get? l).map Cell.typeName).getD "object"

@[simp] theorem size_alloc (σ : Store) (c : Cell) : (σ.alloc c).2.size = σ.size + 1 := by
  simp [alloc, size]

@[simp] theorem alloc_fst (σ : Store) (c : Cell) : (σ.alloc c).1 = σ.size := rfl

@[simp] theorem size_update (σ : Store) (l : Loc) (c : Cell) : (σ.update l c).size = σ.size := by
  simp [update, size]

/-- No object lies at the next location or beyond it. -/
theorem lt_size_of_get? {σ : Store} {l : Loc} {c : Cell} (h : σ.get? l = some c) :
    l < σ.size := by
  simp only [get?, List.getElem?_eq_some_iff] at h
  exact h.1

@[simp] theorem get?_alloc_self (σ : Store) (c : Cell) : (σ.alloc c).2.get? σ.size = some c := by
  simp [alloc, get?, size]

theorem get?_alloc_of_lt (σ : Store) (c : Cell) {l : Loc} (h : l < σ.size) :
    (σ.alloc c).2.get? l = σ.get? l := by
  simp only [alloc, get?, size] at *
  exact List.getElem?_append_left h

theorem get?_alloc_of_get? {σ : Store} {l : Loc} {c : Cell} (d : Cell) (h : σ.get? l = some c) :
    (σ.alloc d).2.get? l = some c := by
  rw [get?_alloc_of_lt σ d (lt_size_of_get? h), h]

theorem get?_update_self (σ : Store) {l : Loc} (c : Cell) (h : l < σ.size) :
    (σ.update l c).get? l = some c := by
  simp only [update, get?, size] at *
  exact List.getElem?_set_self h

theorem get?_update_ne (σ : Store) {l k : Loc} (c : Cell) (h : l ≠ k) :
    (σ.update l c).get? k = σ.get? k := by
  simp [update, get?, List.getElem?_set_ne h]

@[simp] theorem get?_carry (σ : Store) (v : Value) (name : String) (w : Value) (l : Loc) :
    (σ.carry v name w).get? l = σ.get? l := rfl

@[simp] theorem get?_carryAll (σ : Store) (source target : Value) (l : Loc) :
    (σ.carryAll source target).get? l = σ.get? l := rfl

@[simp] theorem get?_newNan (σ : Store) (l : Loc) : σ.newNan.2.get? l = σ.get? l := rfl

@[simp] theorem size_newNan (σ : Store) : σ.newNan.2.size = σ.size := rfl

end Store

end Diagnostics
