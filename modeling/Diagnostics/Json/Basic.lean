import Diagnostics.Number.Binary64

/-!
# JSON

JSON as a tree. Whole numbers are kept exactly, whatever their size, and apart from numbers with a
point or an exponent. An object keeps its entries in order. Of entries with one key the first gives
the place and the last the value (`table`); entries with different keys stay as they are
(`table_eq_self`).
-/

namespace Diagnostics

/-- A JSON value. -/
inductive Json where
  | null
  | bool (b : Bool)
  | int (n : Int)
  | real (x : Binary64)
  | text (s : String)
  | array (items : List Json)
  | object (entries : List (String × Json))
  deriving Repr, Inhabited

namespace Json

mutual

/-- Whether two values are the same. Nothing of this is derived for a type with lists of itself. -/
def same : Json → Json → Bool
  | .null, .null => true
  | .bool b, .bool c => b = c
  | .int n, .int m => n = m
  | .real x, .real y => x = y
  | .text s, .text t => s = t
  | .array js, .array ks => sameItems js ks
  | .object es, .object fs => sameEntries es fs
  | _, _ => false

@[inherit_doc same]
def sameItems : List Json → List Json → Bool
  | [], [] => true
  | j :: js, k :: ks => same j k && sameItems js ks
  | _, _ => false

@[inherit_doc same]
def sameEntries : List (String × Json) → List (String × Json) → Bool
  | [], [] => true
  | (key, j) :: es, (key', k) :: fs => key = key' && same j k && sameEntries es fs
  | _, _ => false

end

mutual

theorem same_iff : ∀ {j k : Json}, same j k = true ↔ j = k
  | .null, k => by cases k <;> simp [same]
  | .bool _, k => by cases k <;> simp [same]
  | .int _, k => by cases k <;> simp [same]
  | .real _, k => by cases k <;> simp [same]
  | .text _, k => by cases k <;> simp [same]
  | .array _, k => by cases k <;> simp [same, sameItems_iff]
  | .object _, k => by cases k <;> simp [same, sameEntries_iff]

theorem sameItems_iff : ∀ {js ks : List Json}, sameItems js ks = true ↔ js = ks
  | [], ks => by cases ks <;> simp [sameItems]
  | _ :: _, ks => by cases ks <;> simp [sameItems, same_iff, sameItems_iff]

theorem sameEntries_iff : ∀ {es fs : List (String × Json)}, sameEntries es fs = true ↔ es = fs
  | [], fs => by cases fs <;> simp [sameEntries]
  | _ :: _, fs => by cases fs <;> simp [sameEntries, same_iff, sameEntries_iff, Prod.ext_iff]

end

instance : DecidableEq Json :=
  fun j k => decidable_of_iff (same j k = true) same_iff

/-- A table with an entry; an entry with the same key is replaced where it stands. -/
def put {α : Type} (key : String) (a : α) : List (String × α) → List (String × α)
  | [] => [(key, a)]
  | (k, b) :: es => if k = key then (k, a) :: es else (k, b) :: put key a es

/-- The table that entries make one after another. -/
def table {α : Type} (entries : List (String × α)) : List (String × α) :=
  entries.foldl (fun es e => put e.1 e.2 es) []

theorem put_eq_append {α : Type} {key : String} {a : α} {es : List (String × α)}
    (h : ∀ e ∈ es, e.1 ≠ key) : put key a es = es ++ [(key, a)] := by
  induction es with
  | nil => rfl
  | cons e es ih =>
    simp only [put, if_neg (h e List.mem_cons_self), List.cons_append]
    rw [ih fun x hx => h x (List.mem_cons_of_mem _ hx)]

theorem foldl_put_eq_append {α : Type} {before es : List (String × α)}
    (h : (before ++ es).Pairwise (·.1 ≠ ·.1)) :
    es.foldl (fun es e => put e.1 e.2 es) before = before ++ es := by
  induction es generalizing before with
  | nil => simp
  | cons e es ih =>
    rw [List.foldl_cons, put_eq_append]
    · rw [ih (by simpa using h)]; simp
    · intro x hx
      exact (List.pairwise_append.1 h).2.2 x hx e List.mem_cons_self

/-- Entries with different keys make the table that they are. -/
theorem table_eq_self {α : Type} {es : List (String × α)} (h : es.Pairwise (·.1 ≠ ·.1)) :
    table es = es := by
  have h := foldl_put_eq_append ((List.nil_append es).symm ▸ h)
  exact h.trans (List.nil_append es)

end Json

end Diagnostics
