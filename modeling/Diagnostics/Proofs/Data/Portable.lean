import Diagnostics.Data.Form
import Diagnostics.Proofs.Json.ReadBack

/-!
# Data that JSON can hold

Data is portable when it is a tree of nothing, truth values, integers, texts, levels, styles, lists,
tuples and tables without a key twice; `json` is what it becomes in JSON. It is native when it holds
no level, no style and no tuple, so that JSON has all it needs to tell it apart.

Portable data has its JSON for its form wherever there is room for all its levels
(`formIn_portable`), of which it has hardly more than that JSON (`levels_le_nesting`); and the JSON
is exact (`IsPortable.isExact_json`).
-/

namespace Diagnostics.Data

/-- Whether data is a tree of values that have a JSON form. -/
inductive IsPortable : Data → Prop where
  | none : IsPortable .none
  | bool (b : Bool) : IsPortable (.bool b)
  | int (n : Int) : IsPortable (.int n)
  | text (s : String) : IsPortable (.text s)
  | severity (s : Severity) : IsPortable (.severity s)
  | style (s : LabelStyle) : IsPortable (.style s)
  | list {ds : List Data} (items : ∀ d ∈ ds, IsPortable d) : IsPortable (.list ds)
  | tuple {ds : List Data} (items : ∀ d ∈ ds, IsPortable d) : IsPortable (.tuple ds)
  | table {es : List (String × Data)} (values : ∀ e ∈ es, IsPortable e.2)
    (keys : es.Pairwise (·.1 ≠ ·.1)) : IsPortable (.table es)

/-- Whether data is a tree of values that JSON has itself. -/
inductive IsNative : Data → Prop where
  | none : IsNative .none
  | bool (b : Bool) : IsNative (.bool b)
  | int (n : Int) : IsNative (.int n)
  | text (s : String) : IsNative (.text s)
  | list {ds : List Data} (items : ∀ d ∈ ds, IsNative d) : IsNative (.list ds)
  | table {es : List (String × Data)} (values : ∀ e ∈ es, IsNative e.2)
    (keys : es.Pairwise (·.1 ≠ ·.1)) : IsNative (.table es)

theorem IsNative.isPortable {d : Data} (h : d.IsNative) : d.IsPortable := by
  induction h with
  | none => exact .none
  | bool b => exact .bool b
  | int n => exact .int n
  | text s => exact .text s
  | list _ ih => exact .list ih
  | table _ keys ih => exact .table ih keys

mutual

/-- The JSON that portable data becomes. Of other data nothing is said. -/
def json : Data → Json
  | bool b => .bool b
  | int n => .int n
  | text s => .text s
  | severity s => .text s.word
  | style s => .text s.word
  | list ds => .array (jsons ds)
  | tuple ds => .array (jsons ds)
  | table es => .object (entryJsons es)
  | _ => .null

/-- The JSON that items become. -/
def jsons : List Data → List Json
  | [] => []
  | d :: ds => json d :: jsons ds

/-- The JSON that entries become, under the same keys. -/
def entryJsons : List (String × Data) → List (String × Json)
  | [] => []
  | (k, d) :: es => (k, json d) :: entryJsons es

end

@[simp] theorem jsons_eq_map (ds : List Data) : jsons ds = ds.map json := by
  induction ds with
  | nil => rfl
  | cons d ds ih => rw [jsons, ih, List.map_cons]

@[simp] theorem entryJsons_eq_map (es : List (String × Data)) :
    entryJsons es = es.map fun e => (e.1, e.2.json) := by
  induction es with
  | nil => rfl
  | cons e es ih => rw [entryJsons, ih, List.map_cons]

/-- The JSON of portable data is exact. -/
theorem IsPortable.isExact_json {d : Data} (h : d.IsPortable) : d.json.IsExact := by
  have items : ∀ ds : List Data, (∀ d ∈ ds, d.json.IsExact) → (Json.array (jsons ds)).IsExact := by
    intro ds hds
    rw [jsons_eq_map]
    exact .array (List.forall_mem_map.2 hds)
  induction h with
  | none => exact .null
  | bool b => exact .bool b
  | int n => exact .int n
  | text s => exact .text s
  | severity s => exact .text s.word
  | style s => exact .text s.word
  | list _ ih => exact items _ ih
  | tuple _ ih => exact items _ ih
  | table _ keys ih =>
    rw [json, entryJsons_eq_map]
    exact .object (List.forall_mem_map.2 ih) (List.pairwise_map.2 keys)

/-! ## Levels -/

mutual

/-- How many values are inside each other; in a level or a style is its word. -/
def levels : Data → Nat
  | severity _ => 2
  | style _ => 2
  | list ds => levelsOfItems ds + 1
  | tuple ds => levelsOfItems ds + 1
  | table es => levelsOfEntries es + 1
  | _ => 1

/-- The most levels of an item. -/
def levelsOfItems : List Data → Nat
  | [] => 0
  | d :: ds => max (levels d) (levelsOfItems ds)

/-- The most levels of the value of an entry. -/
def levelsOfEntries : List (String × Data) → Nat
  | [] => 0
  | (_, d) :: es => max (levels d) (levelsOfEntries es)

end

theorem levelsOfItems_le_iff {ds : List Data} {n : Nat} :
    levelsOfItems ds ≤ n ↔ ∀ d ∈ ds, levels d ≤ n := by
  induction ds with
  | nil => simp [levelsOfItems]
  | cons d ds ih => simp only [levelsOfItems, Nat.max_le, ih, List.forall_mem_cons]

theorem levelsOfEntries_le_iff {es : List (String × Data)} {n : Nat} :
    levelsOfEntries es ≤ n ↔ ∀ e ∈ es, levels e.2 ≤ n := by
  induction es with
  | nil => simp [levelsOfEntries]
  | cons e es ih => simp only [levelsOfEntries, Nat.max_le, ih, List.forall_mem_cons]

/-- Nothing that is no collection is nested, and it has two levels at most. -/
theorem levels_le_nesting {d : Data} (h : d.IsPortable) : d.levels ≤ d.json.nesting + 2 := by
  have items : ∀ ds : List Data, (∀ d ∈ ds, d.levels ≤ d.json.nesting + 2) →
      levelsOfItems ds + 1 ≤ (Json.array (jsons ds)).nesting + 2 := by
    intro ds hds
    refine Nat.succ_le_succ (levelsOfItems_le_iff.2 fun d hd => ?_)
    have hlt := Json.nesting_lt_of_mem_items (List.mem_map_of_mem (f := json) hd)
    have hle := hds d hd
    rw [jsons_eq_map]
    omega
  induction h with
  | none | bool | int | text | severity | style => simp [levels]
  | list _ ih | tuple _ ih => exact items _ ih
  | @table es _ _ ih =>
    rw [json, entryJsons_eq_map]
    refine Nat.succ_le_succ (levelsOfEntries_le_iff.2 fun e he => ?_)
    have hlt : e.2.json.nesting < _ := Json.nesting_lt_of_mem_entries
      (List.mem_map_of_mem (f := fun e : String × Data => (e.1, e.2.json)) he)
    have hle := ih e he
    omega

/-! ## Forms -/

theorem formsIn_map {α : Type} {s : Slot} {room : Nat} {f : α → Data} {g : α → Json} {as : List α}
    (h : ∀ a ∈ as, formIn s room (f a) = .ok (g a)) :
    formsIn s room (as.map f) = .ok (as.map g) := by
  induction as with
  | nil => rfl
  | cons a as ih =>
    rw [List.map_cons, formsIn, h a List.mem_cons_self,
      ih fun x hx => h x (List.mem_cons_of_mem _ hx)]
    rfl

theorem entryForms_eq_map {room : Nat} {es : List (String × Data)}
    (h : ∀ e ∈ es, formIn .anything room e.2 = .ok e.2.json) :
    entryForms room es = .ok (es.map fun e => (e.1, e.2.json)) := by
  induction es with
  | nil => rfl
  | cons e es ih =>
    rw [entryForms, h e List.mem_cons_self, ih fun x hx => h x (List.mem_cons_of_mem _ hx)]
    rfl

theorem enter_anything {room : Nat} {d : Data} (h : d.isMember = false) (hroom : 1 ≤ room) :
    Slot.enter .anything room d = .ok (room - 1) := by
  simp only [Slot.enter, Slot.cost, Slot.takes, h, Bool.false_eq_true, if_false]
  exact if_pos hroom

theorem enter_anything_member {room : Nat} {d : Data} (h : d.isMember = true) (hroom : 2 ≤ room) :
    Slot.enter .anything room d = .ok (room - 2) := by
  simp only [Slot.enter, Slot.cost, Slot.takes, h, Bool.false_eq_true, if_false, if_true]
  exact if_pos hroom

/-- The items of portable data have a place less than the data itself. -/
theorem formsIn_portable {ds : List Data} {room : Nat}
    (ih : ∀ d ∈ ds, d.levels ≤ room → formIn .anything room d = .ok d.json)
    (hroom : levelsOfItems ds ≤ room) : formsIn .anything room ds = .ok (jsons ds) := by
  have hforms : formsIn .anything room (ds.map id) = .ok (ds.map json) :=
    formsIn_map fun d hd => ih d hd (levelsOfItems_le_iff.1 hroom d hd)
  rwa [List.map_id, ← jsons_eq_map] at hforms

/-- The values of the entries of portable data have a place less than the data itself. -/
theorem entryForms_portable {es : List (String × Data)} {room : Nat}
    (ih : ∀ e ∈ es, e.2.levels ≤ room → formIn .anything room e.2 = .ok e.2.json)
    (hroom : levelsOfEntries es ≤ room) : entryForms room es = .ok (entryJsons es) := by
  rw [entryJsons_eq_map]
  exact entryForms_eq_map fun e he => ih e he (levelsOfEntries_le_iff.1 hroom e he)

/-- **Forms of portable data.** Where it is not too deep, portable data has its JSON for its form. A
level or a style takes two places, and other data one. -/
theorem formIn_portable {d : Data} (h : d.IsPortable) {room : Nat} (hroom : d.levels ≤ room) :
    formIn .anything room d = .ok d.json := by
  -- inside of collections there is less room, so the bound is one for every room
  induction h generalizing room with
  | none | bool | int | text => rw [formIn, enter_anything rfl hroom]; rfl
  | severity | style => rw [formIn, enter_anything_member rfl hroom]; rfl
  | list _ ih | tuple _ ih =>
    rw [levels] at hroom
    have hone : 1 ≤ room := by omega
    have hitems := formsIn_portable (fun d hd => ih d hd) (Nat.le_sub_one_of_lt hroom)
    rw [formIn, enter_anything rfl hone]
    simp only [bind, Except.bind, Slot.item, hitems]
    rfl
  | table _ _ ih =>
    rw [levels] at hroom
    have hone : 1 ≤ room := by omega
    have hentries := entryForms_portable (fun e he => ih e he) (Nat.le_sub_one_of_lt hroom)
    rw [formIn, enter_anything rfl hone]
    simp only [bind, Except.bind, hentries]
    rfl

end Diagnostics.Data
