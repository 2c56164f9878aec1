import Diagnostics.Proofs.Data.Portable

/-!
# What is left of data in JSON

JSON has no tuples, levels and styles, so portable data that goes through it comes back as other
data: a tuple as a list, and a level or a style as its word. That is its `normal` form. It is native
(`IsPortable.isNative_normal`) and has the same JSON (`IsPortable.json_normal`), and native data is
its own normal form (`IsNative.normal_eq`).
-/

namespace Diagnostics.Data

mutual

/-- Data with lists for tuples and words for levels and styles. -/
def normal : Data → Data
  | severity s => .text s.word
  | style s => .text s.word
  | list ds => .list (normalItems ds)
  | tuple ds => .list (normalItems ds)
  | table es => .table (normalEntries es)
  | d => d

/-- The normal forms of items. -/
def normalItems : List Data → List Data
  | [] => []
  | d :: ds => normal d :: normalItems ds

/-- The normal forms of the values of entries, under the same keys. -/
def normalEntries : List (String × Data) → List (String × Data)
  | [] => []
  | (k, d) :: es => (k, normal d) :: normalEntries es

end

@[simp] theorem normalItems_eq_map (ds : List Data) : normalItems ds = ds.map normal := by
  induction ds with
  | nil => rfl
  | cons d ds ih => rw [normalItems, ih, List.map_cons]

@[simp] theorem normalEntries_eq_map (es : List (String × Data)) :
    normalEntries es = es.map fun e => (e.1, e.2.normal) := by
  induction es with
  | nil => rfl
  | cons e es ih => rw [normalEntries, ih, List.map_cons]

variable {d : Data}

theorem IsPortable.isNative_normal (h : d.IsPortable) : d.normal.IsNative := by
  have items : ∀ ds : List Data, (∀ d ∈ ds, d.normal.IsNative) →
      (Data.list (normalItems ds)).IsNative := by
    intro ds hds
    rw [normalItems_eq_map]
    exact .list (List.forall_mem_map.2 hds)
  induction h with
  | none => exact .none
  | bool b => exact .bool b
  | int n => exact .int n
  | text s => exact .text s
  | severity s => exact .text s.word
  | style s => exact .text s.word
  | list _ ih => exact items _ ih
  | tuple _ ih => exact items _ ih
  | table _ keys ih =>
    rw [normal, normalEntries_eq_map]
    exact .table (List.forall_mem_map.2 ih) (List.pairwise_map.2 keys)

/-- Nothing is lost but what JSON does not have. -/
theorem IsPortable.json_normal (h : d.IsPortable) : d.normal.json = d.json := by
  have items : ∀ ds : List Data, (∀ d ∈ ds, d.normal.json = d.json) →
      jsons (normalItems ds) = jsons ds := by
    intro ds hds
    simp only [normalItems_eq_map, jsons_eq_map, List.map_map]
    exact List.map_congr_left hds
  induction h with
  | none | bool | int | text | severity | style => rfl
  | list _ ih => rw [normal, json, json, items _ ih]
  | tuple _ ih => rw [normal, json, json, items _ ih]
  | table _ _ ih =>
    simp only [normal, json, normalEntries_eq_map, entryJsons_eq_map, List.map_map]
    refine congrArg Json.object (List.map_congr_left fun e he => ?_)
    exact Prod.ext rfl (ih e he)

theorem IsNative.normal_eq (h : d.IsNative) : d.normal = d := by
  induction h with
  | none | bool | int | text => rfl
  | @list ds _ ih =>
    rw [normal, normalItems_eq_map, List.map_congr_left ih, List.map_id']
  | @table es _ _ ih =>
    have hes : ∀ e ∈ es, (e.1, e.2.normal) = e := fun e he => Prod.ext rfl (ih e he)
    rw [normal, normalEntries_eq_map, List.map_congr_left hes, List.map_id']

/-- Words take less room than levels and styles. -/
theorem IsPortable.levels_normal_le (h : d.IsPortable) : d.normal.levels ≤ d.levels := by
  have items : ∀ ds : List Data, (∀ d ∈ ds, d.normal.levels ≤ d.levels) →
      levelsOfItems (normalItems ds) ≤ levelsOfItems ds := by
    intro ds hds
    have hle := levelsOfItems_le_iff.1 (Nat.le_refl (levelsOfItems ds))
    rw [normalItems_eq_map]
    exact levelsOfItems_le_iff.2
      (List.forall_mem_map.2 fun d hd => Nat.le_trans (hds d hd) (hle d hd))
  induction h with
  | none | bool | int | text => exact Nat.le_refl _
  | severity | style => exact Nat.le_succ 1
  | list _ ih => exact Nat.succ_le_succ (items _ ih)
  | tuple _ ih => exact Nat.succ_le_succ (items _ ih)
  | @table es _ _ ih =>
    have hle := levelsOfEntries_le_iff.1 (Nat.le_refl (levelsOfEntries es))
    rw [normal, normalEntries_eq_map]
    exact Nat.succ_le_succ (levelsOfEntries_le_iff.2
      (List.forall_mem_map.2 fun e he => Nat.le_trans (ih e he) (hle e he)))

end Diagnostics.Data
