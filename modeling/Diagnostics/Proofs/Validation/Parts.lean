import Diagnostics.Validation.Record
import Mathlib.Data.List.Forall2

/-!
# Checks of parts

What a check of several parts comes to, in terms of the parts: it is valid when all parts are, and
it ends with the first failure that ends a part (`failure?_both`, `failure?_each`). Checks of single
values never end with a failure; they are about the value and nothing else.
-/

namespace Diagnostics

variable {α β : Type}

namespace Check

/-- The failure that ended a check. -/
def failure? : Check α → Option Failure
  | aborted failure => some failure
  | _ => none

@[simp] theorem failure?_valid (a : α) : (valid a).failure? = none := rfl

@[simp] theorem failure?_refuse (kind : IssueKind) : (refuse kind : Check α).failure? = none := rfl

@[simp] theorem failure?_map (f : α → β) (c : Check α) : (c.map f).failure? = c.failure? := by
  cases c <;> rfl

@[simp] theorem failure?_under (step : PathStep) (c : Check α) :
    (c.under step).failure? = c.failure? := by
  cases c <;> rfl

/-- Two parts end with the failure of the first one that has one. -/
@[simp] theorem failure?_both (c : Check α) (d : Check β) :
    (both c d).failure? = c.failure?.or d.failure? := by
  cases c <;> cases d <;> rfl

/-- Items end with the failure of the first one that has one. -/
theorem failure?_each (f : α → Check β) (i : Nat) (as : List α) :
    (each f i as).failure? = as.findSome? fun a => (f a).failure? := by
  induction as generalizing i with
  | nil => rfl
  | cons a as ih =>
    rw [each, failure?_map, failure?_both, failure?_under, ih, List.findSome?_cons]
    cases (f a).failure? <;> rfl

/-- Items are valid together when each of them is. -/
theorem each_valid {f : α → Check β} {as : List α} {bs : List β}
    (h : List.Forall₂ (fun a b => f a = valid b) as bs) (i : Nat) : each f i as = valid bs := by
  induction h generalizing i with
  | nil => rfl
  | cons hab _ ih =>
    rw [each, hab, ih]
    rfl

end Check

namespace Validation

variable {name : String} {default : α} {check : Value → Check α} {entries : List (String × Value)}
  {v : Value} {a : α}

/-! ## Fields -/

/-- A required field is what its value is found to be. -/
theorem required_valid (hv : entries.lookup name = some v) (ha : check v = .valid a) :
    required name check entries = .valid a := by
  simp only [required, hv, ha]
  rfl

/-- An optional field that is there is what its value is found to be. -/
theorem optional_valid (hv : entries.lookup name = some v) (ha : check v = .valid a) :
    optional name default check entries = .valid a := by
  simp only [optional, hv, ha]
  rfl

/-- An optional field that is missing has its default. -/
theorem optional_default (h : entries.lookup name = none) :
    optional name default check entries = .valid default := by
  simp only [optional, h]

section Records

variable {source : Source} {σ : Store} {how level fileId range : Value}

/-- The fields of a label are valid when each of them is. -/
theorem labelFields_of_valid {s : LabelStyle} {d : Draft ByteRange} {m : String}
    (hhow : entries.lookup "style" = some how) (hs : style σ how = .valid s)
    (hfile : entries.lookup "file_id" = some fileId)
    (hrange : entries.lookup "range" = some range) (hd : labelRange source σ range = .valid d)
    (hm : optional "message" "" (text σ) entries = .valid m) :
    labelFields source σ entries = .valid ⟨s, fileId, d, m⟩ := by
  rw [labelFields, required_valid hhow hs, required_valid hfile rfl, required_valid hrange hd, hm]
  rfl

/-- The fields of a diagnostic are valid when each of them is. -/
theorem diagnosticFields_of_valid {s : Severity} {code : Option String} {m : String}
    {ds : List (Draft LabelDraft)} {lines : List String}
    (hlevel : entries.lookup "severity" = some level) (hs : severity σ level = .valid s)
    (hcode : optional "code" none (textOrNone σ) entries = .valid code)
    (hm : optional "message" "" (text σ) entries = .valid m)
    (hlabels : labels source σ entries = .valid ds)
    (hnotes : notes source (spendLabels source σ entries) entries = .valid lines) :
    diagnosticFields source σ entries = .valid ⟨s, code, m, ds, lines⟩ := by
  rw [diagnosticFields, required_valid hlevel hs, hcode, hm, hlabels, hnotes]
  rfl

end Records

/-- A field that has to be there ends a check when its value does. -/
theorem failure?_required (name : String) (check : Value → Check α)
    (entries : List (String × Value)) :
    (required name check entries).failure? =
      (entries.lookup name).bind fun v => (check v).failure? := by
  rw [required]
  cases entries.lookup name with
  | none => rfl
  | some v => exact Check.failure?_under _ _

/-- A field that may be left out ends a check when its value does. -/
theorem failure?_optional (name : String) (default : α) (check : Value → Check α)
    (entries : List (String × Value)) :
    (optional name default check entries).failure? =
      (entries.lookup name).bind fun v => (check v).failure? := by
  rw [optional]
  cases entries.lookup name with
  | none => rfl
  | some v => exact Check.failure?_under _ _

/-! ## Single values -/

variable (σ : Store) (v : Value)

@[simp] theorem failure?_natural (n : Int) : (natural n).failure? = none := by
  rw [natural]
  split <;> rfl

@[simp] theorem failure?_spelled (s : String) : (spelled s).failure? = none := by
  rw [spelled]
  split
  · exact failure?_natural _
  · rfl
  · rfl

@[simp] theorem failure?_whole (x : Binary64) : (whole x).failure? = none := by
  rw [whole]
  split
  · rfl
  · split
    · rfl
    · split
      · exact failure?_natural _
      · rfl

@[simp] theorem failure?_offset : (offset v).failure? = none := by
  cases v with
  | int n => exact failure?_natural n
  | real x => exact failure?_whole x
  | text s => exact failure?_spelled s
  | severity s => exact failure?_spelled s.word
  | style s => exact failure?_spelled s.word
  | bytes bs =>
    rw [offset]
    split
    · exact failure?_spelled _
    · rfl
  | _ => rfl

@[simp] theorem failure?_decoded (bs : List UInt8) : (decoded bs).failure? = none := by
  rw [decoded]
  split <;> rfl

@[simp] theorem failure?_text : (text σ v).failure? = none := by
  unfold text
  split <;> simp

@[simp] theorem failure?_textOrNone : (textOrNone σ v).failure? = none := by
  unfold textOrNone
  split <;> simp

@[simp] theorem failure?_severity : (severity σ v).failure? = none := by
  unfold severity
  split <;> rfl

@[simp] theorem failure?_style : (style σ v).failure? = none := by
  unfold style
  split <;> rfl

/-- Bounds may be no offsets, but never end a check. -/
@[simp] theorem failure?_bounds (start stop : Value) : (bounds start stop).failure? = none := by
  simp [bounds]

end Validation

end Diagnostics
