import Diagnostics.Proofs.Attribute.Total
import Diagnostics.Proofs.Builder.Plans
import Diagnostics.Proofs.Builder.Separate

/-!
# Rebinding equals building

It makes no difference whether labels are made in a file or put into it afterwards: a diagnostic that is
built without a file and then rebound equals one that is built in the file. Nor does it make a
difference in which file a diagnostic was before, or how often it has been rebound
(`rebinding_equals_building`). Apart from the files everything stays in its place, so the position is
the same as well.
-/

namespace Diagnostics

variable {σ τ ρ : Store} {v w fileId : Value} {k l : Loc} {a b : Anatomy} {file : Data}

open Diagnostics.Action Store

/-! ## What does not depend on files -/

namespace Anatomy

/-- A rebound diagnostic holds what the old one held, but for the file. -/
theorem Rebound.content_eq (h : a.Rebound σ fileId τ b) (file : Data) :
    b.content file = a.content file := by
  have hparts : b.parts.map (Part.content file) = a.parts.map (Part.content file) := by
    refine List.forall₂_eq_eq_eq ▸ ?_
    rw [List.forall₂_map_left_iff, List.forall₂_map_right_iff]
    refine h.parts.flip.imp fun q p hpq => ?_
    rw [Part.content, Part.content, hpq.style, hpq.bounds, hpq.message]
  have hlines : b.lines = a.lines := by
    rw [lines, h.notes, List.map_map]
    exact List.map_id _
  rw [content, content, h.severity, h.code, h.message, hparts, hlines]

/-- A rebound diagnostic shows what the old one holds, in the file. -/
theorem Rebound.view (h : a.Rebound σ fileId τ b) (hfile : σ.view fileId = some file)
    (hnative : file.IsNative) :
    τ.view (.object b.diagnostic) = some (a.content file).data := by
  rw [← h.content_eq file]
  refine h.isIn.view (fun q hq => h.view_file hfile hnative hq) ?_
  rw [h.notes]
  exact List.forall_mem_map.2 fun t _ => ⟨t, rfl⟩

end Anatomy

/-- What holds native files equals itself. -/
theorem Anatomy.equal_content_self (a : Anatomy) (hnative : file.IsNative) :
    (a.content file).data.equal (a.content file).data :=
  DiagnosticContent.equal_data_self (List.forall_mem_map.2 fun _ _ => hnative)

/-! ## Positions -/

/-- What a label counts for. -/
def Part.mark (p : Part) : Mark := ⟨.object p.label, p.style, p.bounds.start⟩

theorem Part.IsIn.marks {p : Part} (h : p.IsIn σ) : σ.Marks p.mark :=
  ⟨Exchange.perform_stored h.label rfl rfl, .object p.range, Exchange.perform_stored h.label rfl rfl,
    Exchange.perform_stored h.range rfl rfl⟩

/-- The position depends on styles and starts. -/
theorem Mark.position?_congr {ms ns : List Mark}
    (h : ms.map (fun m => (m.style, m.start)) = ns.map fun m => (m.style, m.start)) :
    position? ms = position? ns := by
  have keyed : ∀ ms : List Mark, position? ms =
      ((ms.map fun m => (m.style, m.start)).map fun k => (k.1.rank : Int)).max?.bind fun top =>
        (((ms.map fun m => (m.style, m.start)).filter fun k => (k.1.rank : Int) = top).map
          Prod.snd).min? := by
    intro ms
    simp only [position?, startsOf, List.map_map, List.filter_map]
    rfl
  rw [keyed, keyed, h]

/-- The position of a diagnostic. -/
theorem Anatomy.IsIn.read_position (h : a.IsIn σ) :
    (Attribute.read (.object a.diagnostic) "position").perform σ =
      (.ok (((Mark.position? (a.parts.map Part.mark)).map fun n : Nat => .int n).getD .none), σ) := by
  refine Attribute.read_position h.diagnostic rfl ?_ ?_
  · rw [List.map_map]
    exact h.labelList
  · exact List.forall_mem_map.2 fun p hp => (h.parts p hp).marks

theorem Anatomy.Rebound.position?_eq (h : a.Rebound σ fileId τ b) :
    Mark.position? (b.parts.map Part.mark) = Mark.position? (a.parts.map Part.mark) := by
  refine Mark.position?_congr (List.forall₂_eq_eq_eq ▸ ?_)
  simp only [List.map_map, List.forall₂_map_left_iff, List.forall₂_map_right_iff]
  refine h.parts.flip.imp fun q p hpq => ?_
  simp [Part.mark, hpq.style, hpq.bounds]

/-! ## Equal diagnostics -/

/-- Whether two values show the same data, and the data equals itself. -/
def Store.ShowEqual (σ : Store) (v w : Value) : Prop :=
  ∃ d : Data, σ.view v = some d ∧ σ.view w = some d ∧ d.equal d

namespace Builder

/-- Building without a file and rebinding gives what building in the file gives. -/
theorem make_withFile (plan : DiagnosticPlan) {rs : List ByteRange}
    (hranges : List.Forall₂ (fun p r => σ.Describes p.range r) plan.labels rs)
    (hfile : σ.view fileId = some file) (hnative : file.IsNative) :
    (do
      let d ← plan.make .none
      let n ← withFile d fileId
      return (n, ← plan.make fileId)).Returns σ fun made τ => τ.ShowEqual made.1 made.2 := by
  refine (plan.make_anatomy hranges .none).bind ?_
  rintro _ τ ⟨a, rfl, ha, -, -, hcontent, hτ⟩
  have hfile' := view_of_grows hτ hfile
  refine (withFile_rebound ha (isCopyable_of_view hfile' hnative)).bind ?_
  rintro _ ρ ⟨b, rfl, hb⟩
  have hρ := hτ.trans hb.grown.grows
  refine (plan.make_anatomy (hranges.imp fun _ _ h => h.grows hρ) fileId).bind ?_
  rintro _ ρ' ⟨c, rfl, hc, hfiles, hnotes, hcontent', hρ'⟩
  refine ⟨_, ρ', rfl, (a.content file).data, view_of_grows hρ' (hb.view hfile' hnative), ?_,
    a.equal_content_self hnative⟩
  have hview := hc.view (fun q hq => by
    rw [hfiles q hq]
    exact view_of_grows (hρ.trans hρ') hfile) hnotes
  rw [hview, hcontent, hcontent']

/-- Rebinding twice gives what rebinding to the second file gives. -/
theorem withFile_withFile {F G : Value} {f g : Data} (ha : a.IsIn σ) (hF : σ.view F = some f)
    (hf : f.IsNative) (hG : σ.view G = some g) (hg : g.IsNative) :
    (do
      let n ← withFile (.object a.diagnostic) F
      let m ← withFile n G
      return (m, ← withFile (.object a.diagnostic) G)).Returns σ
        fun made τ => τ.ShowEqual made.1 made.2 := by
  refine (withFile_rebound ha (isCopyable_of_view hF hf)).bind ?_
  rintro _ τ ⟨b, rfl, hb⟩
  have hG' := view_of_grows hb.grown.grows hG
  refine (withFile_rebound hb.isIn (isCopyable_of_view hG' hg)).bind ?_
  rintro _ ρ ⟨c, rfl, hc⟩
  have hρ := hb.grown.grows.trans hc.grown.grows
  have hG'' := view_of_grows hρ hG
  refine (withFile_rebound (ha.grows hρ) (isCopyable_of_view hG'' hg)).bind ?_
  rintro _ ρ' ⟨e, rfl, he⟩
  refine ⟨_, ρ', rfl, (a.content g).data, ?_, he.view hG'' hg, a.equal_content_self hg⟩
  rw [← hb.content_eq g]
  exact view_of_grows he.grown.grows (hc.view hG' hg)

/-- **Rebinding equals building.** Where a file is a tree of values that JSON has, a diagnostic that is
built without a file from whatever describes its ranges, and then rebound, equals one that is built in
the file. A diagnostic that holds what it was declared for can be rebound: all its labels are then in
a file that equals the given one, with the style, the range and the message that they had, and the
position is what it was; and if it is rebound once more, it equals one that never was in the first
file. -/
theorem rebinding_equals_building {F : Value} {f : Data} (hF : σ.view F = some f)
    (hf : f.IsNative) :
    (∀ plan : DiagnosticPlan,
      (∀ p ∈ plan.labels, (Record.toByteRange p.range).Returns σ fun w τ =>
        ∃ r : ByteRange, τ.cell? w = some (.byteRange ⟨.int r.start, .int r.stop⟩)) →
      (do
        let d ← plan.make .none
        let n ← withFile d F
        return (n, ← plan.make F)).Returns σ fun made τ => τ.ShowEqual made.1 made.2) ∧
    ∀ d fields, σ.get? d = some (.diagnostic fields) → σ.IsSound (.object d) →
      ((withFile (.object d) F).Returns σ fun n τ => ∃ a b : Anatomy,
        (a.diagnostic = d ∧ a.IsIn σ) ∧ (n = .object b.diagnostic ∧ b.IsIn τ) ∧
        List.Forall₂ (fun p q : Part => τ.ShowEqual q.fileId F ∧ q.style = p.style ∧
          q.bounds = p.bounds ∧ q.message = p.message) a.parts b.parts ∧
        ∃ w, (Attribute.read (.object d) "position").perform τ = (.ok w, τ) ∧
          (Attribute.read n "position").perform τ = (.ok w, τ)) ∧
      ∀ G g, σ.view G = some g → g.IsNative →
        (do
          let n ← withFile (.object d) F
          let m ← withFile n G
          return (m, ← withFile (.object d) G)).Returns σ
            fun made τ => τ.ShowEqual made.1 made.2 := by
  refine ⟨fun plan hplan => ?_, fun d fields hd hsound => ?_⟩
  · obtain ⟨rs, hrs⟩ := exists_forall₂ fun p hp => exists_describes (hplan p hp)
    exact make_withFile plan hrs hF hf
  obtain ⟨a, rfl, ha⟩ := hsound.exists_anatomy hd
  refine ⟨?_, fun G g hG hg => withFile_withFile ha hF hf hG hg⟩
  refine (withFile_rebound ha (isCopyable_of_view hF hf)).imp ?_
  rintro _ τ ⟨b, rfl, hb⟩
  refine ⟨a, b, ⟨rfl, ha⟩, ⟨rfl, hb.isIn⟩, ?_, _, (ha.grows hb.grown.grows).read_position, ?_⟩
  · have hfiles : ∀ q ∈ b.parts, τ.ShowEqual q.fileId F := fun q hq =>
      ⟨f, hb.view_file hF hf hq, view_of_grows hb.grown.grows hF, hf.equal_self⟩
    refine (List.Forall₂.flip (forall₂_imp_of_mem hb.parts.flip fun q hq p hpq => ?_))
    exact ⟨hfiles q hq, hpq.style, hpq.bounds, hpq.message⟩
  · rw [← hb.position?_eq]
    exact hb.isIn.read_position

/-- Two labels of one range, and a diagnostic that has one label twice. -/
theorem rebinding_equals_building_shared :
    let plan : DiagnosticPlan := ⟨.error, some "E1", "message",
      [⟨.primary, .object 0, some "here"⟩, ⟨.secondary, .object 0, none⟩], ["note"]⟩
    (do
      let d ← plan.make .none
      let n ← withFile d (.object 5)
      return (n, ← plan.make (.object 5))).Returns sharedStore
        (fun made τ => τ.ShowEqual made.1 made.2) ∧
    (do
      let n ← withFile (.object 4) (.object 5)
      let m ← withFile n .none
      return (m, ← withFile (.object 4) .none)).Returns sharedStore
        fun made τ => τ.ShowEqual made.1 made.2 := by
  have hfile : sharedStore.view (.object 5) = some (.list []) := view_iff_unfolds.2 (.list rfl .nil)
  have hranges : (Record.toByteRange (.object 0)).Returns sharedStore fun w τ =>
      ∃ r : ByteRange, τ.cell? w = some (.byteRange ⟨.int r.start, .int r.stop⟩) :=
    ⟨.object 0, sharedStore, rfl, ⟨0, 1⟩, rfl⟩
  obtain ⟨hplans, hdiagnostics⟩ :=
    rebinding_equals_building hfile (.list (List.forall_mem_nil _))
  refine ⟨hplans _ ?_, (hdiagnostics 4 _ rfl sharedAnatomy_isIn.isSound).2 .none .none
    (view_none _) .none⟩
  intro p hp
  simp only [List.mem_cons, List.not_mem_nil, or_false] at hp
  rcases hp with rfl | rfl
  · exact hranges
  · exact hranges

end Builder

end Diagnostics
