import Diagnostics.Proofs.Builder.Parted
import Diagnostics.Proofs.Builder.Separate
import Diagnostics.Proofs.Session.WellFormed

/-!
# Whose lists are whose in a session

A list object belongs to a diagnostic when that has it for its labels or its notes. As long as no
attribute is assigned, lists come into the possession of a diagnostic only when it is made: it is made
with new ones, unless it is a copy of another diagnostic, which rebinding makes when it is given one
as the file. So in a session that copies no diagnostic (`Session.CopiesNoDiagnostic`) no list ever
belongs to two of them, nor to one that did not have it from the start (`Session.run_parts`).

What is given away is new and belongs to no diagnostic, and what is given to a diagnostic is copied
from. Appending to such a list afterwards leaves the labels and notes of all diagnostics as they are
(`Store.NeverHas`, `keepsOwnership_of_run`).
-/

namespace Diagnostics

open Store Diagnostics.Action

variable {α β : Type} {names : Names} {σ τ ρ : Store} {p q : Prop} {k l : Loc} {v w : Value}

/-! ## What requests do -/

/-- Whether a request assigns an attribute. -/
def Request.IsAssignment : Request → Prop
  | operation (.assign ..) => True
  | _ => False

/-- Whether a request copies no diagnostic. -/
def Request.CopiesNoDiagnostic (names : Names) (σ : Store) : Request → Prop
  | operation (.withFile r file) => Literal.Both names σ r file Store.CopiesNoDiagnostic
  | _ => True

/-- Whether none of some requests, one after the other, copies a diagnostic. -/
def Session.CopiesNoDiagnostic (s : Session) : List (Request × Option String) → Prop
  | [] => True
  | (request, name?) :: rest =>
    request.CopiesNoDiagnostic s.names s.store ∧ (s.step request name?).2.CopiesNoDiagnostic rest

/-- What a literal describes is no owner of lists. -/
theorem Literal.eval_parts (l : Literal) (σ : Store) : Parts p σ ((l.eval names).perform σ).2 :=
  (isCalm_eval names l).parts σ

namespace Operation

/-- Describing a byte range passes no list on. -/
theorem describe_parts (v : Value) (σ : Store) : Parts p σ ((describe v).perform σ).2 := by
  obtain ⟨f, hdescribe, hf⟩ := exists_describe v
  rw [hdescribe]
  exact bind_parts (Record.toByteRange_parts v σ) fun range τ _ => (hf range).parts τ

/-- Slicing passes no list on. -/
theorem partOf_parts (range data : Value) (σ : Store) :
    Parts p σ ((partOf range data).perform σ).2 := by
  obtain ⟨f, hpart, hf⟩ := exists_partOf range data
  rw [hpart]
  exact bind_parts (Record.toByteRange_parts range σ) fun range τ _ => (hf range).parts τ

/-- A step of building passes no list on. -/
theorem step_parts (method : Builder.Method) (r a : Literal) (σ : Store) :
    Parts p σ ((step names r a method.act).perform σ).2 := by
  refine bind_parts (r.eval_parts σ) fun v τ _ => bind_parts (a.eval_parts τ) fun w ρ _ => ?_
  exact bind_parts (method.parts v w ρ) fun _ ρ' _ => (Reply.isCalm_ofReceiver v).parts ρ'

/-- Rebinding passes no list on unless it copies a diagnostic. -/
theorem withFile_parts (r file : Literal) (σ : Store) :
    Parts (Literal.Both names σ r file Store.CopiesNoDiagnostic) σ
      (((withFile r file).act names).perform σ).2 := by
  refine bind_parts (r.eval_parts σ) fun v τ hfirst => ?_
  refine bind_parts (file.eval_parts τ) fun w ρ hsecond => ?_
  have hrebound := (Builder.withFile_grafts v w ρ).parts
  refine bind_parts (hrebound.imp fun h => h v w τ ρ hfirst hsecond) fun u ρ' _ => ?_
  exact (Reply.isCalm_ofValue u).parts ρ'

/-- **Operations.** As long as none assigns an attribute, they pass no list on but by copies. -/
theorem act_parts (names : Names) {o : Operation} (ho : ¬ (Request.operation o).IsAssignment)
    (σ : Store) :
    Parts ((Request.operation o).CopiesNoDiagnostic names σ) σ ((o.act names).perform σ).2 := by
  by_cases hlooks : o.IsLooking
  · exact (isCalm_act names hlooks).parts σ
  cases o with
  | toByteRange v => exact bind_parts (v.eval_parts σ) fun v τ _ => describe_parts v τ
  | sliceBytes range data =>
    refine bind_parts (range.eval_parts σ) fun r τ _ => ?_
    exact bind_parts (data.eval_parts τ) fun d ρ _ => partOf_parts r d ρ
  | ofData type data =>
    refine bind_parts (data.eval_parts σ) fun d τ _ => ?_
    exact bind_parts (Record.ofData_parts type d τ) fun w ρ _ => (Reply.isCalm_ofValue w).parts ρ
  | label how file range =>
    refine bind_parts (how.eval_parts σ) fun how τ _ => ?_
    refine bind_parts (file.eval_parts τ) fun file τ₁ _ => ?_
    refine bind_parts (range.eval_parts τ₁) fun range τ₂ _ => ?_
    refine bind_parts (Record.label_parts how file range τ₂) fun w ρ _ => ?_
    exact (Reply.isCalm_ofValue w).parts ρ
  | diagnostic level =>
    refine bind_parts (level.eval_parts σ) fun s τ _ => ?_
    refine bind_parts (Record.diagnosticOfFields_parts _ τ) fun w ρ _ => ?_
    exact (Reply.isCalm_ofValue w).parts ρ
  | withCode r a => exact step_parts .code r a σ
  | withMessage r a => exact step_parts .message r a σ
  | withLabels r a => exact step_parts .labels r a σ
  | withLabelsEach r a => exact step_parts .labelsEach r a σ
  | withNotes r a => exact step_parts .notes r a σ
  | withNotesEach r a => exact step_parts .notesEach r a σ
  | withFile r file => exact withFile_parts r file σ
  | assign => exact absurd trivial ho
  | append v w =>
    refine bind_parts (v.eval_parts σ) fun v τ _ => bind_parts (w.eval_parts τ) fun w ρ _ => ?_
    refine bind_parts (Attribute.append_parts v w ρ) fun _ ρ' _ => ?_
    exact (Reply.isCalm_ofValue v).parts ρ'
  | _ => exact absurd rfl hlooks

end Operation

namespace Transfer

/-- An exchange passes no list on if what it does with its argument does not. -/
theorem exchange_parts (argument : Literal) {f : Value → Store → Outcome α}
    {reply : α → Action Reply} (hf : ∀ v (τ : Store), Parts p τ (f v τ).store)
    (hreply : ∀ a, (reply a).IsCalm) (σ : Store) :
    Parts p σ (exchange names argument f reply σ).store := by
  have hτ : Parts p σ ((argument.eval names).perform σ).2 := argument.eval_parts σ
  rw [exchange]
  split
  · next hresult =>
    rwa [hresult] at hτ
  · next v τ hresult =>
    rw [hresult] at hτ
    dsimp only
    split
    · exact hτ.trans (hf v τ)
    · next a _ => exact hτ.trans ((hf v τ).trans ((hreply a).parts _))

/-- A transfer passes no list on, whichever it is. -/
theorem run_parts (t : Transfer) (σ : Store) : Parts p σ (t.run names σ).store := by
  have text : ∀ s, (replyText s).IsCalm := fun s => Reply.isCalm_ofValue (.text s)
  cases t with
  | ofPlain data => exact exchange_parts data Exchange.ofPlain_parts Reply.isCalm_ofValue σ
  | dump config v => exact exchange_parts v (Exchange.dump_parts config) text σ
  | load s => exact exchange_parts s Exchange.load_parts Reply.isCalm_ofValue σ
  | dumpAll config v => exact exchange_parts v (Exchange.dumpAll_parts config) text σ
  | loadAll s => exact exchange_parts s Exchange.loadAll_parts Reply.isCalm_ofValue σ

end Transfer

/-- **One request.** -/
theorem Request.run_parts {request : Request} (h : ¬ request.IsAssignment) (σ : Store) :
    Parts (request.CopiesNoDiagnostic names σ) σ (request.run names σ).store := by
  cases request with
  | operation o => exact Operation.act_parts names h σ
  | transfer t => exact Transfer.run_parts t σ

/-- **Many requests.** As long as none assigns an attribute, they pass no list on but by copies. -/
theorem Session.run_parts {requests : List (Request × Option String)}
    (h : ∀ request ∈ requests, ¬ request.1.IsAssignment) (s : Session) :
    Parts (s.CopiesNoDiagnostic requests) s.store (s.run requests).2.store := by
  induction requests generalizing s with
  | nil => exact .refl _ s.store
  | cons request rest ih =>
    obtain ⟨request, name?⟩ := request
    obtain ⟨hrequest, hrest⟩ := List.forall_mem_cons.1 h
    refine ((Request.run_parts hrequest s.store).imp fun h => h.1).trans ?_
    exact (ih hrest (s.step request name?).2).imp fun h => h.2

/-! ## What is new -/

namespace Store

variable {n : Loc} {c : Cell}

/-- Whether a value is no object, or one that lies at some place or after it. -/
def IsWithin (σ : Store) (n : Loc) (v : Value) : Prop :=
  ∀ l, v = .object l → n ≤ l ∧ l < σ.size

/-- Whether what lies at some place or after it holds nothing that lies before. -/
def IsSealed (σ : Store) (n : Loc) : Prop :=
  ∀ l c, n ≤ l → σ.get? l = some c → ∀ v ∈ c.held, σ.IsWithin n v

theorem isSealed_size (σ : Store) : σ.IsSealed σ.size :=
  fun _ _ hle hl => absurd (lt_size_of_get? hl) (Nat.not_lt.2 hle)

theorem IsWithin.grows (h : σ.IsWithin n v) (hστ : σ.Grows τ) : τ.IsWithin n v :=
  fun l hl => ⟨(h l hl).1, Nat.lt_of_lt_of_le (h l hl).2 hστ.size_le⟩

theorem IsSealed.alloc (h : σ.IsSealed n) (hc : ∀ v ∈ c.held, σ.IsWithin n v) :
    (σ.alloc c).2.IsSealed n := by
  intro l c' hle hl v hv
  refine IsWithin.grows ?_ (Grows.alloc σ c)
  by_cases hnew : l = σ.size
  · rw [hnew, get?_alloc_self] at hl
    cases hl
    exact hc v hv
  · rw [get?_alloc_of_ne σ c hnew] at hl
    exact h l c' hle hl v hv

/-- What lies after some place leads to nothing before it. -/
theorem IsSealed.isWithin_of_reaches (h : σ.IsSealed n) (hv : σ.IsWithin n v)
    (hl : σ.Reaches v l) : n ≤ l ∧ l < σ.size := by
  induction hl with
  | here l => exact hv l rfl
  | through cell mem _ ih => exact ih (h _ _ (hv _ rfl).1 cell _ mem)

/-- A store in which records stay as they are loses no object. -/
theorem Calm.size_le (h : σ.Calm τ) : σ.size ≤ τ.size := by
  by_contra hlt
  obtain ⟨c, hc⟩ : ∃ c, σ.get? τ.size = some c :=
    ⟨_, List.getElem?_eq_getElem (Nat.lt_of_not_le hlt)⟩
  have hcalm := h τ.size
  rw [get?_size, hc] at hcalm
  cases hcalm

end Store

namespace Exchange

variable {n : Loc}

mutual

/-- What is made of JSON leads to new objects only. -/
theorem ofJson_isSealed {σ : Store} (hσ : σ.IsSealed n) (hn : n ≤ σ.size) : (j : Json) →
    (ofJson σ j).2.IsSealed n ∧ (ofJson σ j).2.IsWithin n (ofJson σ j).1
  | .null => ⟨hσ, nofun⟩
  | .bool _ => ⟨hσ, nofun⟩
  | .int _ => ⟨hσ, nofun⟩
  | .real (.nan _) => ⟨hσ, nofun⟩
  | .real (.infinite _) => ⟨hσ, nofun⟩
  | .real (.finite ..) => ⟨hσ, nofun⟩
  | .text _ => ⟨hσ, nofun⟩
  | .array js => by
    obtain ⟨hτ, hvs⟩ := ofJsons_isSealed hσ hn js
    have hle := Nat.le_trans hn (ofJsons_shows σ js).1.size_le
    refine ⟨hτ.alloc hvs, ?_⟩
    rintro _ ⟨⟩
    exact ⟨hle, lt_size_of_get? (get?_alloc_self _ _)⟩
  | .object es => by
    obtain ⟨hτ, hvs⟩ := ofEntries_isSealed hσ hn es
    have hle := Nat.le_trans hn (ofEntries_shows σ es).1.size_le
    refine ⟨hτ.alloc (List.forall_mem_map.2 hvs), ?_⟩
    rintro _ ⟨⟩
    exact ⟨hle, lt_size_of_get? (get?_alloc_self _ _)⟩

theorem ofJsons_isSealed {σ : Store} (hσ : σ.IsSealed n) (hn : n ≤ σ.size) : (js : List Json) →
    (ofJsons σ js).2.IsSealed n ∧ ∀ v ∈ (ofJsons σ js).1, (ofJsons σ js).2.IsWithin n v
  | [] => ⟨hσ, List.forall_mem_nil _⟩
  | j :: js => by
    obtain ⟨hτ, hv⟩ := ofJson_isSealed hσ hn j
    have hle := Nat.le_trans hn (ofJson_shows σ j).1.size_le
    obtain ⟨hρ, hvs⟩ := ofJsons_isSealed hτ hle js
    exact ⟨hρ, List.forall_mem_cons.2 ⟨hv.grows (ofJsons_shows _ js).1, hvs⟩⟩

theorem ofEntries_isSealed {σ : Store} (hσ : σ.IsSealed n) (hn : n ≤ σ.size) :
    (es : List (String × Json)) →
    (ofEntries σ es).2.IsSealed n ∧ ∀ e ∈ (ofEntries σ es).1, (ofEntries σ es).2.IsWithin n e.2
  | [] => ⟨hσ, List.forall_mem_nil _⟩
  | (k, j) :: es => by
    obtain ⟨hτ, hv⟩ := ofJson_isSealed hσ hn j
    have hle := Nat.le_trans hn (ofJson_shows σ j).1.size_le
    obtain ⟨hρ, hvs⟩ := ofEntries_isSealed hτ hle es
    exact ⟨hρ, List.forall_mem_cons.2 ⟨hv.grows (ofEntries_shows _ es).1, hvs⟩⟩

end

end Exchange

/-! ## What becomes of lists -/

namespace Store

/-- Whether a store comes later than another one, or is the same, in a session that assigns no
attribute and copies no diagnostic. -/
def Later (σ ρ : Store) : Prop :=
  ∃ (names : Names) (requests : List (Request × Option String)),
    (∀ request ∈ requests, ¬ request.1.IsAssignment) ∧
    (Session.mk σ names).CopiesNoDiagnostic requests ∧
    ((Session.mk σ names).run requests).2.store = ρ

/-- Whether the diagnostic at some place, if there is one, is what it was, and so are its lists. -/
def KeepsLists (σ τ : Store) (k : Loc) : Prop :=
  ∀ d, σ.get? k = some (.diagnostic d) → τ.get? k = some (.diagnostic d) ∧
    τ.cell? d.labels = σ.cell? d.labels ∧ τ.cell? d.notes = σ.cell? d.notes

/-- Whether an object never belongs to the diagnostic at some place, which has no part in what is
appended to the object. -/
def NeverHas (σ : Store) (k l : Loc) : Prop :=
  ∀ ρ, σ.Later ρ → ¬ ρ.HasList k l ∧
    ∀ w, ρ.KeepsLists ((Attribute.append (.object l) w).perform ρ).2 k

/-- Whether an object never belongs to any diagnostic. -/
def IsFree (σ : Store) (l : Loc) : Prop := ∀ k, σ.NeverHas k l

/-- The ways in which a value is given to a diagnostic: to a step that builds it, and to whatever
makes records out of data. -/
inductive TakesIn (σ : Store) : Store → Prop where
  | step (method : Builder.Method) (receiver v : Value) :
    TakesIn σ ((method.act receiver v).perform σ).2
  | validation (type : RecordType) (v : Value) : TakesIn σ ((Record.ofData type v).perform σ).2
  | plain (v : Value) : TakesIn σ (Exchange.ofPlain v σ).store

/-- Whether diagnostics keep their lists to themselves, whatever is given to them and whatever they
give away. -/
structure KeepsOwnership (σ : Store) : Prop where
  /-- No list is for labels and for notes at once. -/
  apart : ∀ k m d e, σ.get? k = some (.diagnostic d) → σ.get? m = some (.diagnostic e) →
    d.labels ≠ e.notes
  /-- What is taken in does not come into the possession of a diagnostic that did not have it. -/
  taken : ∀ τ, σ.TakesIn τ → ∀ ρ, τ.Later ρ → σ.Passes ρ
  /-- What is taken in can be appended to, and only a diagnostic that had it has a part in that. -/
  spared : ∀ τ, σ.TakesIn τ → ∀ k, ∀ l < σ.size, ¬ σ.HasList k l → τ.NeverHas k l
  /-- The plain data of a diagnostic consists of new objects that can be appended to. -/
  written : ∀ config v w τ,
    (Exchange.toJson config v >>= Exchange.make).perform σ = (.ok w, τ) →
      ∀ l, τ.Reaches w l → σ.size ≤ l ∧ τ.IsFree l
  /-- The labels of either style are given in a new list that can be appended to. -/
  read : ∀ k d name w τ, σ.get? k = some (.diagnostic d) →
    name ∈ ["primary_labels", "secondary_labels"] →
      (Attribute.read (.object k) name).perform σ = (.ok w, τ) →
        ∃ l items, w = .object l ∧ τ.get? l = some (.list items) ∧ σ.size ≤ l ∧ τ.IsFree l
  /-- A step changes no list but those of its receiver. -/
  steps : ∀ (method : Builder.Method) m d v l vs, σ.get? m = some (.diagnostic d) →
    σ.get? l = some (.list vs) → ¬ σ.HasList m l →
      ((method.act (.object m) v).perform σ).2.get? l = some (.list vs)
  /-- Rebinding changes nothing. -/
  rebinding : ∀ receiver fileId l c, σ.get? l = some c →
    ((Builder.withFile receiver fileId).perform σ).2.get? l = some c

theorem Later.passes (h : σ.Later ρ) (hσ : σ.IsListed) : ρ.IsListed ∧ σ.Passes ρ := by
  obtain ⟨names, requests, hrequests, hcopies, rfl⟩ := h
  obtain ⟨hρ, hpasses⟩ := Session.run_parts hrequests (Session.mk σ names) hσ
  exact ⟨hρ, hpasses hcopies⟩

theorem TakesIn.parts (h : σ.TakesIn τ) : Parts p σ τ := by
  cases h with
  | step method receiver v => exact method.parts receiver v σ
  | validation type v => exact Record.ofData_parts type v σ
  | plain v => exact Exchange.ofPlain_parts v σ

/-- Appending to an object that does not belong to a diagnostic. -/
theorem keepsLists_append (hl : ¬ σ.HasList k l) (w : Value) :
    σ.KeepsLists ((Attribute.append (.object l) w).perform σ).2 k := by
  intro d hk
  have hget := (Attribute.append_get? l w σ).1
  have same : ∀ v, (d.labels = v ∨ d.notes = v) →
      ((Attribute.append (.object l) w).perform σ).2.cell? v = σ.cell? v := by
    intro v hv
    cases v with
    | object j =>
      refine hget j ?_
      rintro rfl
      exact hl ⟨d, hk, hv⟩
    | _ => rfl
  refine ⟨?_, same _ (.inl rfl), same _ (.inr rfl)⟩
  by_cases hkl : k = l
  · -- nothing is appended to a diagnostic
    subst hkl
    rw [Attribute.append, perform_bind_of_ok _ (perform_cell? _ _),
      show σ.cell? (.object k) = some (.diagnostic d) from hk, isReading_noAttribute]
    exact hk
  · rw [hget k hkl, hk]

/-- What does not belong to a diagnostic now never does. -/
theorem neverHas_of_not_hasList (hσ : σ.IsListed) (hl : l < σ.size) (hk : ¬ σ.HasList k l) :
    σ.NeverHas k l := by
  intro ρ hρ
  obtain ⟨-, hpasses⟩ := hρ.passes hσ
  have hnone : ¬ ρ.HasList k l := fun hlater => hk (hpasses.fresh k l hl hlater)
  exact ⟨hnone, keepsLists_append hnone⟩

/-- What is made without a change to records is nobody's. -/
theorem IsListed.isFree_of_calm (h : σ.IsListed) (hτ : σ.Calm τ) (hle : σ.size ≤ l)
    (hl : l < τ.size) : τ.IsFree l := by
  refine fun k => neverHas_of_not_hasList (hτ.parts (p := True) h).1 hl ?_
  rintro ⟨d, hk, hd⟩
  exact Nat.not_lt.2 hle (h.lt_size ⟨d, hτ.get?_of_record hk rfl, hd⟩)

/-! ## Listed stores keep ownership -/

/-- The plain data of a diagnostic is made of new objects. -/
theorem IsListed.written (h : σ.IsListed) {config : Config}
    (hw : (Exchange.toJson config v >>= Exchange.make).perform σ = (.ok w, τ))
    (hl : τ.Reaches w l) : σ.size ≤ l ∧ τ.IsFree l := by
  have hτ : σ.Calm τ := ((Exchange.isCalm_toJson config v).bind Exchange.isCalm_make).perform_calm hw
  have hcalm := Exchange.isCalm_toJson config v σ
  rw [perform_bind] at hw
  generalize (Exchange.toJson config v).perform σ = made at hw hcalm
  obtain ⟨e | j, ρ⟩ := made
  · cases hw
  · obtain ⟨hsealed, hwithin⟩ := Exchange.ofJson_isSealed ρ.isSealed_size (Nat.le_refl _) j
    cases hw
    obtain ⟨hle, hlt⟩ := hsealed.isWithin_of_reaches hwithin hl
    have hle := Nat.le_trans hcalm.size_le hle
    exact ⟨hle, h.isFree_of_calm hτ hle hlt⟩

/-- The labels of a style are given in a new list. -/
theorem IsListed.read (h : σ.IsListed) {d : DiagnosticFields} {name : String}
    (hk : σ.get? k = some (.diagnostic d)) (hname : name ∈ ["primary_labels", "secondary_labels"])
    (hw : (Attribute.read (.object k) name).perform σ = (.ok w, τ)) :
    ∃ l items, w = .object l ∧ τ.get? l = some (.list items) ∧ σ.size ≤ l ∧ τ.IsFree l := by
  have hτ : σ.Calm τ := (Attribute.isCalm_read (.object k) name).perform_calm hw
  have hread : ∃ a : Action (List Value), a.IsCalm ∧
      (do Action.new (.list (← a))).perform σ = (.ok w, τ) := by
    rw [Attribute.read, perform_bind_of_ok _ (perform_cell? _ _),
      show σ.cell? (.object k) = some (.diagnostic d) from hk] at hw
    simp only [List.mem_cons, List.not_mem_nil, or_false] at hname
    rcases hname with rfl | rfl
    · exact ⟨_, isCalm_again (Attribute.isCalm_labelsOf .primary d.labels), hw⟩
    · exact ⟨_, isCalm_again (Attribute.isCalm_labelsOf .secondary d.labels), hw⟩
  obtain ⟨a, ha, hnew⟩ := hread
  have hcalm := ha σ
  rw [perform_bind] at hnew
  generalize a.perform σ = made at hnew hcalm
  obtain ⟨e | items, ρ⟩ := made
  · cases hnew
  · cases hnew
    have hlist := get?_alloc_self ρ (.list items)
    exact ⟨ρ.size, items, rfl, hlist, hcalm.size_le,
      h.isFree_of_calm hτ hcalm.size_le (lt_size_of_get? hlist)⟩

/-- A step changes the receiver and its lists, and beyond them nothing but one-shot sequences. -/
theorem get?_of_step {m : Loc} {c : Cell} (method : Builder.Method) (v : Value)
    (hl : σ.get? l = some c) (hc : ∀ vs, c ≠ .iterator vs) (hne : l ≠ m) (hlist : ¬ σ.HasList m l) :
    ((method.act (.object m) v).perform σ).2.get? l = some c := by
  refine (method.calmBut (.object m) v σ).get?_eq ?_ hl hc
  rintro (heq | ⟨e, he, hlists⟩)
  · exact hne (Value.object.inj heq).symm
  · exact hlist ⟨e, he, hlists⟩

/-- From a listed store on, ownership is kept. -/
theorem IsListed.keepsOwnership (h : σ.IsListed) : σ.KeepsOwnership where
  apart := h.apart
  taken τ hτ ρ hρ := by
    obtain ⟨hlisted, hpasses⟩ := hτ.parts (p := True) h
    exact (hpasses trivial).trans (hρ.passes hlisted).2
  spared τ hτ k l hl hk := by
    obtain ⟨hlisted, hpasses⟩ := hτ.parts (p := True) h
    have hpasses := hpasses trivial
    exact neverHas_of_not_hasList hlisted (hpasses.lt_size hl)
      fun hafter => hk (hpasses.fresh k l hl hafter)
  written config v w τ hw l hl := h.written hw hl
  read k d name w τ hk hname hw := h.read hk hname hw
  steps method m d v l vs hm hl hlist := by
    refine get?_of_step method v hl nofun ?_ hlist
    rintro rfl
    rw [hm] at hl
    cases hl
  rebinding receiver fileId l c hl := ((Builder.withFile_grafts receiver fileId σ) h).2.1.get? hl

/-- Where lists have sole owners, a step on one diagnostic leaves the others their lists. -/
theorem HasSoleOwners.keepsLists (hσ : σ.HasSoleOwners) (h : σ.IsListed) {d : DiagnosticFields}
    {m : Loc} (hm : σ.get? m = some (.diagnostic d)) (method : Builder.Method) (v : Value)
    (hne : k ≠ m) : σ.KeepsLists ((method.act (.object m) v).perform σ).2 k := by
  intro e hk
  have kept : ∀ u, σ.IsList u → (e.labels = u ∨ e.notes = u) →
      ((method.act (.object m) v).perform σ).2.cell? u = σ.cell? u := by
    rintro u ⟨vs, hvs⟩ hu
    obtain ⟨l, rfl, hl⟩ := exists_of_cell? hvs
    have hlist : ¬ σ.HasList m l := fun hown => hne (hσ k m l ⟨e, hk, hu⟩ hown)
    exact (h.keepsOwnership.steps method m d v l vs hm hl hlist).trans hl.symm
  refine ⟨get?_of_step method v hk nofun hne ?_, kept _ (h.labels k e hk) (.inl rfl),
    kept _ (h.notes k e hk) (.inr rfl)⟩
  -- a diagnostic is no list
  intro hown
  obtain ⟨vs, hvs⟩ := h.exists_list hown
  rw [hk] at hvs
  cases hvs

end Store

namespace Session

/-- **Ownership.** Whatever requests that assign no attribute have led to, whatever literals are then
read in it, diagnostics keep their lists to themselves. If moreover none of the requests has copied a
diagnostic, every list belongs to one diagnostic at most, and a step on one leaves the lists of all
others as they are. -/
theorem keepsOwnership_of_run {requests : List (Request × Option String)}
    (h : ∀ request ∈ requests, ¬ request.1.IsAssignment) {literals : List Literal}
    {vs : List Value} {σ : Store}
    (hσ : (Literal.evalAll (Session.empty.run requests).2.names literals).perform
      (Session.empty.run requests).2.store = (.ok vs, σ)) :
    σ.KeepsOwnership ∧ (Session.empty.CopiesNoDiagnostic requests → σ.HasSoleOwners ∧
      ∀ (method : Builder.Method) m d v k, σ.get? m = some (.diagnostic d) → k ≠ m →
        σ.KeepsLists ((method.act (.object m) v).perform σ).2 k) := by
  have hrun := run_parts h Session.empty
  have hcalm := (Literal.isCalm_evalAll _ literals).perform_calm hσ
  obtain ⟨hlisted, hpasses⟩ := (hrun.trans hcalm.parts) isListed_empty
  refine ⟨hlisted.keepsOwnership, fun hcopies => ?_⟩
  have hsole : σ.HasSoleOwners := by
    refine (hpasses hcopies).hasSoleOwners ?_
    rintro k m l ⟨d, ⟨⟩, -⟩
  exact ⟨hsole, fun method m d v k hm hne => hsole.keepsLists hlisted hm method v hne⟩

/-- Requests that make a diagnostic with a label and give it another file. -/
def rebinding (file : Literal) : List (Request × Option String) :=
  [(.operation (.ofLevel .error), some "diagnostic"),
    (.operation (.primaryAnonymous (.tuple [.int 0, .int 1])), some "label"),
    (.operation (.withLabels (.reference "diagnostic" []) (.list [.reference "label" []])), none),
    (.operation (.withFile (.reference "diagnostic" []) file), some "rebound")]

theorem not_isAssignment_of_mem_rebinding (file : Literal) :
    ∀ request ∈ rebinding file, ¬ request.1.IsAssignment := by
  simp [rebinding, Request.IsAssignment, Operation.ofLevel, Operation.primaryAnonymous,
    Operation.primary]

theorem copiesNoDiagnostic_rebinding (s : String) :
    Session.empty.CopiesNoDiagnostic (rebinding (.text s)) := by
  refine ⟨trivial, trivial, trivial, fun v w τ ρ _ hw => ?_, trivial⟩
  cases hw
  exact fun _ _ => .inr nofun

/-- Both diagnostics keep their lists to themselves, and so they do when a list of labels has been made
for one of them. -/
theorem keepsOwnership_rebinding :
    let s := (Session.empty.run (rebinding (.text "main.rs"))).2
    let σ := (s.store.alloc (.list [.object 5])).2
    (Literal.evalAll s.names [.list [.reference "label" []]]).perform s.store =
        (.ok [.object 14], σ) ∧
      σ.HasList 2 0 ∧ σ.HasList 13 11 ∧ σ.KeepsOwnership ∧ σ.HasSoleOwners := by
  intro s σ
  have hread : (Literal.evalAll s.names [.list [.reference "label" []]]).perform s.store =
      (.ok [.object 14], σ) := rfl
  obtain ⟨hkeeps, hsole⟩ := keepsOwnership_of_run (not_isAssignment_of_mem_rebinding _) hread
  exact ⟨hread, ⟨_, rfl, .inl rfl⟩, ⟨_, rfl, .inl rfl⟩, hkeeps,
    (hsole (copiesNoDiagnostic_rebinding "main.rs")).1⟩

/-- A diagnostic that is given itself as the file of its labels is copied, and the copy has the same
lists. -/
theorem not_hasSoleOwners_of_copies : ¬ ∀ requests : List (Request × Option String),
    (∀ request ∈ requests, ¬ request.1.IsAssignment) →
      (Session.empty.run requests).2.store.HasSoleOwners := by
  intro h
  have hsame := h (rebinding (.reference "diagnostic" [])) (not_isAssignment_of_mem_rebinding _)
    2 7 0 ⟨_, rfl, .inl rfl⟩ ⟨_, rfl, .inl rfl⟩
  cases hsame

end Session

end Diagnostics
