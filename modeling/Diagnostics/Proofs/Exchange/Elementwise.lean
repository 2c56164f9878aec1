import Diagnostics.Proofs.Exchange.Parsed
import Diagnostics.Proofs.Json.Continued

/-!
# Reading a list is reading each item

Texts of single diagnostics, with commas between them and brackets around them, are the text of a
list of diagnostics, and reading that comes to what reading each of them comes to
(`loadAll_listText`): the list of what is read, or the first failure that is not about issues, or
the issues of all texts, each below the place of its text.
-/

namespace Diagnostics

/-- The limits for a text that is to stand in a list, which takes one level. -/
def Json.Limits.inList : Json.Limits := { Json.Limits.standard with depth := 199 }

namespace Outcome

/-- The failure of an outcome, if it is about something else than issues. -/
def escaped? (o : Outcome Value) : Option Failure :=
  match o.result with
  | .ok _ => none
  | .error (.invalid _ _) => none
  | .error e => some e

/-- The issues that an outcome fails with. -/
def issues (o : Outcome Value) : List Issue :=
  match o.result with
  | .error (.invalid _ is) => is
  | _ => []

/-- The issues of outcomes one after another, below their places; the first place is given. -/
def issuesFrom : (index : Nat) → List (Outcome Value) → List Issue
  | _, [] => []
  | i, o :: os => o.issues.map (Issue.under (.index i)) ++ issuesFrom (i + 1) os

/-- Whether an outcome is a diagnostic that shows some data, but for marks. -/
def Yields (o : Outcome Value) (d : Data) : Prop :=
  ∃ v d', o.result = .ok v ∧ o.store.view v = some d' ∧ d'.unmarked = d.unmarked

/-- How reading a diagnostic ends when a check of the same JSON, elsewhere, ends in some way. -/
inductive Follows (σ : Store) (o : Outcome Value) : Check (Draft DiagnosticDraft) → Prop where
  | valid {d : Draft DiagnosticDraft} {c : DiagnosticContent} (draft : c.IsDraft σ d)
    (yields : o.Yields c.data) : Follows σ o (.valid d)
  | invalid {is : List Issue} (result : o.result = .error (.invalid "Diagnostic" is)) :
    Follows σ o (.invalid is)
  | aborted {n : Nat} (result : o.result = .error (.notAPair n)) :
    Follows σ o (.aborted (.notAPair n))

/-- How a check of items ends when reading each of them ends in some way. -/
inductive Together (σ : Store) (os : List (Outcome Value)) (i : Nat) :
    Check (List (Draft DiagnosticDraft)) → Prop where
  | valid {ds : List (Draft DiagnosticDraft)} {cs : List DiagnosticContent}
    (drafts : List.Forall₂ (DiagnosticContent.IsDraft σ) cs ds)
    (yield : List.Forall₂ (fun o c => o.Yields c.data) os cs) : Together σ os i (.valid ds)
  | invalid {is : List Issue} (settled : os.findSome? escaped? = none)
    (failed : ∃ o ∈ os, ∀ v, o.result ≠ .ok v) (issues : issuesFrom i os = is) :
    Together σ os i (.invalid is)
  | aborted {e : Failure} (escaped : os.findSome? escaped? = some e) : Together σ os i (.aborted e)

variable {σ : Store} {o : Outcome Value} {os : List (Outcome Value)} {i : Nat}

theorem settled_of_ok {v : Value} (h : o.result = .ok v) : o.escaped? = none ∧ o.issues = [] := by
  simp only [escaped?, issues, h, and_self]

theorem Yields.settled {d : Data} (h : o.Yields d) : o.escaped? = none ∧ o.issues = [] := by
  obtain ⟨v, -, hv, -⟩ := h
  exact settled_of_ok hv

/-- Where all is read there is nothing else. -/
theorem settled_of_yield {cs : List DiagnosticContent}
    (h : List.Forall₂ (fun o c => o.Yields c.data) os cs) (i : Nat) :
    os.findSome? escaped? = none ∧ issuesFrom i os = [] ∧ ∀ o ∈ os, ∃ w, o.result = .ok w := by
  induction h generalizing i with
  | nil => exact ⟨rfl, rfl, List.forall_mem_nil _⟩
  | cons ho _ ih =>
    obtain ⟨hescaped, hissues⟩ := ho.settled
    obtain ⟨w, -, hw, -⟩ := ho
    obtain ⟨hsettled, hnone, hread⟩ := ih (i + 1)
    rw [List.findSome?_cons, hescaped, hsettled, issuesFrom, hissues, hnone]
    exact ⟨rfl, rfl, List.forall_mem_cons.2 ⟨⟨w, hw⟩, hread⟩⟩

/-- One more item in front. -/
theorem Follows.cons {c : Check (Draft DiagnosticDraft)} {c' : Check (List (Draft DiagnosticDraft))}
    (h : Follows σ o c) (h' : Together σ os (i + 1) c') :
    Together σ (o :: os) i (((c.under (.index i)).both c').map fun p => p.1 :: p.2) := by
  cases h with
  | valid draft yields =>
    obtain ⟨hescaped, hissues⟩ := yields.settled
    cases h' with
    | valid drafts yield => exact .valid (.cons draft drafts) (.cons yields yield)
    | invalid hsettled hfailed hmore =>
      obtain ⟨p, hp, hfail⟩ := hfailed
      refine .invalid ?_ ⟨p, List.mem_cons_of_mem o hp, hfail⟩ ?_
      · rw [List.findSome?_cons, hescaped, hsettled]
      · rw [issuesFrom, hissues, hmore]
        rfl
    | aborted hescape =>
      refine .aborted ?_
      rw [List.findSome?_cons, hescaped, hescape]
  | @invalid is hresult =>
    have hescaped : o.escaped? = none := by simp only [escaped?, hresult]
    have hissues : o.issues = is := by simp only [issues, hresult]
    have hfailed : ∃ p ∈ o :: os, ∀ v, p.result ≠ .ok v := by
      refine ⟨o, List.mem_cons_self, fun v hv => ?_⟩
      rw [hresult] at hv
      cases hv
    cases h' with
    | valid _ yield =>
      obtain ⟨hsettled, hnone, -⟩ := settled_of_yield yield (i + 1)
      refine .invalid ?_ hfailed ?_
      · rw [List.findSome?_cons, hescaped, hsettled]
      · rw [issuesFrom, hissues, hnone, List.append_nil]
    | invalid hsettled _ hmore =>
      refine .invalid ?_ hfailed ?_
      · rw [List.findSome?_cons, hescaped, hsettled]
      · rw [issuesFrom, hissues, hmore]
    | aborted hescape =>
      refine .aborted ?_
      rw [List.findSome?_cons, hescaped, hescape]
  | aborted hresult =>
    refine .aborted ?_
    simp only [List.findSome?_cons, escaped?, hresult]

section

variable {c : Check (List (Draft DiagnosticDraft))} (h : Together σ os i c)

include h

/-- A check of items is valid if all of them are read. -/
theorem Together.exists_valid_iff : (∃ ds, c = .valid ds) ↔ ∀ o ∈ os, ∃ w, o.result = .ok w := by
  cases h with
  | valid _ yield =>
    obtain ⟨-, -, hread⟩ := settled_of_yield yield i
    exact ⟨fun _ => hread, fun _ => ⟨_, rfl⟩⟩
  | invalid _ hfailed =>
    obtain ⟨o, ho, hfail⟩ := hfailed
    constructor
    · rintro ⟨_, ⟨⟩⟩
    · intro hread
      obtain ⟨w, hw⟩ := hread o ho
      exact absurd hw (hfail w)
  | aborted hescape =>
    obtain ⟨o, ho, hescaped⟩ := List.exists_of_findSome?_eq_some hescape
    constructor
    · rintro ⟨_, ⟨⟩⟩
    · intro hread
      obtain ⟨w, hw⟩ := hread o ho
      rw [(settled_of_ok hw).1] at hescaped
      cases hescaped

theorem Together.eq_aborted {e : Failure} (hescape : os.findSome? escaped? = some e) :
    c = .aborted e := by
  cases h with
  | valid _ yield =>
    rw [(settled_of_yield yield i).1] at hescape
    cases hescape
  | invalid hsettled =>
    rw [hsettled] at hescape
    cases hescape
  | aborted hfirst =>
    cases hfirst.symm.trans hescape
    rfl

theorem Together.eq_invalid (hsettled : os.findSome? escaped? = none)
    (hfailed : ∃ o ∈ os, ∀ w, o.result ≠ .ok w) : c = .invalid (issuesFrom i os) := by
  cases h with
  | valid _ yield =>
    obtain ⟨o, ho, hfail⟩ := hfailed
    obtain ⟨w, hw⟩ := (settled_of_yield yield i).2.2 o ho
    exact absurd hw (hfail w)
  | invalid _ _ hissues => rw [hissues]
  | aborted hescape =>
    rw [hsettled] at hescape
    cases hescape

end

/-- Items end together as each of them ends. -/
theorem Follows.each {check : Value → Check (Draft DiagnosticDraft)} {vs : List Value}
    (h : List.Forall₂ (fun v o => Follows σ o (check v)) vs os) (i : Nat) :
    Together σ os i (Check.each check i vs) := by
  induction h generalizing i with
  | nil => exact .valid .nil .nil
  | cons hv _ ih => exact hv.cons (ih (i + 1))

end Outcome

namespace Exchange

variable {σ : Store} {v : Value} {text : String} {j : Json}

/-- Reading a text, in whatever store, ends as a check of the JSON in it does. -/
theorem load_follows (hread : Json.read .standard text = .ok j) (hv : σ.Shows v j) (τ : Store) :
    (load (.text text) τ).Follows σ (Validation.diagnostic .json σ v) := by
  obtain ⟨-, hmade⟩ := ofJson_shows τ j
  have hagree := Validation.diagnostic_agrees .json .json hv hmade
  have hfailure := Validation.failure?_diagnostic .json hv
  generalize Validation.diagnostic .json σ v = left at hagree hfailure ⊢
  generalize hright : Validation.diagnostic .json (ofJson τ j).2 (ofJson τ j).1 = right at hagree
  cases hagree with
  | valid related =>
    obtain ⟨a, b, ha, hb, hsame⟩ := related
    obtain ⟨w, hw, hview⟩ := load_of_valid hread τ hright hb
    exact .valid ha ⟨w, _, hw, hview, hsame.symm⟩
  | @invalid is js issues =>
    -- for one source, issues that agree are the same
    obtain rfl : is = js := by
      rw [← List.forall₂_eq_eq_eq]
      exact issues.imp fun _ _ => Issue.Agree.eq
    exact .invalid (load_of_invalid hread τ hright)
  | aborted e =>
    obtain ⟨n, -, rfl⟩ := Option.map_eq_some_iff.1 hfailure.symm
    exact .aborted (load_of_aborted hread τ hright)

/-- A check of a list ends as reading the items does, each from a text of its own. -/
theorem listOf_together {texts : List String} {js : List Json} {os : List (Outcome Value)}
    (hv : σ.Shows v (.array js))
    (hread : List.Forall₂ (fun t j => Json.read .standard t = .ok j) texts js)
    (hos : List.Forall₂ (fun t o => ∃ τ, o = load (.text t) τ) texts os) :
    Outcome.Together σ os 0 (Validation.listOf .json (Validation.diagnostic .json) σ v) := by
  obtain ⟨l, vs, rfl, hl, hvs⟩ := hv.exists_list
  rw [Validation.listOf_of_list _ hl]
  refine Outcome.Follows.each ?_ 0
  clear hv hl
  induction hread generalizing vs os with
  | nil =>
    cases hos
    cases hvs
    exact .nil
  | cons ht _ ih =>
    rcases hos with _ | ⟨⟨τ, rfl⟩, hos⟩
    rcases hvs with _ | ⟨hshows, hvs⟩
    exact .cons (load_follows ht hshows τ) (ih hos _ hvs)

/-- **Lists of texts.** Reading the text of a list ends as reading the texts of its items does, each
in whatever store: with the list of what each of them shows, if all of them are read; with the first
failure that is not about issues, if there is one; and otherwise with the issues of all that fail,
in their order. -/
theorem loadAll_listText {texts : List String} {os : List (Outcome Value)}
    (hread : ∀ t ∈ texts, ∃ j, Json.read .inList t = .ok j)
    (hos : List.Forall₂ (fun t o => ∃ τ, o = load (.text t) τ) texts os) (σ : Store) :
    ((∃ v, (loadAll (.text (Json.listText texts)) σ).result = .ok v) ↔
        ∀ o ∈ os, ∃ w, o.result = .ok w) ∧
      (∀ v, (loadAll (.text (Json.listText texts)) σ).result = .ok v →
        ∃ ds, (loadAll (.text (Json.listText texts)) σ).store.view v = some (.list ds) ∧
          List.Forall₂ Outcome.Yields os ds) ∧
      (∀ e, os.findSome? Outcome.escaped? = some e →
        (loadAll (.text (Json.listText texts)) σ).result = .error e) ∧
      (os.findSome? Outcome.escaped? = none → (∃ o ∈ os, ∀ w, o.result ≠ .ok w) →
        (loadAll (.text (Json.listText texts)) σ).result =
          .error (.invalid "list[Diagnostic]" (Outcome.issuesFrom 0 os))) := by
  obtain ⟨js, hjs⟩ := exists_forall₂ hread
  have hlist : Json.read .standard (Json.listText texts) = .ok (.array js) :=
    Json.read_listText (by decide) (by decide) hjs
  have hwide : List.Forall₂ (fun t j => Json.read .standard t = .ok j) texts js :=
    hjs.imp fun _ _ => Json.read_of_le (by decide) (by decide)
  obtain ⟨-, hshows⟩ := ofJson_shows σ (.array js)
  have htogether := listOf_together hshows hwide hos
  rw [loadAll, checkText_of_read _ hlist]
  dsimp only
  generalize Validation.listOf .json (Validation.diagnostic .json) (ofJson σ (.array js)).2
    (ofJson σ (.array js)).1 = c at htogether ⊢
  refine ⟨?_, ?_, fun e he => ?_, fun hsettled hfailed => ?_⟩
  · rw [← htogether.exists_valid_iff]
    cases c with
    | valid => exact ⟨fun _ => ⟨_, rfl⟩, fun _ => ⟨_, rfl⟩⟩
    | _ => constructor <;> rintro ⟨_, ⟨⟩⟩
  · intro v hv
    cases htogether with
    | valid drafts yield =>
      obtain ⟨-, -, hview⟩ := Store.new_list_of_areDrafts drafts
      cases hv
      exact ⟨_, hview, List.forall₂_map_right_iff.2 yield⟩
    | _ => cases hv
  · rw [htogether.eq_aborted he]
  · rw [htogether.eq_invalid hsettled hfailed]
    rfl

/-- The text of a note. -/
def noteText : String := "\x7b\"severity\":\"note\"\x7d"

/-- Of a note, of a diagnostic without a level and of what is no diagnostic, the last two have
issues. -/
theorem loadAll_listText_mixed :
    (loadAll (.text (Json.listText [noteText, "\x7b\x7d", "7"])) .empty).result =
      .error (.invalid "list[Diagnostic]"
        [⟨[.index 1, .field "severity"], .missing⟩,
          ⟨[.index 2], .notARecord .json "Diagnostic"⟩]) := by
  have hread : ∀ t ∈ [noteText, "\x7b\x7d", "7"], ∃ j, Json.read .inList t = .ok j := by
    refine List.forall_mem_cons.2 ⟨⟨.object [("severity", .text "note")], by decide +kernel⟩, ?_⟩
    refine List.forall_mem_cons.2 ⟨⟨.object [], by decide +kernel⟩, ?_⟩
    exact List.forall_mem_singleton.2 ⟨.int 7, by decide +kernel⟩
  have hnote : (load (.text noteText) .empty).result = .ok (.object 3) := by decide +kernel
  have hempty : (load (.text "\x7b\x7d") .empty).result =
      .error (.invalid "Diagnostic" [⟨[.field "severity"], .missing⟩]) := by decide +kernel
  have hseven : (load (.text "7") .empty).result =
      .error (.invalid "Diagnostic" [⟨[], .notARecord .json "Diagnostic"⟩]) := by decide +kernel
  obtain ⟨-, -, -, hissues⟩ := loadAll_listText hread
    (.cons ⟨.empty, rfl⟩ (.cons ⟨.empty, rfl⟩ (.cons ⟨.empty, rfl⟩ .nil))) .empty
  rw [hissues]
  · simp only [Outcome.issuesFrom, Outcome.issues, hnote, hempty, hseven]
    rfl
  · simp only [List.findSome?_cons, Outcome.escaped?, hnote, hempty, hseven, List.findSome?_nil]
  · refine ⟨_, List.mem_cons_of_mem _ List.mem_cons_self, fun w hw => ?_⟩
    rw [hempty] at hw
    cases hw

end Exchange

end Diagnostics
