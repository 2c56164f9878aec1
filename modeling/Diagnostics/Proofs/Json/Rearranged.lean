import Diagnostics.Proofs.Json.Members
import Diagnostics.Proofs.Json.Similar
import Diagnostics.Proofs.Store.View

/-!
# Texts with their keys rearranged

The members of an object may be put in another order, and members that nobody looks for may be added
anywhere among them (`Rearranged`). A text may be edited so in every object in which keys are looked
for, as the shape of its data says (`Edited`). An edited text is read if and only if the text is,
and as a similar value (`Edited.carries`).
-/

namespace Diagnostics.Json

variable {α β γ δ : Type} {e : Encoding} {limits : Limits} {depth : Nat} {known : List String}
  {field : String → Shape} {R : String → List Char → List Char → Prop}
  {ms kept added ms' : List (Member e)} {es fs ks : List (String × Json)} {x y : List Char}

/-! ## Edits -/

/-- How the members of an object become those of another: their values are edited, members are added
that nobody looks for, and all are put in any order, in which members with one name that is looked
for stay in theirs. -/
structure Rearranged (limits : Limits) (depth : Nat) (known : List String)
    (R : String → List Char → List Char → Prop) (ms kept added ms' : List (Member e)) : Prop where
  edited : List.Forall₂ (fun m m' => m.name = m'.name ∧ R m.name m.value m'.value) ms kept
  unknown : ∀ m ∈ added, m.name ∉ known ∧ ∃ j, ReadsWithin e limits depth m.value j
  perm : ms'.Perm (kept ++ added)
  stable : ∀ name ∈ known, ms'.filter (·.name = name) = kept.filter (·.name = name)

/-- Whether a text becomes another one by edits where keys are looked for. -/
def Edited (e : Encoding) (limits : Limits) : Shape → (depth : Nat) → List Char → List Char → Prop
  | .leaf, _, x, y => x = y
  | .items s, depth, x, y =>
    x = y ∨ ∃ xs ys, Enclosed '[' ']' xs x ∧ Enclosed '[' ']' ys y ∧
      (∀ t ∈ xs, ∃ j, Spells e t j) ∧ (∀ t ∈ ys, ∃ j, Spells e t j) ∧
        List.Forall₂ (Edited e limits s (depth - 1)) xs ys
  | .record known field, depth, x, y =>
    x = y ∨ ∃ ms kept added ms' : List (Member e),
      Enclosed '\x7b' '}' (ms.map Member.spelling) x ∧
        Enclosed '\x7b' '}' (ms'.map Member.spelling) y ∧
          Rearranged limits depth known
            (fun name => Edited e limits (field name) (depth - 1)) ms kept added ms'

theorem Edited.refl (limits : Limits) (s : Shape) (depth : Nat) (x : List Char) :
    Edited e limits s depth x x := by
  cases s with
  | leaf => exact Eq.refl x
  | items s => exact .inl rfl
  | record known field => exact .inl rfl

/-- Members with different names may be put in any order. -/
theorem Rearranged.of_distinct (kept added : List (Member e))
    (hedited : List.Forall₂ (fun m m' => m.name = m'.name ∧ R m.name m.value m'.value) ms kept)
    (hunknown : ∀ m ∈ added, m.name ∉ known ∧ ∃ j, ReadsWithin e limits depth m.value j)
    (hperm : ms'.Perm (kept ++ added)) (hdistinct : kept.Pairwise (·.name ≠ ·.name)) :
    Rearranged limits depth known R ms kept added ms' := by
  refine ⟨hedited, hunknown, hperm, fun name hname => ?_⟩
  have hnone : added.filter (·.name = name) = [] := by
    refine List.filter_eq_nil_iff.2 fun m hm hmname => ?_
    exact (hunknown m hm).1 (of_decide_eq_true hmname ▸ hname)
  have hfilter := hperm.filter (·.name = name)
  rw [List.filter_append, hnone, List.append_nil] at hfilter
  -- at most one member has the name
  rcases hkept : kept.filter (·.name = name) with _ | ⟨m, _ | ⟨m', rest⟩⟩
  · rw [hkept] at hfilter ⊢
    exact hfilter.eq_nil
  · rw [hkept] at hfilter ⊢
    exact List.perm_singleton.1 hfilter
  · have hpairwise := hdistinct.filter (·.name = name)
    have hall : ∀ m ∈ kept.filter (·.name = name), m.name = name := fun m hm =>
      of_decide_eq_true (List.mem_filter.1 hm).2
    rw [hkept] at hpairwise hall
    have hm := hall m List.mem_cons_self
    have hm' := hall m' (List.mem_cons_of_mem _ List.mem_cons_self)
    exact absurd (hm.trans hm'.symm) (List.rel_of_pairwise_cons hpairwise List.mem_cons_self)

/-! ## Reading edited texts -/

/-- Whether a text is read if and only if another one is, and as a similar value. -/
structure Carries (e : Encoding) (limits : Limits) (depth : Nat) (s : Shape) (x y : List Char) :
    Prop where
  similar : ∀ i, Reads e limits depth x i → ∃ j, Reads e limits depth y j ∧ Similar s i j
  back : ∀ j, Reads e limits depth y j → ∃ i, Reads e limits depth x i

theorem Carries.refl (e : Encoding) (limits : Limits) (depth : Nat) (s : Shape) (x : List Char) :
    Carries e limits depth s x x :=
  ⟨fun i hi => ⟨i, hi, .refl s i⟩, fun j hj => ⟨j, hj⟩⟩

/-- What holds of items and of items that replace them holds of lists. -/
theorem exists_forall₂_of_forall₂ {S : α → β → Prop} {P : α → γ → Prop} {Q : β → δ → Prop}
    {T : γ → δ → Prop} {as : List α} {bs : List β} {cs : List γ} (h : List.Forall₂ S as bs)
    (hstep : ∀ a b c, S a b → P a c → ∃ d, Q b d ∧ T c d) (hP : List.Forall₂ P as cs) :
    ∃ ds, List.Forall₂ Q bs ds ∧ List.Forall₂ T cs ds := by
  induction h generalizing cs with
  | nil =>
    cases hP
    exact ⟨[], .nil, .nil⟩
  | cons hab _ ih =>
    cases hP with
    | cons hac hP =>
      obtain ⟨d, hd, hcd⟩ := hstep _ _ _ hab hac
      obtain ⟨ds, hds, hcds⟩ := ih hP
      exact ⟨d :: ds, .cons hd hds, .cons hcd hcds⟩

namespace Carries

variable {s : Shape}

/-- Texts that are read alike are so one level deeper. -/
theorem within (h : Carries e limits (depth - 1) s x y) {i : Json}
    (hi : ReadsWithin e limits depth x i) : ∃ j, ReadsWithin e limits depth y j ∧ Similar s i j := by
  obtain ⟨j, hj, hij⟩ := h.similar i hi.2
  exact ⟨j, ⟨hi.1, hj⟩, hij⟩

theorem within_back (h : Carries e limits (depth - 1) s x y) {j : Json}
    (hj : ReadsWithin e limits depth y j) : ∃ i, ReadsWithin e limits depth x i := by
  obtain ⟨i, hi⟩ := h.back j hj.2
  exact ⟨i, hj.1, hi⟩

end Carries

/-- Entries with the same key and similar values. -/
def SimilarEntries (field : String → Shape) (a b : String × Json) : Prop :=
  a.1 = b.1 ∧ Similar (field a.1) a.2 b.2

/-- Of similar entries, those with one key are similar. -/
theorem filter_similar (h : List.Forall₂ (SimilarEntries field) es fs) (name : String) :
    List.Forall₂ (fun a b => Similar (field name) a.2 b.2) (es.filter (·.1 = name))
      (fs.filter (·.1 = name)) := by
  induction h with
  | nil => exact .nil
  | @cons a b es fs hab _ ih =>
    obtain ⟨hkey, hvalue⟩ := hab
    by_cases hname : a.1 = name
    · have hname' : b.1 = name := hkey ▸ hname
      rw [hname] at hvalue
      simpa [hname, hname'] using ⟨hvalue, ih⟩
    · have hname' : b.1 ≠ name := hkey ▸ hname
      simpa [hname, hname'] using ih

/-- Of lists with related items the last items are related. -/
theorem getLast?_rel {T : γ → δ → Prop} {cs : List γ} {ds : List δ} (h : List.Forall₂ T cs ds) :
    Option.Rel T cs.getLast? ds.getLast? := by
  have hrev := List.rel_reverse h
  rw [← List.head?_reverse, ← List.head?_reverse]
  generalize cs.reverse = left at hrev ⊢
  generalize ds.reverse = right at hrev ⊢
  cases hrev with
  | nil => exact .none
  | cons hcd _ => exact .some hcd

theorem lookup_table_similar {name : String}
    (h : List.Forall₂ (fun a b => Similar (field name) a.2 b.2) (es.filter (·.1 = name))
      (fs.filter (·.1 = name))) :
    Option.Rel (Similar (field name)) ((table es).lookup name) ((table fs).lookup name) := by
  rw [lookup_table, lookup_table]
  have hlast := getLast?_rel h
  generalize (es.filter (·.1 = name)).getLast? = left at hlast ⊢
  generalize (fs.filter (·.1 = name)).getLast? = right at hlast ⊢
  cases hlast with
  | none => exact .none
  | some hab => exact .some hab

/-- Entries with one key are the members with one name. -/
theorem filter_reads (h : List.Forall₂ (Member.Reads limits depth) ms es) (name : String) :
    List.Forall₂ (Member.Reads limits depth) (ms.filter (·.name = name))
      (es.filter (·.1 = name)) := by
  refine List.rel_filter (fun m x hmx => ?_) h
  simp only [hmx.1]

theorem Member.Reads.eq {m : Member e} {a b : String × Json} (ha : m.Reads limits depth a)
    (hb : m.Reads limits depth b) : a = b :=
  Prod.ext (ha.1.symm.trans hb.1) (ha.2.eq hb.2)

section Members

variable (hcarries : ∀ name x y, R name x y → Carries e limits (depth - 1) (field name) x y)

include hcarries

/-- Rearranged members are read if the members are, and under the keys that are looked for as
similar values. -/
theorem Rearranged.reads (h : Rearranged limits depth known R ms kept added ms')
    (hes : List.Forall₂ (Member.Reads limits depth) ms es) :
    ∃ fs, List.Forall₂ (Member.Reads limits depth) ms' fs ∧ ∀ name ∈ known,
      Option.Rel (Similar (field name)) ((table es).lookup name) ((table fs).lookup name) := by
  have hkept : ∃ ks, List.Forall₂ (Member.Reads limits depth) kept ks ∧
      List.Forall₂ (SimilarEntries field) es ks := by
    refine exists_forall₂_of_forall₂ h.edited ?_ hes
    rintro m m' ⟨name, i⟩ ⟨hname, hvalue⟩ ⟨rfl, hi⟩
    obtain ⟨j, hj, hij⟩ := (hcarries _ _ _ hvalue).within hi
    exact ⟨(m.name, j), ⟨hname.symm, hj⟩, rfl, hij⟩
  obtain ⟨ks, hks, hsimilar⟩ := hkept
  have hall (m : Member e) (hm : m ∈ ms') : ∃ a, m.Reads limits depth a := by
    rcases List.mem_append.1 (h.perm.mem_iff.1 hm) with hm | hm
    · obtain ⟨a, -, ha⟩ := exists_of_mem_left hks hm
      exact ⟨a, ha⟩
    · obtain ⟨-, j, hj⟩ := h.unknown m hm
      exact ⟨(m.name, j), rfl, hj⟩
  obtain ⟨fs, hfs⟩ := exists_forall₂ hall
  refine ⟨fs, hfs, fun name hname => lookup_table_similar ?_⟩
  have hfilter := filter_reads hfs name
  rw [h.stable name hname] at hfilter
  have hunique : Relator.RightUnique (Member.Reads (e := e) limits depth) :=
    fun _ _ _ => Member.Reads.eq
  rw [List.right_unique_forall₂' hunique hfilter (filter_reads hks name)]
  exact filter_similar hsimilar name

/-- Members are read if they are after they have been rearranged. -/
theorem Rearranged.reads_back (h : Rearranged limits depth known R ms kept added ms')
    (hfs : List.Forall₂ (Member.Reads limits depth) ms' fs) :
    ∃ es, List.Forall₂ (Member.Reads limits depth) ms es := by
  refine exists_forall₂ fun m hm => ?_
  obtain ⟨m', hm', hname, hvalue⟩ := exists_of_mem_left h.edited hm
  obtain ⟨a, -, ha⟩ := exists_of_mem_left hfs (h.perm.mem_iff.2 (List.mem_append_left _ hm'))
  obtain ⟨i, hi⟩ := (hcarries _ _ _ hvalue).within_back ha.2
  exact ⟨(m.name, i), rfl, hi⟩

end Members

/-- **Edits.** An edited text is read if and only if the text is, and as a similar value. -/
theorem Edited.carries {s : Shape} (h : Edited e limits s depth x y) :
    Carries e limits depth s x y := by
  -- what is edited in a text are the texts in it one level deeper
  induction s generalizing depth x y with
  | leaf =>
    obtain rfl : x = y := h
    exact .refl ..
  | items s ih =>
    obtain rfl | ⟨xs, ys, hx, hy, hxs, hys, hedited⟩ := h
    · exact .refl ..
    · constructor
      · intro i hi
        obtain ⟨is, rfl, his⟩ := (reads_array_iff hx hxs).1 hi
        obtain ⟨js, hjs, hsimilar⟩ := exists_forall₂_of_forall₂ hedited
          (fun _ _ _ hab ha => (ih hab).within ha) his
        exact ⟨.array js, (reads_array_iff hy hys).2 ⟨js, rfl, hjs⟩, hsimilar⟩
      · intro j hj
        obtain ⟨js, rfl, hjs⟩ := (reads_array_iff hy hys).1 hj
        have his : ∃ is, List.Forall₂ (ReadsWithin e limits depth) xs is := by
          refine exists_forall₂ fun a ha => ?_
          obtain ⟨b, hb, hab⟩ := exists_of_mem_left hedited ha
          obtain ⟨j, -, hj⟩ := exists_of_mem_left hjs hb
          exact (ih hab).within_back hj
        obtain ⟨is, his⟩ := his
        exact ⟨.array is, (reads_array_iff hx hxs).2 ⟨is, rfl, his⟩⟩
  | record known field ih =>
    obtain rfl | ⟨ms, kept, added, ms', hx, hy, hrearranged⟩ := h
    · exact .refl ..
    · have hcarries := fun name x y (h : Edited e limits (field name) (depth - 1) x y) =>
        ih name h
      constructor
      · intro i hi
        obtain ⟨es, rfl, hes⟩ := (reads_object_iff hx).1 hi
        obtain ⟨fs, hfs, hsimilar⟩ := hrearranged.reads hcarries hes
        exact ⟨.object (table fs), (reads_object_iff hy).2 ⟨fs, rfl, hfs⟩, hsimilar⟩
      · intro j hj
        obtain ⟨fs, rfl, hfs⟩ := (reads_object_iff hy).1 hj
        obtain ⟨es, hes⟩ := hrearranged.reads_back hcarries hfs
        exact ⟨.object (table es), (reads_object_iff hx).2 ⟨es, rfl, hes⟩⟩

end Diagnostics.Json
