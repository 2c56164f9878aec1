import Diagnostics.Data.Order

/-!
# How texts, levels and styles compare

A level is compared with a level by rank, and with a text as the word that it is. A style is also a
word, but two styles are compared by rank only where the comparison excludes equality. A level and a
style have no order, although two of the four comparisons take them for words.

So the four comparisons of two texts, levels or styles describe one order, and agree with equality,
unless the two are different styles: the primary one is both greater than the secondary one, by
rank, and at most as great, by its word (`comparisons_cohere`).
-/

namespace Diagnostics

namespace Relation

/-- The comparison that says the same with its sides exchanged. -/
def converse : Relation → Relation
  | lt => gt
  | le => ge
  | gt => lt
  | ge => le

theorem holds_swap (r : Relation) (o : Ordering) : r.holds o.swap = r.converse.holds o := by
  cases r <;> cases o <;> rfl

@[simp] theorem converse_converse (r : Relation) : r.converse.converse = r := by
  cases r <;> rfl

end Relation

namespace Severity

theorem word_injective {x y : Severity} (h : x.word = y.word) : x = y :=
  Option.some.inj (by rw [← ofWord?_word x, h, ofWord?_word])

end Severity

namespace Data

variable {a b : Data} {s t : String}

/-! ## Operands as words -/

theorem equal_words (ha : a.asText? = some s) (hb : b.asText? = some t) :
    equal a b = (s == t) := by
  cases a <;> cases b <;> simp_all [equal, alike, alikePlain, asNumber?, asText?]

theorem relate_words (r : Relation) (ha : a.asText? = some s) (hb : b.asText? = some t) :
    relate r a b = relateText r a b s t := by
  cases a <;> cases b <;> simp_all [relate, relatePlain, asNumber?, asText?]

/-- Whether one of two operands is a level and the other a style. -/
def AreMixed (a b : Data) : Prop :=
  ∃ x y, a = severity x ∧ b = style y ∨ a = style y ∧ b = severity x

/-- Whether two operands are styles, and not the same one. -/
def AreUnlikeStyles (a b : Data) : Prop := ∃ x y, a = style x ∧ b = style y ∧ x ≠ y

theorem AreMixed.swap (h : AreMixed a b) : AreMixed b a := by
  obtain ⟨x, y, h⟩ := h
  exact ⟨x, y, h.symm.imp And.symm And.symm⟩

theorem AreUnlikeStyles.swap (h : AreUnlikeStyles a b) : AreUnlikeStyles b a := by
  obtain ⟨x, y, ha, hb, hne⟩ := h
  exact ⟨y, x, hb, ha, hne.symm⟩

/-- A level and a style cannot be compared strictly. -/
theorem AreMixed.relate_lt (h : AreMixed a b) : relate .lt a b = incomparable .lt a b := by
  obtain ⟨x, y, ⟨rfl, rfl⟩ | ⟨rfl, rfl⟩⟩ := h <;> rw [relate_words _ rfl rfl] <;> rfl

/-! ## The order of two operands -/

/-- The order of two operands: levels by their ranks, and all else by their words. -/
def wordOrder (a b : Data) (s t : String) : Ordering :=
  match a, b with
  | severity x, severity y => compare x.rank y.rank
  | _, _ => compare s t

theorem wordOrder_eq_compare (h : ∀ x y, a = severity x → b = severity y → False) :
    wordOrder a b s t = compare s t := by
  unfold wordOrder
  split
  · next x y => exact (h x y rfl rfl).elim
  · rfl

theorem wordOrder_swap (a b : Data) (s t : String) :
    wordOrder b a t s = (wordOrder a b s t).swap := by
  unfold wordOrder
  split
  · exact (Nat.compare_swap ..).symm
  · next h =>
    split
    · next x y => exact absurd rfl (h y x rfl)
    · exact Std.OrientedOrd.eq_swap

/-- Words are the same just where nothing puts one before the other. -/
theorem beq_eq_wordOrder (ha : a.asText? = some s) (hb : b.asText? = some t) :
    (s == t) = (wordOrder a b s t == .eq) := by
  rw [Bool.eq_iff_iff, beq_iff_eq, beq_iff_eq]
  unfold wordOrder
  split
  · next x y =>
    cases ha
    cases hb
    rw [Nat.compare_eq_eq]
    exact ⟨fun h => congrArg Severity.rank (Severity.word_injective h),
      fun h => congrArg Severity.word (Severity.rank_injective h)⟩
  · exact Std.LawfulEqOrd.compare_eq_iff_eq.symm

/-- **One order.** The comparisons of two operands describe one order, and so does equality, unless
the two are mixed or unlike styles. -/
theorem relate_eq_holds (r : Relation) (ha : a.asText? = some s) (hb : b.asText? = some t)
    (hmixed : ¬ AreMixed a b) (hunlike : ¬ AreUnlikeStyles a b) :
    relate r a b = .ok (r.holds (wordOrder a b s t)) := by
  rw [relate_words r ha hb]
  unfold relateText
  split
  · rfl
  · next x y =>
    obtain rfl : x = y := Decidable.byContradiction fun hne => hunlike ⟨x, y, rfl, rfl, hne⟩
    cases ha
    cases hb
    simp only [wordOrder, Std.ReflOrd.compare_self, ite_self]
  · next x y => exact absurd ⟨x, y, .inl ⟨rfl, rfl⟩⟩ hmixed
  · next y x => exact absurd ⟨x, y, .inr ⟨rfl, rfl⟩⟩ hmixed
  · next h _ _ _ => rw [wordOrder_eq_compare h]

/-- Two different styles compare by rank or, where the comparison admits equality, by their words,
which is the other way round. -/
theorem relate_unlike (r : Relation) {x y : LabelStyle} (hne : x ≠ y) :
    relate r (style x) (style y) =
      .ok (r.holds (if r.isStrict then compare x.rank y.rank else compare y.rank x.rank)) := by
  have hwords : compare x.word y.word = compare y.rank x.rank := by
    cases x <;> cases y <;> first | contradiction | decide
  rw [relate_words r rfl rfl, relateText, hwords]

/-- A comparison says the same with its sides exchanged. -/
theorem relate_converse (r : Relation) (ha : a.asText? = some s) (hb : b.asText? = some t)
    (hmixed : ¬ AreMixed a b) : relate r.converse b a = relate r a b := by
  by_cases hunlike : AreUnlikeStyles a b
  · obtain ⟨x, y, rfl, rfl, hne⟩ := hunlike
    rw [relate_unlike _ hne, relate_unlike _ hne.symm]
    cases r <;> simp only [Relation.converse, Relation.isStrict, if_true, Bool.false_eq_true,
      if_false, ← Nat.compare_swap x.rank, Relation.holds_swap]
  · rw [relate_eq_holds r ha hb hmixed hunlike, relate_eq_holds _ hb ha (hmixed ∘ AreMixed.swap)
      (hunlike ∘ AreUnlikeStyles.swap), wordOrder_swap, Relation.holds_swap,
      Relation.converse_converse]

/-! ## Coherence -/

/-- **Coherence of comparisons.** All four comparisons of two texts, levels or styles give an answer
unless one is a level and the other a style. Of `<`, `=` and `>` exactly one then holds, and every
comparison says the same with its sides exchanged. Unless the two are different styles, `≤` is `<`
or `=`, and `≥` is `>` or `=`. But of different styles `≤` says what `>` says, and `≥` what `<`
says. -/
theorem comparisons_cohere (ha : a.asText? = some s) (hb : b.asText? = some t) :
    ((∃ answer : Relation → Bool, ∀ r, relate r a b = .ok (answer r)) ↔ ¬ AreMixed a b) ∧
    ∀ answer : Relation → Bool, (∀ r, relate r a b = .ok (answer r)) →
      [answer .lt, equal a b, answer .gt].count true = 1 ∧
      (∀ r, relate r.converse b a = .ok (answer r)) ∧
      ((answer .le = (answer .lt || equal a b) ∧ answer .ge = (answer .gt || equal a b)) ↔
        ¬ AreUnlikeStyles a b) ∧
      (AreUnlikeStyles a b → answer .le = answer .gt ∧ answer .ge = answer .lt) := by
  have hmixed : (∃ answer : Relation → Bool, ∀ r, relate r a b = .ok (answer r)) →
      ¬ AreMixed a b := by
    rintro ⟨answer, h⟩ hmixed
    have hlt := h .lt
    rw [hmixed.relate_lt] at hlt
    cases hlt
  refine ⟨⟨hmixed, fun hmixed => ?_⟩, fun answer h => ?_⟩
  · by_cases hunlike : AreUnlikeStyles a b
    · obtain ⟨x, y, rfl, rfl, hne⟩ := hunlike
      exact ⟨_, fun r => relate_unlike r hne⟩
    · exact ⟨_, fun r => relate_eq_holds r ha hb hmixed hunlike⟩
  · have hmixed := hmixed ⟨answer, h⟩
    have hconverse : ∀ r, relate r.converse b a = .ok (answer r) := fun r =>
      (relate_converse r ha hb hmixed).trans (h r)
    rw [equal_words ha hb]
    by_cases hunlike : AreUnlikeStyles a b
    · obtain ⟨x, y, rfl, rfl, hne⟩ := id hunlike
      cases ha
      cases hb
      have hanswer := fun r => Except.ok.inj ((h r).symm.trans (relate_unlike r hne))
      refine ⟨?_, hconverse, iff_of_false ?_ (not_not_intro hunlike), fun _ => ?_⟩ <;>
        simp only [hanswer] <;> revert hne <;> cases x <;> cases y <;> decide
    · have hanswer := fun r =>
        Except.ok.inj ((h r).symm.trans (relate_eq_holds r ha hb hmixed hunlike))
      refine ⟨?_, hconverse, iff_of_true ?_ hunlike, fun h => absurd h hunlike⟩ <;>
        simp only [hanswer, beq_eq_wordOrder ha hb] <;> cases wordOrder a b s t <;> decide

/-- The primary style is greater than the secondary one and also at most as great. -/
theorem comparisons_cohere_styles : ∃ answer : Relation → Bool,
    (∀ r, relate r (style .primary) (style .secondary) = .ok (answer r)) ∧
    [answer .lt, equal (style .primary) (style .secondary), answer .gt].count true = 1 ∧
    answer .gt = true ∧ answer .le = true ∧
    ¬ (answer .le = (answer .lt || equal (style .primary) (style .secondary)) ∧
      answer .ge = (answer .gt || equal (style .primary) (style .secondary))) := by
  have hunlike : AreUnlikeStyles (style .primary) (style .secondary) := ⟨_, _, rfl, rfl, nofun⟩
  obtain ⟨hanswers, hcohere⟩ :=
    comparisons_cohere (a := style .primary) (b := style .secondary) rfl rfl
  obtain ⟨answer, h⟩ := hanswers.2 (by rintro ⟨x, y, ⟨h, -⟩ | ⟨-, h⟩⟩ <;> cases h)
  obtain ⟨hone, -, hweak, hturned⟩ := hcohere answer h
  have hgt : answer .gt = true := Except.ok.inj ((h .gt).symm.trans (relate_unlike .gt nofun))
  exact ⟨answer, h, hone, hgt, (hturned hunlike).1.trans hgt, fun hboth => hweak.1 hboth hunlike⟩

end Data

end Diagnostics
