import Diagnostics.Proofs.Json.Texts
import Diagnostics.Proofs.Outline.Bare
import Mathlib.Tactic.SplitIfs

/-!
# Quoted texts in an outline

A quoted text is kept as it is when blanks are left out around it (`Quoted.bare_text`), and it is
told apart from every other one, whatever is written behind the two (`Quoted.text_append_inj`): each
character can be read from the way it is written (`unescape_escape`), and none is written in a way
that begins with the mark that ends the text.
-/

namespace Diagnostics.Quoted

open Outline

variable {shown : Char → Bool} {mark : Char}

/-! ## What is left of a quoted text -/

/-- Between marks a text is kept as it is, if it holds neither the mark nor a backslash. -/
theorem strip_plain {cs : List Char} (h : ∀ c ∈ cs, c ≠ mark ∧ c ≠ '\\') :
    strip (.quoted mark) cs = (cs, .quoted mark) := by
  induction cs with
  | nil => rfl
  | cons c cs ih =>
    obtain ⟨⟨hmark, hbackslash⟩, hcs⟩ := List.forall_mem_cons.1 h
    rw [strip, Place.next, if_neg hmark, if_neg hbackslash, ih hcs]
    rfl

/-- Whether a character is one of the two marks. -/
def IsMark (c : Char) : Prop := c = apostrophe ∨ c = doubleQuote

theorem isMark_delimiter (cs : List Char) : IsMark (delimiter cs) := by
  rw [delimiter]
  split
  · exact .inr rfl
  · exact .inl rfl

theorem ne_backslash (hmark : IsMark mark) : mark ≠ '\\' := by
  obtain rfl | rfl := hmark <;> decide

theorem hexDigit_ne (hmark : IsMark mark) {d : Nat} (hd : d < 16) :
    hexDigit d ≠ mark ∧ hexDigit d ≠ '\\' := by
  have hall : ∀ d < 16, hexDigit d ≠ apostrophe ∧ hexDigit d ≠ doubleQuote ∧ hexDigit d ≠ '\\' := by
    decide
  obtain ⟨h₁, h₂, h₃⟩ := hall d hd
  obtain rfl | rfl := hmark
  · exact ⟨h₁, h₃⟩
  · exact ⟨h₂, h₃⟩

/-- Hexadecimal digits are not blank and end no quote. -/
theorem strip_hex (hmark : IsMark mark) (width n : Nat) :
    strip (.quoted mark) (hex width n) = (hex width n, .quoted mark) := by
  refine strip_plain ?_
  induction width generalizing n with
  | zero => exact fun c hc => absurd hc List.not_mem_nil
  | succ width ih =>
    rw [hex, List.forall_mem_append]
    exact ⟨ih _, List.forall_mem_singleton.2 (hexDigit_ne hmark (Nat.mod_lt n (by decide)))⟩

/-- An escaped character is kept as it is, and what follows stands between the marks. -/
theorem strip_escape (hmark : IsMark mark) (c : Char) :
    strip (.quoted mark) (escape shown mark c) = (escape shown mark c, .quoted mark) := by
  have hescaped (d : Char) {cs : List Char} (hcs : strip (.quoted mark) cs = (cs, .quoted mark)) :
      strip (.quoted mark) ('\\' :: d :: cs) = ('\\' :: d :: cs, .quoted mark) := by
    rw [strip, Place.next, if_neg (ne_backslash hmark).symm, if_pos rfl, strip, Place.next, hcs]
    rfl
  rw [escape]
  split_ifs with h
  · exact hescaped c rfl
  · exact hescaped 'n' rfl
  · exact hescaped 'r' rfl
  · exact hescaped 't' rfl
  · rw [not_or] at h
    exact strip_plain (List.forall_mem_singleton.2 h)
  · rw [byCode]
    split_ifs
    · exact hescaped 'x' (strip_hex hmark 2 _)
    · exact hescaped 'u' (strip_hex hmark 4 _)
    · exact hescaped 'U' (strip_hex hmark 8 _)

/-- An escaped text stays within its quotes. -/
theorem strip_escapes (hmark : IsMark mark) (cs : List Char) :
    strip (.quoted mark) (cs.flatMap (escape shown mark)) =
      (cs.flatMap (escape shown mark), .quoted mark) := by
  induction cs with
  | nil => rfl
  | cons c cs ih => rw [List.flatMap_cons, strip_append, strip_escape hmark, ih]

/-- A quoted text is kept as it is. -/
theorem bare_text (s : String) : Bare (text s) (text s) := by
  have hmark := isMark_delimiter s.toList
  rw [text, between]
  generalize delimiter s.toList = mark at hmark
  have hopens : Place.outside.next mark = .quoted mark := if_pos hmark
  have hkept : Place.outside.drops mark = false := by obtain rfl | rfl := hmark <;> rfl
  have hcloses : strip (.quoted mark) [mark] = ([mark], .outside) := by
    rw [strip, Place.next, if_pos rfl]
    rfl
  rw [Bare, strip, hopens, strip_append, strip_escapes hmark, hcloses, hkept]
  rfl

/-! ## Quoted texts told apart -/

/-- The character with a code in so many hexadecimal digits. -/
def decode (width : Nat) (cs : List Char) : Option (Char × List Char) :=
  (Json.hexDigits width 0 cs).toOption.map fun p => (Char.ofNat p.1, p.2)

/-- A character read from the way it is written between marks. -/
def unescape : List Char → Option (Char × List Char)
  | [] => none
  | c :: cs =>
    if c = '\\' then
      match cs with
      | [] => none
      | 'n' :: rest => some ('\n', rest)
      | 'r' :: rest => some ('\r', rest)
      | 't' :: rest => some ('\t', rest)
      | 'x' :: rest => decode 2 rest
      | 'u' :: rest => decode 4 rest
      | 'U' :: rest => decode 8 rest
      | d :: rest => some (d, rest)
    else
      some (c, cs)

/-- What was escaped by its code is decoded from it. -/
theorem decode_hex {width : Nat} {c : Char} (h : c.toNat < 16 ^ width) (rest : List Char) :
    decode width (hex width c.toNat ++ rest) = some (c, rest) := by
  rw [decode, Json.hexDigits_hex, Nat.mod_eq_of_lt h, Nat.mul_zero, Nat.zero_add]
  simp only [Except.toOption, Option.map_some, Char.ofNat_toNat]

/-- A character is read from the way it is written. -/
theorem unescape_escape (hmark : IsMark mark) (c : Char) (rest : List Char) :
    unescape (escape shown mark c ++ rest) = some (c, rest) := by
  rw [escape]
  split_ifs with h hn hr ht
  · obtain rfl | rfl := h
    · obtain rfl | rfl := hmark <;> rfl
    · rfl
  · rw [hn]; rfl
  · rw [hr]; rfl
  · rw [ht]; rfl
  · rw [not_or] at h
    exact if_neg h.2
  · rw [byCode]
    split_ifs with hx hu
    · exact decode_hex (Nat.lt_succ_of_le hx) rest
    · exact decode_hex (Nat.lt_succ_of_le hu) rest
    · exact decode_hex (Nat.lt_trans (Json.toNat_lt c) (by decide)) rest

/-- No character is written in a way that begins with the mark. -/
theorem escape_append_ne (hmark : IsMark mark) (c : Char) (xs ys : List Char) :
    escape shown mark c ++ xs ≠ mark :: ys := by
  intro h
  -- the character would have to be the mark itself, and that one is behind a backslash
  have hmarked : unescape (mark :: ys) = some (mark, ys) := if_neg (ne_backslash hmark)
  rw [← h, unescape_escape hmark] at hmarked
  obtain ⟨rfl, -⟩ := Prod.mk.inj (Option.some.inj hmarked)
  rw [escape, if_pos (.inl rfl)] at h
  exact ne_backslash hmark (List.head_eq_of_cons_eq h).symm

/-- Two escaped texts up to the mark are the same text, with the same behind it. -/
theorem escapes_append_inj (hmark : IsMark mark) {cs ds r s : List Char}
    (h : cs.flatMap (escape shown mark) ++ mark :: r =
      ds.flatMap (escape shown mark) ++ mark :: s) : cs = ds ∧ r = s := by
  induction cs generalizing ds with
  | nil =>
    cases ds with
    | nil => exact ⟨rfl, List.tail_eq_of_cons_eq h⟩
    | cons d ds =>
      rw [List.flatMap_cons, List.append_assoc] at h
      exact absurd h.symm (escape_append_ne hmark d _ _)
  | cons c cs ih =>
    cases ds with
    | nil =>
      rw [List.flatMap_cons, List.append_assoc] at h
      exact absurd h (escape_append_ne hmark c _ _)
    | cons d ds =>
      rw [List.flatMap_cons, List.append_assoc, List.flatMap_cons, List.append_assoc] at h
      have hread := congrArg unescape h
      rw [unescape_escape hmark, unescape_escape hmark] at hread
      obtain ⟨rfl, hrest⟩ := Prod.mk.inj (Option.some.inj hread)
      obtain ⟨rfl, rfl⟩ := ih hrest
      exact ⟨rfl, rfl⟩

/-- **Quoted texts.** Different texts are quoted differently, whatever stands behind them. -/
theorem text_append_inj {a b : String} {r s : List Char} (h : text a ++ r = text b ++ s) :
    a = b ∧ r = s := by
  rw [text, text, between, between] at h
  simp only [List.cons_append, List.append_assoc, List.nil_append] at h
  obtain ⟨hmark, h⟩ := List.cons.inj h
  rw [← hmark] at h
  obtain ⟨hchars, hrest⟩ := escapes_append_inj (isMark_delimiter a.toList) h
  exact ⟨String.toList_inj.1 hchars, hrest⟩

end Diagnostics.Quoted
