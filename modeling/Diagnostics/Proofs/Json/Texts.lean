import Mathlib.Algebra.Group.Nat.Defs
import Diagnostics.Json.Reader
import Diagnostics.Json.Writer

/-!
# Texts are read as they were written

A text is written between quotes with some of its characters escaped: by a letter, by a code of
four hexadecimal digits, or by a pair of codes. Reading goes through the characters one by one and
undoes each escape on its own (`Spelled.textBody`), so a text is read back whatever is written
behind it and whether or not only ASCII is written as it is (`quoted_text`).
-/

namespace Diagnostics.Json

/-! ## Codes of four digits -/

theorem hexValue?_hexDigit : ∀ d, d < 16 → hexValue? (Quoted.hexDigit d) = some d := by decide

theorem utf8Size_hexDigit : ∀ d, d < 16 → (Quoted.hexDigit d).utf8Size = 1 := by decide

/-- The last of several digits is read after the others. -/
theorem hexDigits_succ (count n : Nat) (cs : List Char) :
    hexDigits (count + 1) n cs = (hexDigits count n cs).bind fun p => hexDigits 1 p.1 p.2 := by
  induction count generalizing n cs with
  | zero => rfl
  | succ count ih =>
    rcases cs with _ | ⟨c, cs⟩
    · rfl
    · rw [hexDigits, hexDigits]
      cases hexValue? c with
      | none => rfl
      | some d => exact ih (16 * n + d) cs

/-- Hexadecimal digits continue the number that is already read. -/
theorem hexDigits_hex (width m n : Nat) (rest : List Char) :
    hexDigits width m (Quoted.hex width n ++ rest) =
      .ok (16 ^ width * m + n % 16 ^ width, rest) := by
  induction width generalizing n rest with
  | zero => simp [hexDigits, Quoted.hex, Nat.mod_one]
  | succ width ih =>
    have hd : hexValue? (Quoted.hexDigit (n % 16)) = some (n % 16) :=
      hexValue?_hexDigit _ (Nat.mod_lt _ (by decide))
    rw [hexDigits_succ, Quoted.hex, List.append_assoc, ih]
    simp only [Except.bind, List.cons_append, List.nil_append, hexDigits, hd]
    rw [Nat.pow_succ, Nat.mul_comm (16 ^ width) 16, Nat.mod_mul, Nat.mul_assoc]
    congr 2
    omega

/-- A code in four digits is read back. -/
theorem code_hex {n : Nat} (h : n < 0x10000) (rest : List Char) :
    code .characters (Quoted.hex 4 n ++ rest) = .ok (n, rest) := by
  have hsize : Encoding.characters.size ((Quoted.hex 4 n ++ rest).take 4) = 4 := by
    have hlt : ∀ k, k % 16 < 16 := fun k => Nat.mod_lt k (by decide)
    simp [Quoted.hex, Encoding.size, Encoding.characters, utf8Size_hexDigit, hlt]
  rw [code, hsize, if_neg (by decide), hexDigits_hex]
  simp only [Nat.reducePow, Nat.mul_zero, Nat.zero_add, Nat.mod_eq_of_lt h]

/-! ## Escapes -/

/-- A character never is half of a pair of codes. -/
theorem not_isSurrogate (c : Char) : isLow c.toNat = false ∧ isHigh c.toNat = false := by
  have h := c.valid
  simp only [UInt32.isValidChar, Nat.isValidChar] at h
  simp only [isLow, isHigh, Char.toNat, decide_eq_false_iff_not]
  omega

theorem toNat_lt (c : Char) : c.toNat < 0x110000 := by
  have h := c.valid
  simp only [UInt32.isValidChar, Nat.isValidChar] at h
  simp only [Char.toNat]
  omega

/-- The escape by one code is read back. -/
theorem escape_unicode {c : Char} (h : c.toNat < 0x10000) (rest : List Char) :
    escape .characters ('u' :: (Quoted.hex 4 c.toNat ++ rest)) = .ok (c, rest) := by
  obtain ⟨hlow, hhigh⟩ := not_isSurrogate c
  simp [escape, coded, code_hex h, hlow, hhigh, bind, Except.bind, pure, Except.pure]

/-- Two halves of a pair are read as the character that they stand for. -/
theorem escape_halves {high low : Nat} (hhigh : isHigh high = true) (hlow : isLow low = true)
    (rest : List Char) :
    escape .characters ('u' :: (Quoted.hex 4 high ++ (unicode low ++ rest))) =
      .ok (paired high low, rest) := by
  simp only [isHigh, isLow, decide_eq_true_eq] at hhigh hlow
  have hnot : isLow high = false := by simp only [isLow, decide_eq_false_iff_not]; omega
  simp only [escape, coded, if_pos]
  rw [code_hex (by omega)]
  simp only [bind, Except.bind, hnot, hhigh, isHigh, unicode, List.cons_append, lowHalf,
    escapedLow, if_pos]
  rw [code_hex (by omega)]
  simp [hlow, isLow, pure, Except.pure]

/-- The escape by a pair of codes is read back. -/
theorem escape_pair {c : Char} (h : 0x10000 ≤ c.toNat) (rest : List Char) :
    escape .characters ('u' :: (Quoted.hex 4 (0xd800 + (c.toNat - 0x10000) / 0x400) ++
      (unicode (0xdc00 + (c.toNat - 0x10000) % 0x400) ++ rest))) = .ok (c, rest) := by
  have hc := toNat_lt c
  -- the halves hold the ten upper and the ten lower bits of what is above the short codes
  have hcode : 0x10000 + (0xd800 + (c.toNat - 0x10000) / 0x400 - 0xd800) * 0x400 +
      (0xdc00 + (c.toNat - 0x10000) % 0x400 - 0xdc00) = c.toNat := by omega
  rw [escape_halves (by simp only [isHigh, decide_eq_true_eq]; omega)
    (by simp only [isLow, decide_eq_true_eq]; omega), paired, hcode, Char.ofNat_toNat]

/-- An escape behind a backslash is one step of the reader. -/
theorem textBody_backslash {d : Char} {cs rest : List Char} (fuel : Nat)
    (h : escape .characters cs = .ok (d, rest)) :
    textBody .characters (fuel + 1) ('\\' :: cs) =
      (textBody .characters fuel rest).map fun p => (d :: p.1, p.2) := by
  simp only [textBody, if_neg (show '\\' ≠ '"' by decide), if_pos, h, bind, Except.bind]
  cases textBody .characters fuel rest <;> rfl

/-- A character that needs no escape is one step of the reader. -/
theorem textBody_plain {c : Char} (fuel : Nat) (rest : List Char) (hq : c ≠ '"') (hb : c ≠ '\\')
    (hc : ¬ c.toNat < 0x20) :
    textBody .characters (fuel + 1) (c :: rest) =
      (textBody .characters fuel rest).map fun p => (c :: p.1, p.2) := by
  rw [textBody, if_neg hq, if_neg hb, if_neg hc]
  cases textBody .characters fuel rest <;> rfl

/-- What can be written for a character. -/
inductive Spelled (ascii : Bool) (c : Char) : List Char → Prop where
  /-- a letter behind a backslash -/
  | letter (d : Char) (stands : letter? d = some c) (ne : d ≠ 'u') : Spelled ascii c ['\\', d]
  /-- one code -/
  | code (short : c.toNat < 0x10000) : Spelled ascii c (unicode c.toNat)
  /-- a pair of codes -/
  | pair (long : 0x10000 ≤ c.toNat) :
    Spelled ascii c (unicode (0xd800 + (c.toNat - 0x10000) / 0x400) ++
      unicode (0xdc00 + (c.toNat - 0x10000) % 0x400))
  /-- the character itself -/
  | plain (quote : c ≠ '"') (backslash : c ≠ '\\') (control : ¬ c.toNat < 0x20)
    (inAscii : ascii = true → c.toNat ≤ 0x7e) : Spelled ascii c [c]

theorem spelled_unicodePair (ascii : Bool) (c : Char) : Spelled ascii c (unicodePair c.toNat) := by
  rw [unicodePair]
  split
  · exact .code ‹_›
  · exact .pair (by omega)

/-- The characters that are escaped by a letter come first, then those that are escaped by a
code. -/
theorem spelled_escaped (ascii : Bool) (c : Char) : Spelled ascii c (escaped ascii c) := by
  by_cases hq : c = '"'
  · subst hq; exact .letter '"' rfl (by decide)
  by_cases hb : c = '\\'
  · subst hb; exact .letter '\\' rfl (by decide)
  by_cases hn : c = '\n'
  · subst hn; exact .letter 'n' rfl (by decide)
  by_cases hr : c = '\r'
  · subst hr; exact .letter 'r' rfl (by decide)
  by_cases ht : c = '\t'
  · subst ht; exact .letter 't' rfl (by decide)
  by_cases h8 : c = '\x08'
  · subst h8; exact .letter 'b' rfl (by decide)
  by_cases hf : c = '\x0c'
  · subst hf; exact .letter 'f' rfl (by decide)
  rw [escaped, if_neg hq, if_neg hb, if_neg hn, if_neg hr, if_neg ht, if_neg h8, if_neg hf]
  by_cases hc : c.toNat < 0x20
  · rw [if_pos hc]
    exact .code (by omega)
  rw [if_neg hc]
  by_cases ha : (ascii && decide (0x7e < c.toNat)) = true
  · rw [if_pos ha]
    exact spelled_unicodePair ascii c
  · rw [if_neg ha]
    exact .plain hq hb hc (fun h => by simpa [h] using ha)

theorem Spelled.ne_nil {ascii : Bool} {c : Char} {cs : List Char} (h : Spelled ascii c cs) :
    cs ≠ [] := by
  cases h <;> exact List.cons_ne_nil _ _

/-- **One character.** Every character is read back from what is written for it, in one step. -/
theorem Spelled.textBody {ascii : Bool} {c : Char} {cs : List Char} (h : Spelled ascii c cs)
    (fuel : Nat) (rest : List Char) :
    textBody .characters (fuel + 1) (cs ++ rest) =
      (textBody .characters fuel rest).map fun p => (c :: p.1, p.2) := by
  cases h with
  | letter d stands ne =>
    have hd : escape .characters (d :: rest) = .ok (c, rest) := by
      rw [escape, if_neg ne, stands]
    exact textBody_backslash fuel hd
  | code short => exact textBody_backslash fuel (escape_unicode short rest)
  | pair long =>
    rw [List.append_assoc]
    exact textBody_backslash fuel (escape_pair long rest)
  | plain quote backslash control => exact textBody_plain fuel rest quote backslash control

/-! ## Whole texts -/

/-- The characters of a text are read back up to the closing quote. -/
theorem textBody_flatMap (ascii : Bool) (cs rest : List Char) {fuel : Nat}
    (h : cs.length < fuel) :
    textBody .characters fuel (cs.flatMap (escaped ascii) ++ '"' :: rest) = .ok (cs, rest) := by
  -- every character costs one step, however it is escaped
  induction cs generalizing fuel with
  | nil =>
    obtain ⟨fuel, rfl⟩ := Nat.exists_eq_add_of_lt h
    rfl
  | cons c cs ih =>
    rcases fuel with _ | fuel
    · exact absurd h (Nat.not_lt_zero _)
    · rw [List.flatMap_cons, List.append_assoc, (spelled_escaped ascii c).textBody,
        ih (Nat.lt_of_succ_lt_succ h)]
      rfl

theorem length_le_length_flatMap_escaped (ascii : Bool) (cs : List Char) :
    cs.length ≤ (cs.flatMap (escaped ascii)).length := by
  induction cs with
  | nil => exact Nat.le_refl _
  | cons c cs ih =>
    have hc := List.length_pos_iff.2 (spelled_escaped ascii c).ne_nil
    rw [List.flatMap_cons, List.length_append, List.length_cons]
    omega

/-- **Texts.** Behind its opening quote a text is read as it was written. -/
theorem quoted_text (ascii : Bool) (s : String) (rest : List Char) :
    quoted .characters (s.toList.flatMap (escaped ascii) ++ '"' :: rest) = .ok (s, rest) := by
  have hlen := length_le_length_flatMap_escaped ascii s.toList
  rw [quoted, textBody_flatMap ascii s.toList rest (by simp only [List.length_append]; omega)]
  simp [bind, Except.bind, pure, Except.pure, Encoding.characters]

end Diagnostics.Json
