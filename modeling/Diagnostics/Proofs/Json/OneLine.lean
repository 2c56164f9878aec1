import Diagnostics.Proofs.Json.Texts

/-!
# JSON on one line

Where parts are not indented, JSON is written on one line: no text, key or number in it, however deep
it lies, brings a control character along, since a text with one has it escaped. Where besides only
ASCII is written as it is, nothing but printable ASCII is written (`isLine_render`).

What is shown of every part is that its characters can stand on a line (`IsLine`). A line is put
together from lines, so the statement about a tree follows its constructors (`isLine_write`).
-/

namespace Diagnostics.Json

/-! ## Lines -/

/-- Whether characters can stand on a line: none is a control character, and in ASCII each can be
printed. -/
def IsLine (ascii : Bool) (cs : List Char) : Prop :=
  ∀ c ∈ cs, 0x20 ≤ c.toNat ∧ (ascii = true → c.toNat ≤ 0x7e)

section Lines

variable {ascii : Bool} {c : Char} {cs ds : List Char}

/-- Characters can be looked at one by one. -/
instance : Decidable (IsLine ascii cs) :=
  List.decidableBAll (fun c : Char => 0x20 ≤ c.toNat ∧ (ascii = true → c.toNat ≤ 0x7e)) cs

/-- Printable ASCII can stand on every line. -/
theorem isLine_of_ascii (h : IsLine true cs) : IsLine ascii cs :=
  fun c hc => ⟨(h c hc).1, fun _ => (h c hc).2 rfl⟩

theorem isLine_nil : IsLine ascii [] := List.forall_mem_nil _

/-- One line after another is a line. -/
theorem IsLine.append (hcs : IsLine ascii cs) (hds : IsLine ascii ds) : IsLine ascii (cs ++ ds) :=
  List.forall_mem_append.2 ⟨hcs, hds⟩

/-- A line with one character in front is a line. -/
theorem IsLine.cons (h : IsLine ascii cs) (hc : IsLine true [c]) : IsLine ascii (c :: cs) :=
  (isLine_of_ascii hc).append h

/-- What is taken from a line is a line. -/
theorem IsLine.subset (h : IsLine ascii cs) (hds : ds ⊆ cs) : IsLine ascii ds :=
  fun c hc => h c (hds hc)

/-- Characters that are written one by one make a line. -/
theorem isLine_flatMap {f : Char → List Char} (h : ∀ c, IsLine ascii (f c)) (cs : List Char) :
    IsLine ascii (cs.flatMap f) := by
  intro d hd
  obtain ⟨c, -, hd⟩ := List.mem_flatMap.1 hd
  exact h c d hd

/-- A character can be repeated on a line. -/
theorem isLine_replicate (hc : IsLine true [c]) (n : Nat) : IsLine ascii (List.replicate n c) := by
  refine (isLine_of_ascii hc).subset fun d hd => ?_
  rw [List.eq_of_mem_replicate hd]
  exact List.mem_singleton_self c

end Lines

/-! ## Numbers -/

section Numbers

variable {ascii : Bool}

/-- Digits can stand on a line. -/
theorem isLine_of_isDigit {ds : List Char} (h : ∀ c ∈ ds, c.isDigit = true) : IsLine ascii ds := by
  intro c hc
  have hdigit := h c hc
  simp only [Char.isDigit, Bool.and_eq_true, decide_eq_true_eq, ge_iff_le, UInt32.le_iff_toNat_le]
    at hdigit
  simp only [Char.toNat]
  exact ⟨Nat.le_trans (by decide) hdigit.1, fun _ => Nat.le_trans hdigit.2 (by decide)⟩

theorem isLine_digits (n : Nat) : IsLine ascii (Digits.digits n) :=
  isLine_of_isDigit fun _ => Digits.isDigit_of_mem_digits

/-- An integer is a minus at most, and digits. -/
theorem isLine_integer (n : Int) : IsLine ascii (Digits.text n) := by
  rw [Digits.text]
  split
  · exact (isLine_digits _).cons (by decide)
  · exact isLine_digits _

/-- Digits without zeros at the end are still digits. -/
theorem isLine_trimEnd {ds : List Char} (h : IsLine ascii ds) : IsLine ascii (Digits.trimEnd ds) :=
  h.subset fun _ hc =>
    List.mem_reverse.1 ((List.dropWhile_sublist _).subset (List.mem_reverse.1 hc))

/-- The digits of a floating-point number are digits. -/
theorem isLine_shortest (mantissa : Nat) (exponent : Int) :
    IsLine ascii (Shortest.shortest mantissa exponent).1 := by
  simp only [Shortest.shortest]
  split
  · exact isLine_trimEnd (isLine_digits _)
  · exact isLine_of_ascii (by decide)

/-- A point, an exponent and zeros are put between and around the digits. -/
theorem isLine_arrange (l : Shortest.Layout) {ds : List Char} (h : IsLine ascii ds) (top : Int) :
    IsLine ascii (l.arrange ds top) := by
  have htake (n : Nat) : IsLine ascii (ds.take n) := h.subset (List.take_subset n ds)
  have hdrop (n : Nat) : IsLine ascii (ds.drop n) := h.subset (List.drop_subset n ds)
  have hzeros (n : Nat) : IsLine ascii (List.replicate n '0') := isLine_replicate (by decide) n
  rw [Shortest.Layout.arrange]
  split
  · split
    · exact (((hzeros _).append h).cons (by decide)).cons (by decide)
    · dsimp only
      split
      · exact (h.append (hzeros _)).append (isLine_of_ascii (by decide))
      · exact (htake _).append ((hdrop _).cons (by decide))
  · have hfraction : IsLine ascii (if (ds.drop 1).isEmpty then [] else '.' :: ds.drop 1) := by
      split
      · exact isLine_nil
      · exact (hdrop 1).cons (by decide)
    have hexponent : IsLine ascii (Shortest.padLeft l.exponentWidth (Digits.digits top.natAbs)) :=
      (hzeros _).append (isLine_digits _)
    refine ((htake 1).append hfraction).append ((hexponent.cons ?_).cons (by decide))
    split <;> decide

/-- A floating-point number is digits, a point and an exponent, or a word. -/
theorem isLine_number (l : Shortest.Layout) (x : Binary64) : IsLine ascii (l.text x) := by
  rcases x with _ | negative | ⟨negative, mantissa, exponent⟩
  · rw [Shortest.Layout.text]
    exact isLine_of_ascii (by decide)
  · rw [Shortest.Layout.text]
    split <;> exact isLine_of_ascii (by decide)
  · rw [Shortest.Layout.text, Shortest.Layout.finite]
    dsimp only
    have hbody : IsLine ascii (if mantissa = 0 then ['0', '.', '0']
        else l.arrange (Shortest.shortest mantissa exponent).1
          (Shortest.shortest mantissa exponent).2) := by
      split
      · exact isLine_of_ascii (by decide)
      · exact isLine_arrange l (isLine_shortest mantissa exponent) _
    split
    · exact hbody.cons (by decide)
    · exact hbody

end Numbers

/-! ## Texts -/

section Texts

variable {ascii : Bool}

theorem isLine_hexDigit : ∀ n, n < 16 → IsLine true [Quoted.hexDigit n] := by decide

/-- Hexadecimal digits can stand on a line. -/
theorem isLine_hex (width n : Nat) : IsLine ascii (Quoted.hex width n) := by
  induction width generalizing n with
  | zero => exact isLine_nil
  | succ width ih =>
    exact (ih _).append (isLine_of_ascii (isLine_hexDigit _ (Nat.mod_lt n (by decide))))

/-- An escape by code is a line. -/
theorem isLine_unicode (n : Nat) : IsLine ascii (unicode n) :=
  ((isLine_hex 4 n).cons (by decide)).cons (by decide)

/-- Only a few letters can stand behind a backslash. -/
theorem isLine_of_letter {c d : Char} (h : letter? d = some c) : IsLine ascii ['\\', d] := by
  refine isLine_of_ascii ?_
  rw [letter?.eq_def] at h
  split at h <;> first | decide | cases h

/-- What is written for a character can stand on a line. -/
theorem Spelled.isLine {c : Char} {cs : List Char} (h : Spelled ascii c cs) : IsLine ascii cs := by
  cases h with
  | letter d stands => exact isLine_of_letter stands
  | code => exact isLine_unicode _
  | pair => exact (isLine_unicode _).append (isLine_unicode _)
  | plain quote backslash control inAscii =>
    exact List.forall_mem_singleton.2 ⟨Nat.le_of_not_lt control, inAscii⟩

/-- A text is escaped where it would leave the line. -/
theorem isLine_text (l : Layout) (s : String) : IsLine l.ascii (l.text s) := by
  have hcharacters := isLine_flatMap (fun c => (spelled_escaped l.ascii c).isLine) s.toList
  exact (hcharacters.append (isLine_of_ascii (by decide))).cons (by decide)

end Texts

/-! ## Trees -/

section Trees

variable {l : Layout}

/-- Without indentation there are no line breaks between parts. -/
theorem isLine_newline (h : l.indent? = none) (depth : Nat) : IsLine l.ascii (l.newline depth) := by
  rw [Layout.newline, h]
  exact isLine_nil

/-- Without indentation items follow each other on the line. -/
theorem isLine_comma (h : l.indent? = none) (depth : Nat) : IsLine l.ascii (l.comma depth) := by
  rw [Layout.comma, h]
  dsimp only
  split <;> exact isLine_of_ascii (by decide)

theorem isLine_colon (l : Layout) : IsLine l.ascii l.colon := by
  rw [Layout.colon]
  split <;> exact isLine_of_ascii (by decide)

mutual

/-- What is written is a line, by induction on the tree. -/
theorem isLine_write (h : l.indent? = none) (depth : Nat) :
    ∀ j : Json, IsLine l.ascii (l.write depth j)
  | null => by
    rw [Layout.write]
    exact isLine_of_ascii (by decide)
  | bool b => by
    rw [Layout.write]
    cases b <;> exact isLine_of_ascii (by decide)
  | int n => isLine_integer n
  | real x => isLine_number l.numbers x
  | .text s => isLine_text l s
  | array [] => by
    rw [Layout.write]
    exact isLine_of_ascii (by decide)
  | array (j :: js) => by
    have hitems := ((isLine_newline h (depth + 1)).append (isLine_write h (depth + 1) j)).append
      (isLine_writeMore h (depth + 1) js)
    have hclosing := (isLine_newline h depth).append (isLine_of_ascii (by decide : IsLine true [']']))
    rw [Layout.write, List.append_assoc _ (l.newline depth)]
    exact (hitems.append hclosing).cons (by decide)
  | object [] => by
    rw [Layout.write]
    exact isLine_of_ascii (by decide)
  | object ((k, j) :: es) => by
    have hkey := ((isLine_newline h (depth + 1)).append (isLine_text l k)).append (isLine_colon l)
    have hentries := (hkey.append (isLine_write h (depth + 1) j)).append
      (isLine_writeEntries h (depth + 1) es)
    have hclosing := (isLine_newline h depth).append (isLine_of_ascii (by decide : IsLine true ['}']))
    rw [Layout.write, List.append_assoc _ (l.newline depth)]
    exact (hentries.append hclosing).cons (by decide)

/-- Items in a row are written on one line. -/
theorem isLine_writeMore (h : l.indent? = none) (depth : Nat) :
    ∀ js : List Json, IsLine l.ascii (l.writeMore depth js)
  | [] => isLine_nil
  | j :: js =>
    ((isLine_comma h depth).append (isLine_write h depth j)).append (isLine_writeMore h depth js)

/-- Entries in a row are written on one line, each behind its key. -/
theorem isLine_writeEntries (h : l.indent? = none) (depth : Nat) :
    ∀ es : List (String × Json), IsLine l.ascii (l.writeEntries depth es)
  | [] => isLine_nil
  | (k, j) :: es =>
    ((((isLine_comma h depth).append (isLine_text l k)).append (isLine_colon l)).append
      (isLine_write h depth j)).append (isLine_writeEntries h depth es)

end

/-- **One line.** Without indentation JSON is one line, whatever it holds. -/
theorem isLine_render (h : l.indent? = none) (j : Json) : IsLine l.ascii (render l j).toList := by
  rw [render, String.toList_ofList]
  exact isLine_write h 0 j

end Trees

end Diagnostics.Json
