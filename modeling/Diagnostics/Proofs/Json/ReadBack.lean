import Diagnostics.Proofs.Json.Numbers
import Diagnostics.Proofs.Json.Texts

/-!
# JSON is read as it was written

Writing JSON in any layout and reading the text gives the JSON back (`read_render`), if it holds
integers but no other numbers, no object has a key twice (`IsExact`), and the limits of the
reader are kept (`KeepsLimits`): no integer has too many characters (`isShort`), and collections are
not too deep inside each other (`nesting`).

The proof follows the tree. What is shown of a part is `ReadsBack`: the part is read back at every
depth, whatever is written behind it. The items of a list and the entries of an object are read
back when each of them is (`items_write`, `entries_write`).
-/

namespace Diagnostics.Json

/-! ## What can be read back -/

/-- Whether JSON is read back as it stands: all its numbers are integers, and no object has a key
twice. -/
inductive IsExact : Json → Prop where
  | null : IsExact .null
  | bool (b : Bool) : IsExact (.bool b)
  | int (n : Int) : IsExact (.int n)
  | text (s : String) : IsExact (.text s)
  | array {js : List Json} (items : ∀ j ∈ js, IsExact j) : IsExact (.array js)
  | object {es : List (String × Json)} (values : ∀ e ∈ es, IsExact e.2)
    (keys : es.Pairwise (·.1 ≠ ·.1)) : IsExact (.object es)

mutual

/-- How deep collections that hold something are inside each other. -/
def nesting : Json → Nat
  | array items => if items.isEmpty then 0 else nestingOfItems items + 1
  | object entries => if entries.isEmpty then 0 else nestingOfEntries entries + 1
  | _ => 0

/-- The greatest nesting of an item. -/
def nestingOfItems : List Json → Nat
  | [] => 0
  | j :: js => max (nesting j) (nestingOfItems js)

/-- The greatest nesting of the value of an entry. -/
def nestingOfEntries : List (String × Json) → Nat
  | [] => 0
  | (_, j) :: es => max (nesting j) (nestingOfEntries es)

end

/-- Items are nested no deeper than some level if each of them is. -/
theorem nestingOfItems_le_iff {js : List Json} {n : Nat} :
    nestingOfItems js ≤ n ↔ ∀ j ∈ js, nesting j ≤ n := by
  induction js with
  | nil => simp [nestingOfItems]
  | cons j js ih => simp only [nestingOfItems, Nat.max_le, ih, List.forall_mem_cons]

/-- Entries are nested no deeper than some level if the value of each is. -/
theorem nestingOfEntries_le_iff {es : List (String × Json)} {n : Nat} :
    nestingOfEntries es ≤ n ↔ ∀ e ∈ es, nesting e.2 ≤ n := by
  induction es with
  | nil => simp [nestingOfEntries]
  | cons e es ih => simp only [nestingOfEntries, Nat.max_le, ih, List.forall_mem_cons]

/-- An item is not nested as deep as its list. -/
theorem nesting_lt_of_mem_items {j : Json} {js : List Json} (h : j ∈ js) :
    nesting j < nesting (.array js) := by
  have hj := nestingOfItems_le_iff.1 (Nat.le_refl _) j h
  cases js with
  | nil => cases h
  | cons i js => exact Nat.lt_succ_of_le hj

/-- The value of an entry is not nested as deep as its object. -/
theorem nesting_lt_of_mem_entries {e : String × Json} {es : List (String × Json)} (h : e ∈ es) :
    nesting e.2 < nesting (.object es) := by
  have he := nestingOfEntries_le_iff.1 (Nat.le_refl _) e h
  cases es with
  | nil => cases h
  | cons x es => exact Nat.lt_succ_of_le he

/-- Whether JSON keeps the limits of a reader: no integer has too many characters, and no collection
is too deep inside others. -/
structure KeepsLimits (limits : Limits) (j : Json) : Prop where
  integers : j.integersFit (isShort limits.characters) = true
  depth : j.nesting ≤ limits.depth

variable {fits : Int → Bool}

/-- All integers in items fit if those in each of them do. -/
theorem allFit_iff {js : List Json} :
    allFit fits js = true ↔ ∀ j ∈ js, integersFit fits j = true := by
  induction js with
  | nil => simp [allFit]
  | cons j js ih => simp [allFit, ih]

/-- All integers in entries fit if those in the value of each do. -/
theorem entriesFit_iff {es : List (String × Json)} :
    entriesFit fits es = true ↔ ∀ e ∈ es, integersFit fits e.2 = true := by
  induction es with
  | nil => simp [entriesFit]
  | cons e es ih => simp [entriesFit, ih]

mutual

/-- Integers of some kind are of every wider kind. -/
theorem integersFit_mono {wider : Int → Bool} (hw : ∀ n, fits n = true → wider n = true) :
    ∀ {j : Json}, j.integersFit fits = true → j.integersFit wider = true
  | .null, _ | .bool _, _ | .real _, _ | .text _, _ => rfl
  | .int n, h => hw n h
  | .array _, h => allFit_mono hw h
  | .object _, h => entriesFit_mono hw h

/-- What fits in items still fits under a wider limit. -/
theorem allFit_mono {wider : Int → Bool} (hw : ∀ n, fits n = true → wider n = true) :
    ∀ {js : List Json}, allFit fits js = true → allFit wider js = true
  | [], _ => rfl
  | _ :: _, h => by
    obtain ⟨hj, hjs⟩ := Bool.and_eq_true_iff.1 h
    exact Bool.and_eq_true_iff.2 ⟨integersFit_mono hw hj, allFit_mono hw hjs⟩

/-- What fits in entries still fits under a wider limit. -/
theorem entriesFit_mono {wider : Int → Bool} (hw : ∀ n, fits n = true → wider n = true) :
    ∀ {es : List (String × Json)}, entriesFit fits es = true → entriesFit wider es = true
  | [], _ => rfl
  | _ :: _, h => by
    obtain ⟨he, hes⟩ := Bool.and_eq_true_iff.1 h
    exact Bool.and_eq_true_iff.2 ⟨integersFit_mono hw he, entriesFit_mono hw hes⟩

end

/-- The items of an array keep the limits that the array keeps. -/
theorem KeepsLimits.of_mem_items {limits : Limits} {js : List Json} {j : Json}
    (h : KeepsLimits limits (.array js)) (hj : j ∈ js) : KeepsLimits limits j :=
  ⟨allFit_iff.1 h.integers j hj, Nat.le_trans (Nat.le_of_lt (nesting_lt_of_mem_items hj)) h.depth⟩

/-! ## Blanks -/

/-- What is no space is not skipped. -/
theorem skip_cons {c : Char} (cs : List Char) (h : isSpace c = false) :
    skip (c :: cs) = c :: cs := by
  simp [skip, h]

/-- A line break with its indentation is skipped. -/
theorem skip_newline (l : Layout) (depth : Nat) (cs : List Char) :
    skip (l.newline depth ++ cs) = skip cs := by
  unfold Layout.newline skip
  cases l.indent? with
  | none => rfl
  | some n =>
    rw [List.dropWhile_append_of_pos]
    intro c hc
    rcases List.mem_cons.1 hc with rfl | hc
    · decide
    · rw [List.eq_of_mem_replicate hc]
      decide

/-- A text that a value begins: without space, and nothing that closes a collection. -/
def Starts (cs : List Char) : Prop :=
  ∃ c rest, cs = c :: rest ∧ isSpace c = false ∧ c ≠ ']' ∧ c ≠ '}'

/-- What begins a value begins it whatever follows. -/
theorem Starts.append {cs : List Char} (h : Starts cs) (rest : List Char) :
    Starts (cs ++ rest) := by
  obtain ⟨c, cs, rfl, hc⟩ := h
  exact ⟨c, cs ++ rest, rfl, hc⟩

/-- A value begins where it is, without space in front. -/
theorem Starts.skip_eq {cs : List Char} (h : Starts cs) : skip cs = cs := by
  obtain ⟨c, cs, rfl, hc, -⟩ := h
  exact skip_cons cs hc

/-- A text begins with its quote. -/
theorem starts_text (l : Layout) (s : String) : Starts (l.text s) :=
  ⟨'"', _, rfl, by decide, by decide, by decide⟩

/-- What is written for a value begins without space. -/
theorem starts_write (l : Layout) (depth : Nat) {j : Json} (h : IsExact j) :
    Starts (l.write depth j) := by
  cases h with
  | null => exact ⟨'n', _, rfl, by decide, by decide, by decide⟩
  | bool b => cases b <;> exact ⟨_, _, rfl, by decide, by decide, by decide⟩
  | int n =>
    obtain ⟨c, cs, htext, rfl | hc⟩ := Digits.exists_text_eq_cons n
    · exact ⟨'-', cs, htext, by decide, by decide, by decide⟩
    · refine ⟨c, cs, htext, ?_, ne_of_isDigit hc rfl, ne_of_isDigit hc rfl⟩
      simp [isSpace, ne_of_isDigit hc (d := ' ') rfl, ne_of_isDigit hc (d := '\t') rfl,
        ne_of_isDigit hc (d := '\n') rfl, ne_of_isDigit hc (d := '\r') rfl]
  | text s => exact starts_text l s
  | @array js _ => cases js <;> exact ⟨'[', _, rfl, by decide, by decide, by decide⟩
  | @object es _ _ => rcases es with _ | ⟨⟨k, j⟩, es⟩ <;>
      exact ⟨'{', _, rfl, by decide, by decide, by decide⟩

/-! ## What stands between values -/

/-- After the last item comes the closing bracket, on a line of its own or not. -/
theorem nextItem_close (l : Layout) (depth : Nat) (rest : List Char) :
    nextItem (l.newline depth ++ ']' :: rest) = .ok (false, rest) := by
  rw [nextItem, skip_newline, skip_cons _ (by decide)]
  rfl

/-- After the last entry comes the closing brace, on a line of its own or not. -/
theorem nextEntry_close (l : Layout) (depth : Nat) (rest : List Char) :
    nextEntry (l.newline depth ++ '}' :: rest) = .ok (false, rest) := by
  rw [nextEntry, skip_newline, skip_cons _ (by decide)]
  rfl

/-- A comma with the space behind it. -/
theorem exists_comma_eq (l : Layout) (depth : Nat) :
    ∃ space, l.comma depth = ',' :: space ∧ ∀ cs, skip (space ++ cs) = skip cs := by
  rw [Layout.comma]
  cases h : l.indent? with
  | none =>
    cases l.spaced with
    | true => exact ⟨[' '], rfl, fun _ => rfl⟩
    | false => exact ⟨[], rfl, fun _ => rfl⟩
  | some n => exact ⟨l.newline depth, rfl, skip_newline l depth⟩

/-- Between items comes a comma, with space behind it or not. -/
theorem nextItem_comma (l : Layout) (depth : Nat) {cs : List Char} (h : Starts cs) :
    nextItem (l.comma depth ++ cs) = .ok (true, cs) := by
  obtain ⟨space, hcomma, hspace⟩ := exists_comma_eq l depth
  rw [hcomma, List.cons_append, nextItem, skip_cons _ (by decide)]
  have hskip := (hspace cs).trans h.skip_eq
  obtain ⟨c, cs, rfl, -, hc, -⟩ := h
  simp only [Char.reduceEq, if_false, if_true, hskip, if_neg hc]

/-- Between entries comes a comma, with space behind it or not. -/
theorem nextEntry_comma (l : Layout) (depth : Nat) {cs : List Char} (h : Starts cs) :
    nextEntry (l.comma depth ++ cs) = .ok (true, cs) := by
  obtain ⟨space, hcomma, hspace⟩ := exists_comma_eq l depth
  rw [hcomma, List.cons_append, nextEntry, skip_cons _ (by decide)]
  have hskip := (hspace cs).trans h.skip_eq
  obtain ⟨c, cs, rfl, -, -, hc⟩ := h
  simp only [Char.reduceEq, if_false, if_true, hskip, if_neg hc]

/-- Behind a key comes a colon, with space behind it or not. -/
theorem colon_colon (l : Layout) {cs : List Char} (h : Starts cs) :
    colon (l.colon ++ cs) = .ok cs := by
  rw [Layout.colon]
  split
  · rw [List.cons_append, colon, skip_cons _ (by decide)]
    exact congrArg Except.ok h.skip_eq
  · rw [List.cons_append, colon, skip_cons _ (by decide)]
    exact congrArg Except.ok h.skip_eq

/-- A key is read back, with the colon behind it. -/
theorem key_text (l : Layout) (k : String) {cs : List Char} (h : Starts cs) :
    key .characters (l.text k ++ (l.colon ++ cs)) = .ok (k, cs) := by
  have hk := quoted_text l.ascii k (l.colon ++ cs)
  simp only [Layout.text, List.cons_append, List.append_assoc, List.nil_append, key, if_true, hk,
    bind, Except.bind, colon_colon l h]
  rfl

/-- A line break ends a number, and so does what stands for it on one line. -/
theorem ends_newline (l : Layout) (depth : Nat) {c : Char} (rest : List Char)
    (h : c.isDigit = false ∧ c ≠ '.' ∧ c ≠ 'e' ∧ c ≠ 'E') :
    Ends (l.newline depth ++ c :: rest) := by
  rw [Layout.newline]
  cases l.indent? with
  | none => exact ends_cons rest h
  | some n => exact ends_cons _ (by decide)

/-- A comma ends a number. -/
theorem ends_comma (l : Layout) (depth : Nat) (rest : List Char) :
    Ends (l.comma depth ++ rest) := by
  obtain ⟨space, hcomma, -⟩ := exists_comma_eq l depth
  rw [hcomma]
  exact ends_cons _ (by decide)

/-! ## Values -/

section Values

variable {l : Layout} {limits : Limits}

/-- A value is read back at every level, whatever is written behind it. -/
def ReadsBack (l : Layout) (limits : Limits) (j : Json) : Prop :=
  ∀ (level fuel depth : Nat) (rest : List Char), nesting j ≤ depth → Ends rest →
    (l.write level j).length < fuel →
      value .characters limits fuel depth (l.write level j ++ rest) = .ok (j, rest)

/-- What is written for the items of a list is read back, if each item is. -/
theorem items_write {j : Json} {js : List Json} {level fuel depth : Nat} (below : Nat)
    (rest : List Char) (hexact : ∀ i ∈ js, IsExact i) (hread : ∀ i ∈ j :: js, ReadsBack l limits i)
    (hnest : ∀ i ∈ j :: js, nesting i ≤ depth)
    (hfuel : (l.write level j).length + (l.writeMore level js).length + 1 < fuel) :
    items .characters limits fuel depth
        (l.write level j ++ (l.writeMore level js ++ (l.newline below ++ ']' :: rest))) =
      .ok (j :: js, rest) := by
  -- on the items behind the first one: what is read for an item does not depend on what comes next
  induction js generalizing j fuel with
  | nil =>
    rcases fuel with _ | fuel
    · exact absurd hfuel (Nat.not_lt_zero _)
    · have hj := hread j List.mem_cons_self level fuel depth (l.newline below ++ ']' :: rest)
        (hnest j List.mem_cons_self) (ends_newline l below rest (by decide)) (by omega)
      simp only [items, Layout.writeMore, List.nil_append, hj, bind, Except.bind,
        nextItem_close, Bool.false_eq_true, if_false]
      rfl
  | cons i js ih =>
    rcases fuel with _ | fuel
    · exact absurd hfuel (Nat.not_lt_zero _)
    · simp only [Layout.writeMore, List.length_append] at hfuel
      obtain ⟨space, hcomma, -⟩ := exists_comma_eq l level
      -- the comma pays for the step that the next item takes
      have hpos : 0 < (l.comma level).length := by rw [hcomma]; exact Nat.succ_pos _
      have hj := hread j List.mem_cons_self level fuel depth
        (l.comma level ++ (l.write level i ++ (l.writeMore level js ++
          (l.newline below ++ ']' :: rest))))
        (hnest j List.mem_cons_self) (ends_comma l level _) (by omega)
      have hstart := (starts_write l level (hexact i List.mem_cons_self)).append
        (l.writeMore level js ++ (l.newline below ++ ']' :: rest))
      have hless : (l.write level i).length + (l.writeMore level js).length + 1 < fuel := by omega
      have hmore := ih (fun x hx => hexact x (List.mem_cons_of_mem _ hx))
        (fun x hx => hread x (List.mem_cons_of_mem _ hx))
        (fun x hx => hnest x (List.mem_cons_of_mem _ hx)) hless
      simp only [items, Layout.writeMore, List.append_assoc, hj, bind, Except.bind,
        nextItem_comma l level hstart, if_true, hmore]
      rfl

/-- What is written for the entries of an object is read back, if the value of each is. The object
itself takes one step of the depth. -/
theorem entries_write {e : String × Json} {es : List (String × Json)}
    {level fuel depth : Nat} (below : Nat) (rest : List Char)
    (hexact : ∀ x ∈ e :: es, IsExact x.2)
    (hread : ∀ x ∈ e :: es, ReadsBack l limits x.2)
    (hnest : ∀ x ∈ e :: es, nesting x.2 ≤ depth)
    (hfuel : (l.write level e.2).length + (l.writeEntries level es).length + 1 < fuel) :
    entries .characters limits fuel (depth + 1)
        (l.text e.1 ++ (l.colon ++ (l.write level e.2 ++
          (l.writeEntries level es ++ (l.newline below ++ '}' :: rest))))) =
      .ok (e :: es, rest) := by
  induction es generalizing e fuel with
  | nil =>
    rcases fuel with _ | fuel
    · exact absurd hfuel (Nat.not_lt_zero _)
    · have he := hread e List.mem_cons_self level fuel depth (l.newline below ++ '}' :: rest)
        (hnest e List.mem_cons_self) (ends_newline l below rest (by decide)) (by omega)
      have hkey := key_text l e.1 ((starts_write l level (hexact e List.mem_cons_self)).append
        (l.newline below ++ '}' :: rest))
      simp only [entries, Layout.writeEntries, List.nil_append, hkey, he, bind, Except.bind,
        Nat.succ_ne_zero, false_and, if_false, Nat.add_sub_cancel, nextEntry_close,
        Bool.false_eq_true]
      rfl
  | cons x es ih =>
    rcases fuel with _ | fuel
    · exact absurd hfuel (Nat.not_lt_zero _)
    · simp only [Layout.writeEntries, List.length_append] at hfuel
      obtain ⟨space, hcomma, -⟩ := exists_comma_eq l level
      have hpos : 0 < (l.comma level).length := by rw [hcomma]; exact Nat.succ_pos _
      have hkey := key_text l e.1 ((starts_write l level (hexact e List.mem_cons_self)).append
        (l.comma level ++ (l.text x.1 ++ (l.colon ++ (l.write level x.2 ++
          (l.writeEntries level es ++ (l.newline below ++ '}' :: rest)))))))
      have he := hread e List.mem_cons_self level fuel depth
        (l.comma level ++ (l.text x.1 ++ (l.colon ++ (l.write level x.2 ++
          (l.writeEntries level es ++ (l.newline below ++ '}' :: rest))))))
        (hnest e List.mem_cons_self) (ends_comma l level _) (by omega)
      have hstart := (starts_text l x.1).append (l.colon ++ (l.write level x.2 ++
        (l.writeEntries level es ++ (l.newline below ++ '}' :: rest))))
      have hless : (l.write level x.2).length + (l.writeEntries level es).length + 1 < fuel := by
        omega
      have hmore := ih (fun y hy => hexact y (List.mem_cons_of_mem _ hy))
        (fun y hy => hread y (List.mem_cons_of_mem _ hy))
        (fun y hy => hnest y (List.mem_cons_of_mem _ hy)) hless
      simp only [entries, Layout.writeEntries, List.append_assoc, hkey, he, bind, Except.bind,
        Nat.succ_ne_zero, false_and, if_false, Nat.add_sub_cancel,
        nextEntry_comma l level hstart, if_true, hmore]
      rfl

/-- A value that holds no other is read back in one step. -/
theorem readsBack_of_scalar {j : Json}
    (h : ∀ (level : Nat) (rest : List Char), Ends rest → ∃ c cs, l.write level j = c :: cs ∧
      c ≠ '[' ∧ c ≠ '{' ∧ scalar .characters limits (c :: cs ++ rest) = .ok (j, rest)) :
    ReadsBack l limits j := by
  rintro level fuel depth rest - hends hfuel
  obtain ⟨c, cs, hwrite, hl, hb, hscalar⟩ := h level rest hends
  rcases fuel with _ | fuel
  · exact absurd hfuel (Nat.not_lt_zero _)
  · rw [hwrite, List.cons_append, value, if_neg hl, if_neg hb]
    exact hscalar

/-- A list is read back if its items are. -/
theorem readsBack_array {js : List Json} (hexact : ∀ i ∈ js, IsExact i)
    (hread : ∀ i ∈ js, ReadsBack l limits i) : ReadsBack l limits (.array js) := by
  intro level fuel depth rest hnest hends hfuel
  rcases fuel with _ | fuel
  · exact absurd hfuel (Nat.not_lt_zero _)
  -- an array without items opens and closes at no depth
  rcases js with _ | ⟨j, js⟩
  · rfl
  · simp only [nesting, List.isEmpty_cons, Bool.false_eq_true, if_false] at hnest
    rcases depth with _ | depth
    · exact absurd hnest (Nat.not_succ_le_zero _)
    simp only [Layout.write, List.length_cons, List.length_append] at hfuel
    have hall := nestingOfItems_le_iff.1 (Nat.le_of_succ_le_succ hnest)
    have hless : (l.write (level + 1) j).length + (l.writeMore (level + 1) js).length + 1 <
        fuel := by omega
    have hitems := items_write level rest
      (fun i hi => hexact i (List.mem_cons_of_mem _ hi)) hread hall hless
    obtain ⟨c, cs, hwrite, hspace, hclose, -⟩ :=
      starts_write l (level + 1) (hexact j List.mem_cons_self)
    rw [hwrite, List.cons_append] at hitems
    simp only [Layout.write, List.cons_append, List.append_assoc, List.nil_append, value, if_true,
      skip_newline, hwrite, skip_cons _ hspace, if_neg hclose, Nat.succ_ne_zero, if_false,
      Nat.add_sub_cancel, hitems, bind, Except.bind]
    rfl

/-- An object is read back if its values are and no key comes twice. -/
theorem readsBack_object {es : List (String × Json)} (hexact : ∀ e ∈ es, IsExact e.2)
    (hkeys : es.Pairwise (·.1 ≠ ·.1)) (hread : ∀ e ∈ es, ReadsBack l limits e.2) :
    ReadsBack l limits (.object es) := by
  intro level fuel depth rest hnest hends hfuel
  rcases fuel with _ | fuel
  · exact absurd hfuel (Nat.not_lt_zero _)
  rcases es with _ | ⟨⟨k, j⟩, es⟩
  · rfl
  · simp only [nesting, List.isEmpty_cons, Bool.false_eq_true, if_false] at hnest
    rcases depth with _ | depth
    · exact absurd hnest (Nat.not_succ_le_zero _)
    simp only [Layout.write, List.length_cons, List.length_append] at hfuel
    have hall := nestingOfEntries_le_iff.1 (Nat.le_of_succ_le_succ hnest)
    have hless : (l.write (level + 1) j).length + (l.writeEntries (level + 1) es).length + 1 <
        fuel := by omega
    have hentries := entries_write level rest hexact hread hall hless
    have hskip : ∀ cs, skip (l.text k ++ cs) = l.text k ++ cs := fun cs =>
      ((starts_text l k).append cs).skip_eq
    simp only [Layout.write, List.cons_append, List.append_assoc, List.nil_append, value,
      Char.reduceEq, if_false, if_true, skip_newline, hskip]
    simp only [Layout.text, List.cons_append, Char.reduceEq, if_false] at hentries ⊢
    rw [hentries]
    simp only [bind, Except.bind, table_eq_self hkeys]
    rfl

/-- **Values.** Every part of exact JSON is read back. -/
theorem readsBack {j : Json} (h : IsExact j)
    (hfit : j.integersFit (isShort limits.characters) = true) : ReadsBack l limits j := by
  induction h with
  | null => exact readsBack_of_scalar fun _ _ _ => ⟨'n', _, rfl, by decide, by decide, rfl⟩
  | bool b =>
    cases b <;> exact readsBack_of_scalar fun _ _ _ => ⟨_, _, rfl, by decide, by decide, rfl⟩
  | int n =>
    refine readsBack_of_scalar fun level rest hends => ?_
    have hread := scalar_integer (e := .characters) (of_decide_eq_true hfit) hends
    obtain ⟨c, cs, htext, hc⟩ := Digits.exists_text_eq_cons n
    rw [htext] at hread
    refine ⟨c, cs, htext, ?_, ?_, hread⟩
    all_goals
      rcases hc with rfl | hc
      · decide
      · exact ne_of_isDigit hc rfl
  | text s =>
    refine readsBack_of_scalar fun level rest _ => ⟨'"', _, rfl, by decide, by decide, ?_⟩
    have hread := quoted_text l.ascii s rest
    simp only [List.cons_append, List.append_assoc, List.nil_append, scalar, if_true, hread]
    rfl
  | array items ih =>
    have hfit := allFit_iff.1 hfit
    exact readsBack_array items fun j hj => ih j hj (hfit j hj)
  | object values keys ih =>
    have hfit := entriesFit_iff.1 hfit
    exact readsBack_object values keys fun e he => ih e he (hfit e he)

/-- **Reading undoes writing.** Exact JSON that keeps the limits is read as it was written, in
whatever layout. -/
theorem read_render (l : Layout) {j : Json} (h : IsExact j) (hlimits : KeepsLimits limits j) :
    read limits (render l j) = .ok j := by
  have hstart := starts_write l 0 h
  have hread := readsBack (l := l) h hlimits.integers 0 (2 * (l.write 0 j).length + 2) limits.depth []
    hlimits.depth ends_nil (by omega)
  rw [List.append_nil] at hread
  simp only [read, readUnits, render, String.toList_ofList, document, hstart.skip_eq, hread, bind,
    Except.bind]
  rfl

end Values

end Diagnostics.Json
