import Mathlib.Data.List.Induction
import Diagnostics.Proofs.Json.Ranges

/-!
# Texts of lists and of objects

The items of a list and the members of an object stand in a row, with commas between them and a
closing character behind them. A row is read exactly when each of its parts is read by itself, and
what it holds is what they hold (`IsRow.finds`). So the text of a list is read as its items are
(`reads_array_iff`), and the text of an object as the values of its members are
(`reads_object_iff`); where the first of them is that is not read, the object is refused
(`document_stop`). Of members with one name the last one counts (`lookup_table`).
-/

namespace Diagnostics.Json

variable {α β ι : Type} {e : Encoding} {limits : Limits} {depth : Nat} {text r rest : List Char}
  {i j : Json}

/-! ## What is found -/

/-- Whether a reader finds the one thing of a kind and leaves the rest, or nothing where there is no
such thing. -/
inductive Finds (P : α → Prop) (rest : List Char) : Except Stop (α × List Char) → Prop
  | ok {a : α} (only : ∀ b, P b ↔ a = b) : Finds P rest (.ok (a, rest))
  | error (none : ∀ a, ¬ P a) (stop : Stop) : Finds P rest (.error stop)

namespace Finds

variable {P : α → Prop} {x : Except Stop (α × List Char)}

theorem pure (a : α) (rest : List Char) : Finds (a = ·) rest (.ok (a, rest)) := .ok fun _ => Iff.rfl

theorem imp {Q : α → Prop} (h : Finds P rest x) (hPQ : ∀ a, P a ↔ Q a) : Finds Q rest x := by
  obtain rfl : P = Q := funext fun a => propext (hPQ a)
  exact h

theorem bind {Q : α → β → Prop} {f : α × List Char → Except Stop (β × List Char)}
    (h : Finds P r x) (hf : ∀ a, P a → Finds (Q a) rest (f (a, r))) :
    Finds (fun b => ∃ a, P a ∧ Q a b) rest (x >>= f) := by
  cases h with
  | @ok a only =>
    refine (hf a ((only a).2 rfl)).imp fun b => ⟨fun hb => ⟨a, (only a).2 rfl, hb⟩, ?_⟩
    rintro ⟨a', ha', hb⟩
    rwa [(only a').1 ha']
  | error none stop =>
    refine .error (fun b hb => ?_) stop
    obtain ⟨a, ha, -⟩ := hb
    exact none a ha

theorem eq_ok_iff (h : Finds P rest x) {a : α} : x = .ok (a, r) ↔ P a ∧ r = rest := by
  cases h with
  | @ok b only =>
    rw [Except.ok.injEq, Prod.mk.injEq, only, eq_comm (a := r)]
  | error none stop => exact ⟨nofun, fun hP => absurd hP.1 (none a)⟩

end Finds

/-! ## Texts by themselves -/

/-- Whether a text is read as a value that may be nested so deep, with nothing but space around it. -/
def Reads (e : Encoding) (limits : Limits) (depth : Nat) (text : List Char) (j : Json) : Prop :=
  ∃ r, valueIn e limits depth (skip text) = .ok (j, r) ∧ skip r = []

theorem document_eq_ok_iff :
    document e limits text = .ok j ↔ Reads e limits limits.depth text j := by
  rw [document_eq, bind_eq_ok]
  constructor
  · rintro ⟨⟨i, r⟩, hvalue, h⟩
    dsimp only at h
    split at h
    · next hr =>
      cases h
      exact ⟨r, hvalue, hr⟩
    · cases h
  · rintro ⟨r, hvalue, hr⟩
    exact ⟨(j, r), hvalue, if_pos hr⟩

theorem Reads.eq (h : Reads e limits depth text i) (h' : Reads e limits depth text j) : i = j := by
  obtain ⟨r, hvalue, -⟩ := h
  obtain ⟨r', hvalue', -⟩ := h'
  cases hvalue.symm.trans hvalue'
  rfl

/-- What is read at some depth is a text of its own where that depth is the greatest. -/
theorem Reads.spells (h : Reads e limits depth text j) : Spells e text j := by
  obtain ⟨r, hvalue, hr⟩ := h
  let alone : Limits := ⟨depth, limits.characters⟩
  have hnil : EndsItem [] := by
    intro c hc
    cases hc
  have hdigits : limits.characters ≤ alone.characters := Nat.le_refl _
  have hcontinued :=
    (all_continued hnil hdigits (Nat.le_refl _) (Nat.le_refl depth)).1 hvalue
  rw [List.append_nil, List.append_nil] at hcontinued
  exact ⟨alone, document_eq_ok_iff.2 ⟨r, hcontinued, hr⟩⟩

theorem reads_iff_of_finds {P : Json → Prop} {cs : List Char} (hskip : skip text = cs)
    (h : Finds P rest (valueIn e limits depth cs)) (hrest : skip rest = []) :
    Reads e limits depth text j ↔ P j := by
  rw [Reads, hskip]
  constructor
  · rintro ⟨r, hr, -⟩
    exact (h.eq_ok_iff.1 hr).1
  · intro hj
    exact ⟨rest, h.eq_ok_iff.2 ⟨hj, rfl⟩, hrest⟩

/-- An integer is read as a value that holds no other. -/
theorem valueIn_integer (e : Encoding) (limits : Limits) (depth : Nat) (n : Int)
    (rest : List Char) :
    valueIn e limits depth (skip (Digits.text n ++ rest)) =
      scalar e limits (Digits.text n ++ rest) := by
  obtain ⟨c, cs, htext, hc⟩ := Digits.exists_text_eq_cons n
  have hne {d : Char} (hminus : '-' ≠ d) (hd : d.isDigit = false) : c ≠ d := by
    rcases hc with rfl | hc
    · exact hminus
    · exact ne_of_isDigit hc hd
  have hspace : isSpace c = false := by
    simp [isSpace, hne (d := ' ') (by decide) rfl, hne (d := '\t') (by decide) rfl,
      hne (d := '\n') (by decide) rfl, hne (d := '\r') (by decide) rfl]
  rw [htext, List.cons_append, skip_cons _ hspace]
  exact valueIn_scalar (hne (by decide) rfl) (hne (by decide) rfl) _

/-- An integer is read unless it has too many characters. -/
theorem reads_integer_iff {n : Int} : Reads e limits depth (Digits.text n) j ↔
    (Digits.text n).length ≤ limits.characters ∧ j = .int n := by
  have hvalue := valueIn_integer e limits depth n []
  rw [List.append_nil] at hvalue
  rw [Reads, hvalue]
  constructor
  · rintro ⟨r, hr, -⟩
    rcases Nat.lt_or_ge limits.characters (Digits.text n).length with hlong | hfit
    · have hstop := scalar_integer_long (e := e) hlong ends_nil
      rw [List.append_nil, hr] at hstop
      cases hstop
    · have hread := scalar_integer (e := e) hfit ends_nil
      rw [List.append_nil, hr] at hread
      cases hread
      exact ⟨hfit, rfl⟩
  · rintro ⟨hfit, rfl⟩
    have hread := scalar_integer (e := e) hfit ends_nil
    rw [List.append_nil] at hread
    exact ⟨[], hread, rfl⟩

/-! ## Rows -/

/-- Whether a reader finds the one thing of a kind in a text that stands in a row. -/
def IsPart (read : List Char → Except Stop (α × List Char)) (P : α → Prop) (text : List Char) :
    Prop :=
  ∃ r, skip r = [] ∧ ∀ {c : Char}, c = ',' ∨ c = ']' ∨ c = '}' → ∀ rest,
    Finds P (r ++ c :: rest) (read (skip (text ++ c :: rest)))

/-- A text in a row is read as it is read by itself. -/
theorem Spells.isPart (h : Spells e text j) (limits : Limits) (depth : Nat) :
    IsPart (valueIn e limits depth) (Reads e limits depth text) text := by
  obtain ⟨r, hr, hmatched⟩ := h.matched
  refine ⟨r, hr, fun {c} hc rest => ?_⟩
  have hmatched := hmatched limits depth hc rest
  generalize hrow : valueIn e limits depth (skip (text ++ c :: rest)) = front at hmatched ⊢
  generalize halone : valueIn e limits depth (skip text) = alone at hmatched
  cases hmatched with
  | ok related =>
    obtain ⟨rfl, rfl⟩ := related
    have hj : Reads e limits depth text j := ⟨r, halone, hr⟩
    exact .ok fun i => ⟨hj.eq, fun hi => hi ▸ hj⟩
  | error fault left right =>
    refine .error (fun i hi => ?_) _
    obtain ⟨r', hvalue, -⟩ := hi
    cases halone.symm.trans hvalue

/-- Whether a reader of rows reads one part after another. -/
def IsRow (close : Char) (unclosed expected : Fault)
    (part : List Char → Except Stop (α × List Char))
    (row : List Char → Except Stop (List α × List Char)) : Prop :=
  ∀ cs, row cs = do
    let (a, rest) ← part cs
    let (more, rest) ← nextPart close unclosed expected rest
    if more then
      let (as, rest) ← row rest
      return (a :: as, rest)
    else
      return ([a], rest)

/-- Texts with commas between them. -/
def joined (texts : List (List Char)) : List Char := [','].intercalate texts

theorem joined_singleton (t : List Char) : joined [t] = t := List.intercalate_singleton

theorem joined_cons (t t' : List Char) (ts : List (List Char)) (rest : List Char) :
    joined (t :: t' :: ts) ++ rest = t ++ ',' :: (joined (t' :: ts) ++ rest) := by
  simp [joined, List.intercalate_cons_cons]

/-- A row begins like its first part. -/
theorem skip_joined {t ds : List Char} {c : Char} (h : skip t = c :: ds) (ts : List (List Char))
    (rest : List Char) : ∃ ds, skip (joined (t :: ts) ++ rest) = c :: ds := by
  rcases ts with _ | ⟨t', ts⟩
  · exact ⟨_, by rw [joined_singleton, skip_append h]⟩
  · exact ⟨_, by rw [joined_cons, skip_append h]⟩

section Rows

variable {close : Char} {unclosed expected : Fault}
  {part : List Char → Except Stop (α × List Char)}
  {row : List Char → Except Stop (List α × List Char)} {P : ι → α → Prop} {toText : ι → List Char}

/-- **Rows.** In a row is found what is found in its parts. -/
theorem IsRow.finds (hrow : IsRow close unclosed expected part row)
    (hclose : close = ']' ∨ close = '}') {x : ι} {xs : List ι}
    (hparts : ∀ y ∈ x :: xs, IsPart part (P y) (toText y))
    (hbegins : ∀ y ∈ x :: xs, ∃ c ds, skip (toText y) = c :: ds ∧ c ≠ close) (rest : List Char) :
    Finds (List.Forall₂ P (x :: xs)) rest
      (row (skip (joined ((x :: xs).map toText) ++ close :: rest))) := by
  have hspace : isSpace close = false := by rcases hclose with rfl | rfl <;> decide
  have hcomma : close ≠ ',' := by rcases hclose with rfl | rfl <;> decide
  induction xs generalizing x with
  | nil =>
    obtain ⟨r, hr, hread⟩ := hparts x List.mem_cons_self
    rw [List.map_singleton, joined_singleton, hrow]
    refine ((hread (.inr hclose) rest).bind (Q := fun a as => [a] = as) fun a _ => ?_).imp ?_
    · dsimp only
      rw [nextPart_close hspace hr]
      exact .pure [a] rest
    · intro as
      simp [List.forall₂_cons_left_iff, eq_comm]
  | cons x' xs ih =>
    obtain ⟨hx, hxs⟩ := List.forall_mem_cons.1 hparts
    obtain ⟨-, hbegins⟩ := List.forall_mem_cons.1 hbegins
    obtain ⟨r, hr, hread⟩ := hx
    obtain ⟨c, ds, hskip, hc⟩ := hbegins x' List.mem_cons_self
    obtain ⟨ds, hmore⟩ := skip_joined hskip (xs.map toText) (close :: rest)
    have hrest := ih hxs hbegins
    rw [List.map_cons, List.map_cons, joined_cons, hrow]
    refine ((hread (.inl rfl) _).bind
      (Q := fun a as => ∃ bs, List.Forall₂ P (x' :: xs) bs ∧ a :: bs = as) fun a _ => ?_).imp ?_
    · dsimp only
      rw [nextPart_comma hcomma hr hmore hc, ← hmore]
      exact hrest.bind fun as _ => .pure (a :: as) rest
    · intro as
      rw [List.forall₂_cons_left_iff]
      constructor
      · rintro ⟨a, ha, bs, hbs, rfl⟩
        exact ⟨a, bs, ha, hbs, rfl⟩
      · rintro ⟨a, bs, ha, hbs, rfl⟩
        exact ⟨a, ha, bs, hbs, rfl⟩

end Rows

/-- Whether a text holds texts between two signs, with commas between them. -/
def Enclosed (opening closing : Char) (texts : List (List Char)) (text : List Char) : Prop :=
  ∃ before inside behind, skip before = [] ∧ skip inside = [] ∧ skip behind = [] ∧
    text = before ++ opening :: (inside ++ (joined texts ++ closing :: behind))

/-- Whether a text is read as a value that stands one level deeper. -/
def ReadsWithin (e : Encoding) (limits : Limits) (depth : Nat) (text : List Char) (j : Json) :
    Prop :=
  0 < depth ∧ Reads e limits (depth - 1) text j

theorem ReadsWithin.eq (h : ReadsWithin e limits depth text i)
    (h' : ReadsWithin e limits depth text j) : i = j :=
  h.2.eq h'.2

/-! ## Lists -/

theorem itemsIn_isRow (e : Encoding) (limits : Limits) (depth : Nat) :
    IsRow ']' .endInList .expectedListEnd (valueIn e limits depth) (itemsIn e limits depth) := by
  intro cs
  simp only [itemsIn_eq cs, nextItem_eq]

/-- **Lists.** The text of a list is read as its items are. -/
theorem reads_array_iff {texts : List (List Char)} (henclosed : Enclosed '[' ']' texts text)
    (htexts : ∀ t ∈ texts, ∃ j, Spells e t j) :
    Reads e limits depth text j ↔
      ∃ js, j = .array js ∧ List.Forall₂ (ReadsWithin e limits depth) texts js := by
  obtain ⟨before, inside, behind, hbefore, hinside, hbehind, rfl⟩ := henclosed
  have hskip : skip (before ++ '[' :: (inside ++ (joined texts ++ ']' :: behind))) =
      '[' :: (inside ++ (joined texts ++ ']' :: behind)) := by
    rw [skip_append_of_blank hbefore, skip_cons _ (by decide)]
  refine reads_iff_of_finds
    (P := fun i => ∃ js, i = .array js ∧ List.Forall₂ (ReadsWithin e limits depth) texts js)
    hskip ?_ hbehind
  rw [valueIn_list, skip_append_of_blank hinside]
  rcases texts with _ | ⟨t, texts⟩
  · refine .ok fun b => ?_
    simp [eq_comm]
  · have hbegins (t' : List Char) (ht' : t' ∈ t :: texts) :
        ∃ c ds, skip t' = c :: ds ∧ c ≠ ']' := by
      obtain ⟨j, hj⟩ := htexts t' ht'
      exact hj.begins
    have hparts (t' : List Char) (ht' : t' ∈ t :: texts) :
        IsPart (valueIn e limits (depth - 1)) (Reads e limits (depth - 1) t') t' := by
      obtain ⟨j, hj⟩ := htexts t' ht'
      exact hj.isPart limits (depth - 1)
    obtain ⟨c, ds, hc, hclose⟩ := hbegins t List.mem_cons_self
    obtain ⟨ds, hrow⟩ := skip_joined hc texts (']' :: behind)
    have hfinds := (itemsIn_isRow e limits (depth - 1)).finds (.inl rfl) hparts hbegins behind
    rw [List.map_id', hrow] at hfinds
    rw [hrow]
    dsimp only
    rw [if_neg hclose]
    by_cases hdepth : depth = 0
    · rw [if_pos hdepth]
      refine .error (fun b hb => ?_) _
      obtain ⟨js, -, hjs⟩ := hb
      cases hjs with
      | cons h _ => exact absurd hdepth (Nat.ne_of_gt h.1)
    · rw [if_neg hdepth]
      refine (hfinds.bind fun js _ => .pure (array js) behind).imp fun b => ?_
      have hwithin : ReadsWithin e limits depth = Reads e limits (depth - 1) := by
        funext t' i
        simp [ReadsWithin, Nat.pos_of_ne_zero hdepth]
      simp only [hwithin, eq_comm, and_comm]

/-! ## Objects -/

/-- The member of an object: a key with its colon, and the text of a value. -/
structure Member (e : Encoding) where
  name : String
  key : List Char
  value : List Char
  names : Names e name key
  spells : ∃ j, Spells e value j

/-- The text of a member. -/
def Member.spelling (m : Member e) : List Char := m.key ++ m.value

/-- Whether a member is read as an entry of an object that may be nested so deep. -/
def Member.Reads (limits : Limits) (depth : Nat) (m : Member e) (entry : String × Json) : Prop :=
  m.name = entry.1 ∧ ReadsWithin e limits depth m.value entry.2

/-- An entry of an object. -/
def entryIn (e : Encoding) (limits : Limits) (depth : Nat) (cs : List Char) :
    Except Stop ((String × Json) × List Char) := do
  let (k, rest) ← key e cs
  if depth = 0 ∧ rest ≠ [] then
    throw ⟨.tooDeep, rest⟩
  let (j, rest) ← valueIn e limits (depth - 1) rest
  return ((k, j), rest)

theorem entriesIn_isRow (e : Encoding) (limits : Limits) (depth : Nat) :
    IsRow '}' .endInObject .expectedObjectEnd (entryIn e limits depth)
      (entriesIn e limits depth) := by
  intro cs
  rw [entriesIn_eq, entryIn, bind_assoc]
  refine bind_congr_ok fun k r _ => ?_
  dsimp only
  split
  · rfl
  · simp only [nextEntry_eq, bind_assoc, pure_bind]

/-- A member in the text of an object is read as its value is read by itself. -/
theorem Member.isPart (m : Member e) (limits : Limits) (depth : Nat) :
    IsPart (entryIn e limits depth) (m.Reads limits depth) m.spelling := by
  obtain ⟨j, hj⟩ := m.spells
  obtain ⟨r, hr, hpart⟩ := hj.isPart limits (depth - 1)
  refine ⟨r, hr, fun {c} hc rest => ?_⟩
  obtain ⟨d, ds, hvalue, -⟩ := hj.begins.skip_append (c :: rest)
  have hfinds := hpart hc rest
  rw [hvalue] at hfinds
  rw [Member.spelling, List.append_assoc, entryIn, m.names.key_eq, hvalue]
  by_cases hdepth : depth = 0
  · subst hdepth
    refine .error (fun x hx => ?_) _
    exact absurd hx.2.1 (Nat.lt_irrefl 0)
  · simp only [ok_bind, hdepth, false_and, if_false]
    refine (hfinds.bind fun i _ => .pure (m.name, i) (r ++ c :: rest)).imp fun x => ?_
    obtain ⟨name, i⟩ := x
    simp [Member.Reads, ReadsWithin, Nat.pos_of_ne_zero hdepth, and_comm]

/-- **Objects.** The text of an object is read as the values of its members are. -/
theorem reads_object_iff {ms : List (Member e)}
    (henclosed : Enclosed '\x7b' '}' (ms.map Member.spelling) text) :
    Reads e limits depth text j ↔
      ∃ es, j = .object (table es) ∧ List.Forall₂ (Member.Reads limits depth) ms es := by
  obtain ⟨before, inside, behind, hbefore, hinside, hbehind, rfl⟩ := henclosed
  have hskip : skip (before ++ '\x7b' :: (inside ++
      (joined (ms.map Member.spelling) ++ '}' :: behind))) =
      '\x7b' :: (inside ++ (joined (ms.map Member.spelling) ++ '}' :: behind)) := by
    rw [skip_append_of_blank hbefore, skip_cons _ (by decide)]
  refine reads_iff_of_finds
    (P := fun i => ∃ es, i = .object (table es) ∧ List.Forall₂ (Member.Reads limits depth) ms es)
    hskip ?_ hbehind
  rw [valueIn_table, skip_append_of_blank hinside]
  rcases ms with _ | ⟨m, ms⟩
  · refine .ok fun b => ?_
    simp [table, eq_comm]
  · have hbegins (m' : Member e) : ∃ c ds, skip m'.spelling = c :: ds ∧ c ≠ '}' := by
      obtain ⟨ds, hds⟩ := m'.names.skip_append m'.value
      exact ⟨_, ds, hds, by decide⟩
    obtain ⟨c, ds, hc, hclose⟩ := hbegins m
    obtain ⟨ds, hrow⟩ := skip_joined hc (ms.map Member.spelling) ('}' :: behind)
    have hfinds := (entriesIn_isRow e limits depth).finds (.inr rfl)
      (fun m' _ => m'.isPart limits depth) (fun m' (_ : m' ∈ m :: ms) => hbegins m') behind
    rw [List.map_cons, hrow] at hfinds
    rw [List.map_cons, hrow]
    dsimp only
    rw [if_neg hclose]
    refine (hfinds.bind fun es _ => .pure (object (table es)) behind).imp fun b => ?_
    simp only [eq_comm, and_comm]

/-- Members begin with the quote of a key. -/
theorem skip_members (before : List (Member e)) (m : Member e) (rest : List Char) :
    ∃ ds, skip (withCommas (before.map Member.spelling) ++ (m.spelling ++ rest)) = '"' :: ds := by
  have hentries (t : List Char) (ht : t ∈ before.map Member.spelling) : IsEntry e t := by
    obtain ⟨m', -, rfl⟩ := List.mem_map.1 ht
    obtain ⟨j, hj⟩ := m'.spells
    exact ⟨m'.key, m'.value, m'.name, j, rfl, m'.names, hj⟩
  rw [Member.spelling, List.append_assoc]
  exact skip_withCommas m.names hentries (m.value ++ rest)

/-- The entries of an object are refused where the first of their values is that is not read. -/
theorem entriesIn_stop {before : List (Member e)} {m : Member e} {stop : Stop}
    (hbefore : ∀ m' ∈ before, ∃ entry, m'.Reads limits depth entry) (hdepth : 0 < depth)
    (hstop : valueIn e limits (depth - 1) (skip (m.value ++ rest)) = .error stop) :
    entriesIn e limits depth
      (skip (withCommas (before.map Member.spelling) ++ (m.spelling ++ rest))) = .error stop := by
  induction before with
  | nil =>
    rw [List.map_nil, withCommas, List.flatMap_nil, List.nil_append, entriesIn_eq, Member.spelling,
      List.append_assoc, m.names.key_eq, ok_bind]
    simp only [Nat.ne_of_gt hdepth, false_and, if_false, hstop]
    rfl
  | cons m' before ih =>
    obtain ⟨⟨entry, hentry⟩, hbefore⟩ := List.forall_mem_cons.1 hbefore
    obtain ⟨r, hr, hpart⟩ := m'.isPart limits depth
    have hrest := ih hbefore
    obtain ⟨ds, hds⟩ := skip_members before m rest
    rw [List.map_cons, withCommas_cons, entriesIn_isRow e limits depth]
    have hfinds := hpart (.inl rfl) (withCommas (before.map Member.spelling) ++ (m.spelling ++ rest))
    generalize entryIn e limits depth _ = front at hfinds ⊢
    cases hfinds with
    | error none stop => exact absurd hentry (none entry)
    | ok only =>
      rw [ok_bind]
      dsimp only
      rw [nextPart_comma (by decide) hr hds (by decide), ← hds]
      simp only [ok_bind, if_true, hrest]
      rfl

/-- So is the text of the object. -/
theorem document_stop {before : List (Member e)} {m : Member e} {stop : Stop}
    (hbefore : ∀ m' ∈ before, ∃ entry, m'.Reads limits limits.depth entry)
    (hdepth : 0 < limits.depth)
    (hstop : valueIn e limits (limits.depth - 1) (skip (m.value ++ rest)) = .error stop) :
    document e limits
      ('\x7b' :: (withCommas (before.map Member.spelling) ++ (m.spelling ++ rest))) =
        .error stop := by
  have hentries := entriesIn_stop hbefore hdepth hstop
  obtain ⟨ds, hds⟩ := skip_members before m rest
  rw [hds] at hentries
  rw [document_eq, skip_cons _ (by decide), valueIn_table, hds]
  simp only [Char.reduceEq, if_false, hentries]
  rfl

/-! ## Members with one name -/

/-- Of entries with one name the last one counts. -/
theorem lookup_table (es : List (String × α)) (name : String) :
    (table es).lookup name = (es.filter (·.1 = name)).getLast?.map Prod.snd := by
  induction es using List.reverseRecOn with
  | nil => rfl
  | append_singleton es x ih =>
    have hput : table (es ++ [x]) = put x.1 x.2 (table es) := List.foldl_append ..
    rw [hput, List.filter_append]
    by_cases hx : x.1 = name
    · rw [← hx, lookup_put_self]
      simp
    · rw [lookup_put_of_ne (Ne.symm hx), ih]
      simp [hx]

end Diagnostics.Json
