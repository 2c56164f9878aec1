import Diagnostics.Data.Outline
import Mathlib.Data.List.Forall2

/-!
# What an outline says, however it is laid out

Laying out an outline adds blanks and line breaks between its parts, and nothing else but these
depends on the width. `strip` takes them out again: it goes through a text and leaves out what is
blank outside of quotes, where a text that is quoted may hold blanks of its own. `Bare xs t` says
that `t` is left of `xs`, and that `xs` ends outside of quotes, so that what is bare can be put
together (`Bare.append`).

An outline spells a text if the text is left of it both on one line and on many
(`Outline.Spells`). A leaf spells what is left of its text, and a branch what its parts spell
between commas (`Spells.branch`).
-/

namespace Diagnostics.Outline

variable {xs ys t u : List Char}

/-! ## Texts without blanks -/

/-- Where a character stands: outside of quotes, between marks, or behind a backslash between
marks. -/
inductive Place where
  | outside
  | quoted (mark : Char)
  | escaped (mark : Char)
  deriving DecidableEq

namespace Place

/-- Where the next character stands. -/
def next : Place → Char → Place
  | outside, c => if c = Quoted.apostrophe ∨ c = Quoted.doubleQuote then quoted c else outside
  | quoted mark, c => if c = mark then outside else if c = '\\' then escaped mark else quoted mark
  | escaped mark, _ => quoted mark

/-- Whether a character says nothing at its place. -/
def drops : Place → Char → Bool
  | outside, c => c == ' ' || c == '\n'
  | _, _ => false

end Place

/-- A text without blanks outside of quotes, and where the character behind it stands. -/
def strip : Place → List Char → List Char × Place
  | p, [] => ([], p)
  | p, c :: cs =>
    let (rest, q) := strip (p.next c) cs
    (if p.drops c then rest else c :: rest, q)

/-- A text is stripped part by part, each in the place that the part before leads to. -/
theorem strip_append (p : Place) (xs ys : List Char) :
    strip p (xs ++ ys) =
      ((strip p xs).1 ++ (strip (strip p xs).2 ys).1, (strip (strip p xs).2 ys).2) := by
  induction xs generalizing p with
  | nil => rfl
  | cons x xs ih =>
    rw [List.cons_append, strip, strip, ih]
    dsimp only
    split <;> rfl

/-- Whether a text ends outside of quotes, and what is left of it without blanks there. -/
def Bare (xs t : List Char) : Prop := strip .outside xs = (t, .outside)

instance (xs t : List Char) : Decidable (Bare xs t) :=
  inferInstanceAs (Decidable (strip .outside xs = (t, .outside)))

namespace Bare

theorem nil : Bare [] [] := rfl

theorem unique (h : Bare xs t) (h' : Bare xs u) : t = u := congrArg Prod.fst (h.symm.trans h')

/-- Bare parts are bare together. -/
theorem append (hx : Bare xs t) (hy : Bare ys u) : Bare (xs ++ ys) (t ++ u) := by
  rw [Bare, strip_append, hx, hy]

/-- A text without quotes and blanks is bare. -/
theorem of_forall (h : ∀ c ∈ xs, Place.outside.next c = .outside ∧ Place.outside.drops c = false) :
    Bare xs xs := by
  induction xs with
  | nil => exact nil
  | cons x xs ih =>
    obtain ⟨⟨hnext, hdrops⟩, hxs⟩ := List.forall_mem_cons.1 h
    rw [Bare, strip, hnext, ih hxs, hdrops]
    rfl

/-- Indentation is blank and says nothing. -/
theorem indented (n : Nat) (h : Bare xs t) : Bare (Outline.indented n xs) t := by
  induction n with
  | zero => exact h
  | succ n ih =>
    rw [Outline.indented, List.replicate_succ, List.cons_append, Bare, strip]
    exact ih

end Bare

/-! ## Rows of texts -/

theorem join_cons (separator t : List Char) (ts : List (List Char)) :
    Data.join separator (t :: ts) = t ++ ts.flatMap (separator ++ ·) := by
  induction ts generalizing t with
  | nil => rw [List.flatMap_nil, List.append_nil, Data.join]
  | cons u us ih =>
    rw [Data.join, ih, List.flatMap_cons, List.append_assoc, List.append_assoc]
    exact List.cons_ne_nil u us

namespace Bare

/-- Of texts behind separators, what is left of the texts is behind what is left of the
separators. -/
theorem flatMap {separator bareSeparator : List Char} {xss ts : List (List Char)}
    (hseparator : Bare separator bareSeparator) (h : List.Forall₂ Bare xss ts) :
    Bare (xss.flatMap (separator ++ ·)) (ts.flatMap (bareSeparator ++ ·)) := by
  induction h with
  | nil => exact nil
  | cons hx _ ih => exact (hseparator.append hx).append ih

theorem comma : Bare [','] [','] := rfl

/-- Behind a comma there is a blank, which is left out. -/
theorem commas {xss ts : List (List Char)} (h : List.Forall₂ Bare xss ts) :
    Bare (Data.commas xss) (Data.join [','] ts) := by
  cases h with
  | nil => exact nil
  | cons hx hxs =>
    rw [Data.commas, join_cons, join_cons]
    exact hx.append (.flatMap rfl hxs)

end Bare

/-- Whether a text is left of lines, each of them behind a line break. -/
def Lined (ls : List (List Char)) (t : List Char) : Prop := Bare (ls.flatMap (['\n'] ++ ·)) t

namespace Lined

variable {ls ms : List (List Char)}

theorem nil : Lined [] [] := Bare.nil

theorem cons {l : List Char} (hl : Bare l t) (hls : Lined ls u) : Lined (l :: ls) (t ++ u) :=
  Bare.append (hl : Bare (['\n'] ++ l) t) hls

theorem append (hls : Lined ls t) (hms : Lined ms u) : Lined (ls ++ ms) (t ++ u) := by
  rw [Lined, List.flatMap_append]
  exact Bare.append hls hms

/-- One line is bare if its text is. -/
theorem single (h : Bare xs t) : Lined [xs] t := by
  have hline := cons h nil
  rwa [List.append_nil] at hline

/-- The same is left of the lines put together. -/
theorem join (h : Lined ls t) : Bare (Data.join ['\n'] ls) t := by
  cases ls with
  | nil => exact h
  | cons l ls => rw [join_cons]; exact h

end Lined

/-! ## Outlines -/

/-- Whether a text is left of an outline on one line, and of all its lines however it is laid
out. -/
structure Spells (o : Outline) (t : List Char) : Prop where
  inline : Bare o.inline t
  lines : ∀ (s : Settings) (indent : Nat) {key ending : List Char} (following : Nat)
    {k e : List Char}, Bare key k → Bare ending e →
      Lined (o.lines s indent key following ending) (k ++ t ++ e)

/-- Whether a text is left of a part with the text in front of it. -/
def PartSpells (p : List Char × Outline) (t : List Char) : Prop :=
  ∃ k u, Bare p.1 k ∧ p.2.Spells u ∧ k ++ u = t

variable {parts : List (List Char × Outline)} {ts : List (List Char)}

theorem Spells.leaf (h : Bare xs t) : (leaf xs).Spells t where
  inline := by
    rw [Outline.inline]
    exact h
  lines s indent _ _ following _ _ hkey hending := by
    rw [Outline.lines]
    exact .single (((hkey.append h).append hending).indented indent)

/-- Parts on one line are bare if each of them spells its part. -/
theorem inlineParts_bare (h : List.Forall₂ PartSpells parts ts) :
    List.Forall₂ Bare (inlineParts parts) ts := by
  induction h with
  | nil => exact .nil
  | @cons p _ _ _ hpart _ ih =>
    obtain ⟨k, u, hk, hu, rfl⟩ := hpart
    exact .cons (hk.append hu.inline) ih

/-- The lines of parts leave the parts between commas, and the comma behind a single one. -/
theorem partLines_lined (s : Settings) (indent : Nat) (single : Bool)
    (h : List.Forall₂ PartSpells parts ts) :
    Lined (partLines s indent single parts)
      (Data.join [','] ts ++ if single && !ts.isEmpty then [','] else []) := by
  induction h with
  | nil => cases single <;> exact Lined.nil
  | @cons p t parts ts hpart hparts ih =>
    obtain ⟨k, u, hk, hu, rfl⟩ := hpart
    have hline {ending e : List Char} (hending : Bare ending e) :=
      hu.lines s indent (if single then 1 else 2) hk hending
    rw [partLines]
    cases hparts with
    | nil =>
      cases single
      · simpa [Data.join, partLines] using (hline .nil).append .nil
      · simpa [Data.join, partLines] using (hline .comma).append .nil
    | @cons _ t' _ ts' _ _ =>
      have hrow : Data.join [','] ((k ++ u) :: t' :: ts') =
          k ++ u ++ [','] ++ Data.join [','] (t' :: ts') := rfl
      rw [hrow, List.append_assoc _ (Data.join [','] (t' :: ts'))]
      exact (hline .comma).append ih

/-- What is left of a branch whose parts leave `ts`. -/
def bareBranch (opening closing : List Char) (isTuple : Bool) (ts : List (List Char)) : List Char :=
  opening ++ (Data.join [','] ts ++ ((if isTuple && ts.length == 1 then [','] else []) ++ closing))

variable {opening closing a b : List Char} {isTuple : Bool}

/-- A branch on one line is bare if its parts are. -/
theorem inline_branch_bare (isTuple : Bool) (hopening : Bare opening a) (hclosing : Bare closing b)
    (h : List.Forall₂ PartSpells parts ts) :
    Bare (branch opening closing isTuple parts).inline (bareBranch a b isTuple ts) := by
  have hparts := inlineParts_bare h
  rw [Outline.inline, hparts.length_eq, bareBranch, List.append_assoc]
  refine hopening.append ((Bare.commas hparts).append ?_)
  split
  · exact .append .comma hclosing
  · exact hclosing

/-- **Branches.** Of a branch its parts between commas are left, whether it is opened or not. -/
theorem Spells.branch (hopening : Bare opening a) (hclosing : Bare closing b)
    (h : List.Forall₂ PartSpells parts ts) :
    (branch opening closing isTuple parts).Spells (bareBranch a b isTuple ts) where
  inline := inline_branch_bare isTuple hopening hclosing h
  lines s indent _ _ following _ _ hkey hending := by
    rw [Outline.lines]
    split
    · have hsingle : (isTuple && ts.length == 1 && !ts.isEmpty) = (isTuple && ts.length == 1) := by
        cases ts <;> simp
      have hfirst := (hkey.append hopening).indented indent
      have hlast := (hclosing.append hending).indented indent
      have hlines := partLines_lined s (indent + step) (isTuple && parts.length == 1) h
      rw [h.length_eq, hsingle] at hlines
      have hall := Lined.cons hfirst (hlines.append (.single hlast))
      rw [h.length_eq]
      simpa only [bareBranch, List.append_assoc] using hall
    · have hinline := inline_branch_bare isTuple hopening hclosing h
      exact .single (((hkey.append hinline).append hending).indented indent)

/-- A collection leaves the same as a branch, also when it is empty. -/
theorem Spells.bracket {empty : List Char} (hopening : Bare opening a) (hclosing : Bare closing b)
    (hempty : empty = opening ++ closing) (h : List.Forall₂ PartSpells parts ts) :
    (bracket opening closing isTuple empty parts).Spells (bareBranch a b isTuple ts) := by
  rw [Outline.bracket]
  cases h with
  | nil =>
    refine .leaf ?_
    simpa [bareBranch, Data.join, hempty] using hopening.append hclosing
  | cons hpart hparts => exact .branch hopening hclosing (.cons hpart hparts)

/-- **Layout.** Whatever the width, an outline says the same. -/
theorem Spells.render {o : Outline} (h : o.Spells t) (s : Settings) :
    Bare (o.render s).toList t := by
  have hlines := h.lines s 0 0 .nil .nil
  rw [List.append_nil] at hlines
  rw [Outline.render, String.toList_ofList]
  exact hlines.join

end Diagnostics.Outline
