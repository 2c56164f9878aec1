import Diagnostics.Proofs.Store.Literal

/-!
# Data is written as it shows

A value that shows as data does not show inside of itself (`Store.not_leads_of_unfold`). So it is
never cut short, and it is written as the literal form of the data that it shows, if calls enough may
be inside each other (`Store.literal_of_view`).
-/

namespace Diagnostics

namespace Frame

variable {l : Loc} {name : String} {fields : List (String × Value)}

/-- A frame with its parts written in some way. -/
def written (frame : Frame) (f : Value → Except Failure (List Char)) :
    Except Failure (List Char) := do
  let texts ← frame.parts.mapM fun p => do return p.1 ++ (← f p.2)
  return frame.fill texts

/-- A text without parts is written as it is. -/
theorem written_bare (text : String) (f : Value → Except Failure (List Char)) :
    (bare text).written f = .ok text.toList :=
  congrArg Except.ok (by simp [fill, bare, Data.commas, Data.join])

/-- Items have no texts of their own in front. -/
theorem mapM_itemParts (f : Value → Except Failure (List Char)) (vs : List Value) :
    ((Cell.itemParts vs).mapM fun p => do return p.1 ++ (← f p.2)) = vs.mapM f := by
  rw [Cell.itemParts, List.mapM_map]
  exact mapM_congr fun v _ => by simp

/-- A name in front of values is written as a call. -/
theorem written_call (name : String) (vs : List Value) (f : Value → Except Failure (List Char)) :
    (call name (Cell.itemParts vs)).written f = (do return Data.call name (← vs.mapM f)) := by
  rw [← mapM_itemParts, written]
  simp [fill, call, Data.call]

/-- A record that does not hold itself has its fields for parts. -/
theorem parts_record (h : .object l ∉ fields.map Prod.snd) :
    (record l name fields).parts = fields.map fun e => (e.1.toList ++ ['='], e.2) := by
  refine List.map_congr_left fun e he => ?_
  rw [if_neg]
  rintro heq
  exact h (heq ▸ List.mem_map_of_mem he)

/-- A record that does not hold itself is written as a call with its fields named. -/
theorem written_record (h : .object l ∉ fields.map Prod.snd) (f : Value → Except Failure (List Char)) :
    (record l name fields).written f =
      (do return Data.call name (← fields.mapM fun e => do return Data.named e.1 (← f e.2))) := by
  have hfields : ((record l name fields).parts.mapM fun p => do return p.1 ++ (← f p.2)) =
      fields.mapM fun e => do return Data.named e.1 (← f e.2) := by
    rw [parts_record h, List.mapM_map]
    refine mapM_congr fun e _ => ?_
    simp only [Function.comp_apply, Data.named, List.append_assoc, List.singleton_append]
  rw [written, hfields]
  simp [fill, record, call, Data.call]

end Frame

namespace Store

variable {σ : Store} {room : Nat} {opened : List Loc} {v w : Value} {l : Loc} {c : Cell}

/-! ## Objects inside of themselves -/

/-- What shows with an object is related to something where the object is. -/
theorem Unfolds.exists_of_mem_shown {R : Value → Data → Prop} {d : Data}
    (h : σ.Unfolds R (.object l) d) (hl : σ.get? l = some c) (hv : v ∈ c.shown) : ∃ e, R v e := by
  have same : ∀ {c'}, σ.get? l = some c' → v ∈ c'.shown := by
    intro c' hc'
    rwa [← Option.some.inj (hl.symm.trans hc')]
  cases h with
  | list cell items | tuple cell items | set cell items =>
    obtain ⟨e, -, he⟩ := exists_of_mem_left items (same cell)
    exact ⟨e, he⟩
  | table cell entries =>
    obtain ⟨w, hw, rfl⟩ := List.mem_map.1 (same cell)
    obtain ⟨e, -, -, he⟩ := exists_of_mem_left entries hw
    exact ⟨_, he⟩
  | iterator cell | range cell | buffer cell => cases same cell
  | slice cell | byteRange cell | label cell | diagnostic cell =>
    have hmem := same cell
    simp only [Cell.shown, Cell.held, List.mem_cons, List.not_mem_nil, or_false] at hmem
    rcases hmem with rfl | rfl | rfl | rfl | rfl <;> exact ⟨_, ‹_›⟩

/-- What shows with a value that unfolds unfolds too. -/
theorem Leads.exists_unfold {n : Nat} {k : Loc} (h : σ.Leads Cell.shown v k) {d : Data}
    (hv : σ.unfold n v = some d) : ∃ e, σ.unfold n (.object k) = some e := by
  induction h generalizing n d with
  | here l => exact ⟨d, hv⟩
  | through cell mem _ ih =>
    cases n with
    | zero => cases hv
    | succ n =>
      obtain ⟨e, he⟩ := (unfold_succ_iff.1 hv).exists_of_mem_shown cell mem
      obtain ⟨e', he'⟩ := ih he
      exact ⟨e', unfold_mono (.refl σ) (Nat.le_succ n) he'⟩

/-- An object that unfolds does not show inside of itself. -/
theorem not_leads_of_unfold {n : Nat} {d : Data} (h : σ.unfold n (.object l) = some d)
    (hl : σ.get? l = some c) (hv : v ∈ c.shown) : ¬ σ.Leads Cell.shown v l := by
  intro hway
  induction n generalizing d with
  | zero => cases h
  | succ n ih =>
    obtain ⟨e, he⟩ := (unfold_succ_iff.1 h).exists_of_mem_shown hl hv
    obtain ⟨d', hd'⟩ := hway.exists_unfold he
    exact ih hd'

/-! ## Frames around data -/

theorem mapM_eq_literals {f : Value → Except Failure (List Char)} {vs : List Value}
    {ds : List Data} (h : List.Forall₂ (fun v d => f v = d.literal) vs ds) :
    vs.mapM f = Data.literals ds := by
  induction h with
  | nil => rfl
  | cons hv _ ih => rw [List.mapM_cons, ih, Data.literals, hv]

theorem mapM_eq_entryLiterals {f : Value → Except Failure (List Char)}
    {ws : List (String × Value)} {es : List (String × Data)}
    (h : List.Forall₂ (fun w e => w.1 = e.1 ∧ f w.2 = e.2.literal) ws es) :
    ((ws.map fun w => (Quoted.text w.1 ++ [':', ' '], w.2)).mapM fun p => do
      return p.1 ++ (← f p.2)) = Data.entryLiterals es := by
  induction h with
  | nil => rfl
  | @cons w e ws es hw _ ih =>
    obtain ⟨hkey, hv⟩ := hw
    rw [List.map_cons, List.mapM_cons, ih, Data.entryLiterals]
    simp [hkey, hv]

theorem length_of_literals {ds : List Data} {ts : List (List Char)} (h : Data.literals ds = .ok ts) :
    ts.length = ds.length := by
  induction ds generalizing ts with
  | nil =>
    cases h
    rfl
  | cons d ds ih =>
    rw [Data.literals] at h
    rcases hd : d.literal with e | t
    · simp [hd, bind, Except.bind] at h
    rcases hds : Data.literals ds with e | ts'
    · simp [hd, hds, bind, Except.bind] at h
    · simp only [hd, hds, bind, Except.bind, pure, Except.pure, Except.ok.injEq] at h
      rw [← h, List.length_cons, List.length_cons, ih hds]

/-- What shows with an object is among its parts, but for the object itself. -/
theorem exists_part_of_mem_shown (hw : w ∈ c.shown) (hself : .object l ∉ c.shown) :
    ∃ p ∈ (c.frame l).parts, p.2 = w := by
  have item : ∀ {items : List Value}, w ∈ items → ∃ p ∈ Cell.itemParts items, p.2 = w :=
    fun hmem => ⟨_, List.mem_map_of_mem hmem, rfl⟩
  have field : ∀ {name : String} {fields : List (String × Value)},
      .object l ∉ fields.map Prod.snd → w ∈ fields.map Prod.snd →
      ∃ p ∈ (Frame.record l name fields).parts, p.2 = w := by
    intro name fields hfields hmem
    obtain ⟨e, he, rfl⟩ := List.mem_map.1 hmem
    rw [Frame.parts_record hfields]
    exact ⟨_, List.mem_map_of_mem he, rfl⟩
  cases c with
  | list | tuple | slice => exact item hw
  | table entries =>
    obtain ⟨e, he, rfl⟩ := List.mem_map.1 hw
    exact ⟨_, List.mem_map_of_mem he, rfl⟩
  | set items =>
    cases items with
    | nil => cases hw
    | cons => exact item hw
  | iterator | buffer | range => cases hw
  | byteRange | label | diagnostic => exact field hself hw

/-- A frame around the literals of what an object holds is the literal of the data. -/
theorem written_of_unfolds {R : Value → Data → Prop} {d : Data} (h : σ.Unfolds R (.object l) d)
    (hl : σ.get? l = some c) (hself : .object l ∉ c.shown)
    {f : Value → Except Failure (List Char)} (hf : ∀ w ∈ c.shown, ∀ e, R w e → f w = e.literal)
    (hint : ∀ p ∈ (c.frame l).parts, ∀ k, p.2 = .int k → f p.2 = Data.integerText k) :
    (c.frame l).written f = d.literal := by
  have items : ∀ vs ds, c.shown = vs → List.Forall₂ R vs ds →
      ((Cell.itemParts vs).mapM fun p => do return p.1 ++ (← f p.2)) = Data.literals ds := by
    rintro vs ds rfl hvs
    rw [Frame.mapM_itemParts]
    exact mapM_eq_literals (forall₂_imp_of_mem hvs hf)
  cases h with
  | @list _ vs ds cell hvs =>
    obtain rfl := Option.some.inj (hl.symm.trans cell)
    rw [Data.literal, ← items vs ds rfl hvs]
    rfl
  | @tuple _ vs ds cell hvs =>
    obtain rfl := Option.some.inj (hl.symm.trans cell)
    rw [Data.literal, Cell.frame, Frame.written, items vs ds rfl hvs]
    rcases hts : Data.literals ds with e | ts
    · rfl
    · simp [Frame.fill, hvs.length_eq, length_of_literals hts]
  | table cell entries =>
    obtain rfl := Option.some.inj (hl.symm.trans cell)
    have hentries := mapM_eq_entryLiterals (forall₂_imp_of_mem entries fun w hw e he =>
      ⟨he.1, hf _ (List.mem_map_of_mem hw) _ he.2⟩)
    rw [Data.literal, ← hentries]
    rfl
  | @set _ vs ds cell hvs =>
    obtain rfl := Option.some.inj (hl.symm.trans cell)
    cases hvs with
    | nil => exact Frame.written_bare _ f
    | @cons w e vs ds hw hvs =>
      rw [Data.literal, Cell.frame, List.isEmpty_cons, if_neg Bool.false_ne_true, Frame.written,
        items (w :: vs) (e :: ds) rfl (.cons hw hvs)]
      rcases hts : Data.literals (e :: ds) with e' | ts
      · rfl
      · have hlength := length_of_literals hts
        cases ts with
        | nil => cases hlength
        | cons => simp [Frame.fill]
  | iterator cell =>
    obtain rfl := Option.some.inj (hl.symm.trans cell)
    exact Frame.written_bare _ f
  | @range _ start stop step cell =>
    obtain rfl := Option.some.inj (hl.symm.trans cell)
    have hinteger : ∀ k ∈ (if step = 1 then [start, stop] else [start, stop, step]),
        f (.int k) = Data.integerText k := by
      intro k hk
      exact hint ([], .int k) (List.mem_map_of_mem (List.mem_map_of_mem hk)) k rfl
    rw [Data.literal, Data.rangeText, Cell.frame, Frame.written_call]
    by_cases hstep : step = 1
    · simp only [hstep, if_true, List.forall_mem_cons] at hinteger ⊢
      obtain ⟨hstart, hstop, -⟩ := hinteger
      simp [hstart, hstop]
    · simp only [hstep, if_false, List.forall_mem_cons] at hinteger ⊢
      obtain ⟨hstart, hstop, hstep, -⟩ := hinteger
      simp [hstart, hstop, hstep]
  | slice cell first second third =>
    obtain rfl := Option.some.inj (hl.symm.trans cell)
    have hstart := hf _ (.head _) _ first
    have hstop := hf _ (.tail _ (.head _)) _ second
    have hstep := hf _ (.tail _ (.tail _ (.head _))) _ third
    rw [Data.literal, Cell.frame, Frame.written_call]
    simp [hstart, hstop, hstep]
  | buffer cell =>
    obtain rfl := Option.some.inj (hl.symm.trans cell)
    rw [Data.literal]
    exact congrArg Except.ok (by simp [Cell.frame, Frame.fill, Data.commas, Data.join])
  | byteRange cell start stop =>
    obtain rfl := Option.some.inj (hl.symm.trans cell)
    have hstart := hf _ (.head _) _ start
    have hstop := hf _ (.tail _ (.head _)) _ stop
    rw [Data.literal, Cell.frame, Frame.written_record hself]
    simp [Cell.fields?, hstart, hstop]
  | label cell style file range message =>
    obtain rfl := Option.some.inj (hl.symm.trans cell)
    have hstyle := hf _ (.head _) _ style
    have hfile := hf _ (.tail _ (.head _)) _ file
    have hrange := hf _ (.tail _ (.tail _ (.head _))) _ range
    have hmessage := hf _ (.tail _ (.tail _ (.tail _ (.head _)))) _ message
    rw [Data.literal, Cell.frame, Frame.written_record hself]
    simp [Cell.fields?, hstyle, hfile, hrange, hmessage]
  | diagnostic cell severity code message labels notes =>
    obtain rfl := Option.some.inj (hl.symm.trans cell)
    have hseverity := hf _ (.head _) _ severity
    have hcode := hf _ (.tail _ (.head _)) _ code
    have hmessage := hf _ (.tail _ (.tail _ (.head _))) _ message
    have hlabels := hf _ (.tail _ (.tail _ (.tail _ (.head _)))) _ labels
    have hnotes := hf _ (.tail _ (.tail _ (.tail _ (.tail _ (.head _))))) _ notes
    rw [Data.literal, Cell.frame, Frame.written_record hself]
    simp [Cell.fields?, hseverity, hcode, hmessage, hlabels, hnotes]

/-! ## Data -/

/-- What is no object unfolds at once. -/
theorem unfold_zero_of_ne_object {n : Nat} {d : Data} (hv : ∀ l, v ≠ .object l)
    (h : σ.unfold n v = some d) : σ.unfold 0 v = some d := by
  cases v with
  | object l => exact absurd rfl (hv l)
  | _ => cases n <;> exact h

/-- A value that shows as data is written as that data is, if calls enough may be inside each
other. -/
theorem literal_of_unfold {n waiting : Nat} {d : Data} (hv : σ.unfold n v = some d)
    (hopened : ∀ k ∈ opened, ¬ σ.Leads Cell.shown v k)
    (hroom : ¬ σ.Obstructs (room - waiting) opened v .tooManyCalls) :
    σ.literal room waiting opened v = d.literal := by
  induction room generalizing n waiting opened v d with
  | zero =>
    rw [Nat.zero_sub] at hroom
    exact absurd (.tooDeep (.here _ _) (Nat.zero_le _)) hroom
  | succ room ih =>
    cases waiting with
    | succ waiting =>
      rw [Nat.add_sub_add_right] at hroom
      rw [literal]
      exact ih hv hopened hroom
    | zero =>
      rw [Nat.sub_zero] at hroom
      have hcalls : ¬ room < v.calls σ.stack := fun h => hroom (.tooDeep (.here _ _) (by omega))
      cases v with
      | object l =>
        obtain ⟨n, rfl⟩ : ∃ m, n = m + 1 := by
          cases n with
          | zero => cases hv
          | succ m => exact ⟨m, rfl⟩
        have hout : l ∉ opened := fun hl => hopened l hl (.here l)
        rcases hl : σ.get? l with _ | c
        · rw [unfold, hl] at hv
          cases hv
        have hself : .object l ∉ c.shown := fun h => not_leads_of_unfold hv hl h (.here l)
        have clear : ∀ p ∈ (c.frame l).parts,
            ¬ σ.Obstructs (room - c.between σ.stack) (l :: opened) p.2 .tooManyCalls :=
          fun p hp h => hroom ((obstructs_iff_parts hl fun h => absurd h hout).2 ⟨p, hp, h⟩)
        rw [literal_object hl, if_neg hout]
        refine written_of_unfolds (unfold_succ_iff.1 hv) hl hself ?_ ?_
        · intro w hw e he
          obtain ⟨p, hp, rfl⟩ := exists_part_of_mem_shown hw hself
          refine ih he (List.forall_mem_cons.2 ⟨not_leads_of_unfold hv hl hw, ?_⟩) (clear p hp)
          exact fun k hk hway => hopened k hk (.through hl hw hway)
        · intro p hp k hk
          have hint : σ.unfold 0 p.2 = some (.int k) := by rw [hk, unfold]
          rw [ih hint ?_ (clear p hp), Data.literal]
          intro m hm hway
          obtain ⟨j, hj⟩ := hway.exists_object
          cases hk.symm.trans hj
      | _ =>
        rw [literal_leaf rfl, if_neg hcalls, leaf, unfold_zero_of_ne_object (by simp) hv]

/-- **Data.** A value that shows as data is written as that data is, if calls enough may be inside each
other. -/
theorem literal_of_view {d : Data} (h : σ.view v = some d) (hroom : ¬ σ.Hinders v .tooManyCalls) :
    σ.literalText v = d.literal.map String.ofList := by
  have hliteral : σ.literal σ.stack.room 0 [] v = d.literal :=
    literal_of_unfold h (List.forall_mem_nil _) hroom
  rw [literalText, hliteral]

end Store

end Diagnostics
