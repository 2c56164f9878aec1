import Diagnostics.Proofs.Json.Settled
import Diagnostics.Proofs.Store.Written

/-!
# Texts around a value

Two texts can be exchanged if the reader makes the same of them whatever follows, but for one place
in the value that it finds (`Exchangeable`, `Alike`). Then so can the texts in which they stand as an
item of a list or as an entry of an object, and these go on with the same text
(`Exchangeable.item`, `Exchangeable.field`). `Opens` says of a text that a value can follow it, and
where that value then is.
-/

namespace Diagnostics.Json

variable {e : Encoding} {limits : Limits} {a b j j' : Json} {path : List PathStep}
  {x y rest : List Char} {depth : Nat} {name : String}

/-! ## Values that differ in one place -/

/-- Two values that are the same but for one place, at which they are `a` and `b`. -/
inductive Differ (a b : Json) : List PathStep → Json → Json → Prop
  | here : Differ a b [] a b
  | field {name : String} {path : List PathStep} {es : List (String × Json)} {j j' : Json}
    (value : es.lookup name = some j) (inner : Differ a b path j j') :
    Differ a b (.field name :: path) (.object es) (.object (put name j' es))
  | item {i : Nat} {path : List PathStep} {js : List Json} {j j' : Json}
    (item : js[i]? = some j) (inner : Differ a b path j j') :
    Differ a b (.index i :: path) (.array js) (.array (js.set i j'))

/-- Two values that differ at most in one place. -/
def Alike (a b : Json) (path : List PathStep) (j j' : Json) : Prop := j = j' ∨ Differ a b path j j'

theorem Alike.head (h : Alike a b path j j') (js : List Json) :
    Alike a b (.index 0 :: path) (.array (j :: js)) (.array (j' :: js)) := by
  rcases h with rfl | h
  · exact .inl rfl
  · exact .inr (.item (show (j :: js)[0]? = some j from rfl) h)

theorem Alike.tail {i : Nat} {js js' : List Json}
    (h : Alike a b (.index i :: path) (.array js) (.array js')) (j : Json) :
    Alike a b (.index (i + 1) :: path) (.array (j :: js)) (.array (j :: js')) := by
  rcases h with h | h
  · exact .inl (by rw [Json.array.inj h])
  · cases h with
    | @item _ _ _ k _ item inner =>
      exact .inr (.item (show (j :: js)[i + 1]? = some k from item) inner)

/-- What is put in later leaves a value where it is, or takes its place. -/
theorem foldl_put {α : Type} {v w : α} {es : List (String × α)} (after : List (String × α))
    (h : es.lookup name = some v) :
    after.foldl (fun es e => put e.1 e.2 es) (put name w es) =
        after.foldl (fun es e => put e.1 e.2 es) es ∨
      (after.foldl (fun es e => put e.1 e.2 es) es).lookup name = some v ∧
        after.foldl (fun es e => put e.1 e.2 es) (put name w es) =
          put name w (after.foldl (fun es e => put e.1 e.2 es) es) := by
  induction after generalizing es with
  | nil => exact .inr ⟨h, rfl⟩
  | cons entry after ih =>
    obtain ⟨k, u⟩ := entry
    rw [List.foldl_cons, List.foldl_cons]
    by_cases hk : k = name
    · subst hk
      rw [put_put]
      exact .inl rfl
    · rw [put_comm hk h]
      exact ih ((lookup_put_of_ne (Ne.symm hk) u es).trans h)

/-- An object in which one entry is another one differs there, unless a later entry counts. -/
theorem Alike.entry (h : Alike a b path j j') (before after : List (String × Json)) :
    Alike a b (.field name :: path) (.object (table (before ++ (name, j) :: after)))
      (.object (table (before ++ (name, j') :: after))) := by
  rcases h with rfl | h
  · exact .inl rfl
  rw [table, table, List.foldl_append, List.foldl_append, List.foldl_cons, List.foldl_cons]
  generalize before.foldl (fun es e => put e.1 e.2 es) [] = es
  have hlookup : (put name j es).lookup name = some j := lookup_put_self name j es
  rw [← put_put name j' j es]
  rcases foldl_put (w := j') after hlookup with heq | ⟨hvalue, heq⟩
  · exact .inl (by rw [heq])
  · rw [heq]
    exact .inr (.field hvalue h)

/-! ## Signs between parts -/

theorem skip_append_of_blank {cs : List Char} (h : skip cs = []) (rest : List Char) :
    skip (cs ++ rest) = skip rest := by
  rw [← skip_skip_append, h, List.nil_append]

theorem ends_of_sign {c : Char} (h : c = ',' ∨ c = ']' ∨ c = '}') (rest : List Char) :
    Ends (c :: rest) := by
  intro d hd
  cases hd
  rcases h with rfl | rfl | rfl <;> decide

/-- Behind a comma there is the next part. -/
theorem nextPart_comma {close c : Char} {unclosed expected : Fault} {cs ds : List Char}
    (hclose : close ≠ ',') (hcs : skip cs = []) (hrest : skip rest = c :: ds) (hc : c ≠ close) :
    nextPart close unclosed expected (cs ++ ',' :: rest) = .ok (true, c :: ds) := by
  rw [nextPart, skip_append_of_blank hcs, skip_cons rest (by decide)]
  dsimp only
  rw [if_neg hclose.symm, if_pos rfl, hrest]
  exact if_neg hc

/-- Behind a closing character there is no part. -/
theorem nextPart_close {close : Char} {unclosed expected : Fault} {cs : List Char}
    (hclose : isSpace close = false) (hcs : skip cs = []) (rest : List Char) :
    nextPart close unclosed expected (cs ++ close :: rest) = .ok (false, rest) := by
  rw [nextPart, skip_append_of_blank hcs, skip_cons rest hclose]
  exact if_pos rfl

/-! ## Exchange -/

/-- Whether two texts, whatever follows them, lead to values that differ at most in one place. -/
def Exchangeable (e : Encoding) (limits : Limits) (a b : Json) (path : List PathStep)
    (x y : List Char) : Prop :=
  ∀ depth rest, Matched (fun p q => Alike a b path p.1 q.1 ∧ p.2 = q.2)
    (valueIn e limits depth (skip (x ++ rest))) (valueIn e limits depth (skip (y ++ rest)))

/-- Whether a text begins like a value. -/
def Begins (cs : List Char) : Prop := ∃ c ds, skip cs = c :: ds ∧ c ≠ ']'

theorem Begins.skip_append (h : Begins x) (rest : List Char) :
    ∃ c ds, skip (x ++ rest) = c :: ds ∧ c ≠ ']' := by
  obtain ⟨c, ds, hskip, hc⟩ := h
  exact ⟨c, ds ++ rest, Json.skip_append hskip, hc⟩

/-- Texts with a comma behind each of them. -/
def withCommas (texts : List (List Char)) : List Char := texts.flatMap (· ++ [','])

theorem withCommas_cons (text : List Char) (texts : List (List Char)) (rest : List Char) :
    withCommas (text :: texts) ++ rest = text ++ ',' :: (withCommas texts ++ rest) := by
  simp [withCommas]

theorem begins_withCommas {texts : List (List Char)} (hx : Begins x)
    (htexts : ∀ t ∈ texts, ∃ j, Spells e t j) : Begins (withCommas texts ++ x) := by
  rcases texts with _ | ⟨text, texts⟩
  · exact hx
  · obtain ⟨j, hj⟩ := htexts text List.mem_cons_self
    obtain ⟨c, ds, -, hskip, hc, -⟩ := hj.settled
    rw [withCommas_cons]
    exact ⟨c, _, Json.skip_append hskip, hc⟩

/-- The item of a list with which its text begins can be exchanged. -/
theorem items_exchange_first (h : Exchangeable e limits a b path x y) (depth : Nat)
    (rest : List Char) :
    Matched (fun p q => Alike a b (.index 0 :: path) (.array p.1) (.array q.1) ∧ p.2 = q.2)
      (itemsIn e limits depth (skip (x ++ rest))) (itemsIn e limits depth (skip (y ++ rest))) := by
  rw [itemsIn_eq, itemsIn_eq]
  refine (h depth rest).bind ?_
  rintro ⟨j, r⟩ ⟨j', _⟩ ⟨hj, rfl⟩
  -- from here on the texts are the same
  refine .bind_same (nextItem r) ?_
  rintro ⟨more, r⟩
  cases more with
  | false => exact .ok ⟨hj.head [], rfl⟩
  | true =>
    refine .bind_same (itemsIn e limits depth r) ?_
    rintro ⟨js, r⟩
    exact .ok ⟨hj.head js, rfl⟩

/-- Items of a list can be exchanged behind others. -/
theorem items_exchange (hx : Begins x) (hy : Begins y) (h : Exchangeable e limits a b path x y)
    {texts : List (List Char)} (htexts : ∀ t ∈ texts, ∃ j, Spells e t j) (depth : Nat)
    (rest : List Char) :
    Matched (fun p q => Alike a b (.index texts.length :: path) (.array p.1) (.array q.1) ∧
        p.2 = q.2)
      (itemsIn e limits depth (skip (withCommas texts ++ x ++ rest)))
      (itemsIn e limits depth (skip (withCommas texts ++ y ++ rest))) := by
  induction texts with
  | nil => exact items_exchange_first h depth rest
  | cons text texts ih =>
    obtain ⟨htext, htexts⟩ := List.forall_mem_cons.1 htexts
    obtain ⟨j, hj⟩ := htext
    obtain ⟨c, ds, r, hskip, -, hr, hsettled⟩ := hj.settled
    have hnext {z : List Char} (hz : Begins z) :
        nextItem (r ++ ',' :: (withCommas texts ++ z ++ rest)) =
          .ok (true, skip (withCommas texts ++ z ++ rest)) := by
      obtain ⟨d, ds, hd, hclose⟩ := (begins_withCommas hz htexts).skip_append rest
      rw [nextItem_eq, nextPart_comma (by decide) hr hd hclose, hd]
    rw [itemsIn_eq, itemsIn_eq]
    simp only [withCommas_cons, List.append_assoc, List.cons_append, Json.skip_append hskip]
    simp only [List.append_assoc] at ih hnext
    refine (hsettled limits depth _ _ (ends_of_sign (.inl rfl) _)
      (ends_of_sign (.inl rfl) _)).bind ?_
    rintro _ _ ⟨rfl, rfl⟩
    dsimp only
    rw [hnext hx, hnext hy]
    refine (ih htexts).bind ?_
    rintro ⟨js, r⟩ ⟨js', _⟩ ⟨hjs, rfl⟩
    exact .ok ⟨hjs.tail j, rfl⟩

/-- Whether a text is a key with its colon. -/
def Names (e : Encoding) (name : String) (text : List Char) : Prop :=
  key e (skip text) = .ok (name, [])

instance (e : Encoding) (name : String) (text : List Char) : Decidable (Names e name text) :=
  inferInstanceAs (Decidable (key e (skip text) = .ok (name, [])))

theorem Names.key_eq {text : List Char} (h : Names e name text) (rest : List Char) :
    key e (skip (text ++ rest)) = .ok (name, skip rest) := by
  have hne : skip text ≠ [] := by
    intro hnil
    rw [Names, hnil] at h
    cases h
  obtain ⟨c, ds, hskip⟩ := List.exists_cons_of_ne_nil hne
  have happend := key_append h rest
  rwa [hskip, List.cons_append, ← Json.skip_append hskip] at happend

theorem Names.skip_append {text : List Char} (h : Names e name text) (rest : List Char) :
    ∃ ds, skip (text ++ rest) = '"' :: ds := by
  have hkey := h.key_eq rest
  rcases hskip : skip (text ++ rest) with _ | ⟨c, ds⟩
  · rw [hskip] at hkey
    cases hkey
  · rw [hskip, key] at hkey
    split at hkey
    · next hc => exact ⟨ds, by rw [hc]⟩
    · cases hkey

/-- Whether a text is an entry of an object: a key and a value. -/
def IsEntry (e : Encoding) (text : List Char) : Prop :=
  ∃ k t name j, text = k ++ t ∧ Names e name k ∧ Spells e t j

theorem skip_withCommas {texts : List (List Char)} {k : List Char} (hk : Names e name k)
    (htexts : ∀ t ∈ texts, IsEntry e t) (rest : List Char) :
    ∃ ds, skip (withCommas texts ++ (k ++ rest)) = '"' :: ds := by
  rcases texts with _ | ⟨text, texts⟩
  · exact hk.skip_append rest
  · obtain ⟨k', t, _, _, rfl, hk', -⟩ := htexts text List.mem_cons_self
    rw [withCommas_cons, List.append_assoc]
    exact hk'.skip_append _

/-- Entries that are the same but for the value of one of them. -/
def AlikeEntries (a b : Json) (path : List PathStep) (name : String)
    (es es' : List (String × Json)) : Prop :=
  ∃ before after j j', es = before ++ (name, j) :: after ∧ es' = before ++ (name, j') :: after ∧
    Alike a b path j j'

/-- The value of the entry with which the text of an object begins can be exchanged. -/
theorem entries_exchange_first {k : List Char} (hk : Names e name k) (hx : Begins x) (hy : Begins y)
    (h : Exchangeable e limits a b path x y) (depth : Nat) (rest : List Char) :
    Matched (fun p q => AlikeEntries a b path name p.1 q.1 ∧ p.2 = q.2)
      (entriesIn e limits depth (skip (k ++ (x ++ rest))))
      (entriesIn e limits depth (skip (k ++ (y ++ rest)))) := by
  obtain ⟨c, ds, hxs, -⟩ := hx.skip_append rest
  obtain ⟨d, ds', hys, -⟩ := hy.skip_append rest
  have hvalues := h (depth - 1) rest
  rw [hxs, hys] at hvalues
  rw [entriesIn_eq, entriesIn_eq, hk.key_eq, hk.key_eq, hxs, hys]
  by_cases hzero : depth = 0
  · subst hzero
    exact .error _ _ _
  simp only [ok_bind, hzero, false_and, if_false]
  refine hvalues.bind ?_
  rintro ⟨j, r⟩ ⟨j', _⟩ ⟨hj, rfl⟩
  -- from here on the texts are the same
  refine .bind_same (nextEntry r) ?_
  rintro ⟨more, r⟩
  cases more with
  | false => exact .ok ⟨⟨[], [], j, j', rfl, rfl, hj⟩, rfl⟩
  | true =>
    refine .bind_same (entriesIn e limits depth r) ?_
    rintro ⟨es, r⟩
    exact .ok ⟨⟨[], es, j, j', rfl, rfl, hj⟩, rfl⟩

/-- Values of entries can be exchanged behind other entries. -/
theorem entries_exchange {k : List Char} (hk : Names e name k) (hx : Begins x) (hy : Begins y)
    (h : Exchangeable e limits a b path x y) {texts : List (List Char)}
    (htexts : ∀ t ∈ texts, IsEntry e t) (depth : Nat) (rest : List Char) :
    Matched (fun p q => AlikeEntries a b path name p.1 q.1 ∧ p.2 = q.2)
      (entriesIn e limits depth (skip (withCommas texts ++ (k ++ (x ++ rest)))))
      (entriesIn e limits depth (skip (withCommas texts ++ (k ++ (y ++ rest))))) := by
  induction texts with
  | nil => exact entries_exchange_first hk hx hy h depth rest
  | cons text texts ih =>
    obtain ⟨htext, hmore⟩ := List.forall_mem_cons.1 htexts
    obtain ⟨k', t, name', i, rfl, hk', ht⟩ := htext
    obtain ⟨c, ds, r, hskip, -, hr, hsettled⟩ := ht.settled
    have hnext (z : List Char) :
        nextEntry (r ++ ',' :: (withCommas texts ++ (k ++ (z ++ rest)))) =
          .ok (true, skip (withCommas texts ++ (k ++ (z ++ rest)))) := by
      obtain ⟨ds, hds⟩ := skip_withCommas hk hmore (z ++ rest)
      rw [nextEntry_eq, nextPart_comma (by decide) hr hds (by decide), hds]
    rw [entriesIn_eq, entriesIn_eq]
    simp only [withCommas_cons, List.append_assoc]
    rw [hk'.key_eq, hk'.key_eq, Json.skip_append hskip, Json.skip_append hskip]
    by_cases hzero : depth = 0
    · subst hzero
      exact .error _ _ _
    simp only [ok_bind, hzero, false_and, if_false]
    refine (hsettled limits (depth - 1) _ _ (ends_of_sign (.inl rfl) _)
      (ends_of_sign (.inl rfl) _)).bind ?_
    rintro _ _ ⟨rfl, rfl⟩
    dsimp only
    rw [hnext, hnext]
    refine (ih hmore).bind ?_
    rintro ⟨es, r⟩ ⟨es', _⟩ ⟨⟨before, after, j, j', hes, hes', hj⟩, rfl⟩
    refine .ok ⟨⟨(name', i) :: before, after, j, j', ?_, ?_, hj⟩, rfl⟩
    · rw [hes, List.cons_append]
    · rw [hes', List.cons_append]

/-- Texts stay exchangeable as items of a list. -/
theorem Exchangeable.item {ws : List Char} {texts : List (List Char)} (hws : skip ws = [])
    (htexts : ∀ t ∈ texts, ∃ j, Spells e t j) (hx : Begins x) (hy : Begins y)
    (h : Exchangeable e limits a b path x y) :
    Exchangeable e limits a b (.index texts.length :: path)
      (ws ++ '[' :: (withCommas texts ++ x)) (ws ++ '[' :: (withCommas texts ++ y)) := by
  intro depth rest
  obtain ⟨c, ds, hxs, hc⟩ := (begins_withCommas hx htexts).skip_append rest
  obtain ⟨d, ds', hys, hd⟩ := (begins_withCommas hy htexts).skip_append rest
  have hitems := items_exchange hx hy h htexts (depth - 1) rest
  rw [hxs, hys] at hitems
  simp only [List.append_assoc, List.cons_append] at hxs hys ⊢
  rw [skip_append_of_blank hws, skip_append_of_blank hws, skip_cons _ (by decide),
    skip_cons _ (by decide), valueIn_list, valueIn_list, hxs, hys]
  dsimp only
  rw [if_neg hc, if_neg hd]
  split
  · exact .error _ _ _
  · refine hitems.bind ?_
    rintro ⟨js, r⟩ ⟨js', _⟩ ⟨hjs, rfl⟩
    exact .ok ⟨hjs, rfl⟩

/-- Texts stay exchangeable as values in an object. -/
theorem Exchangeable.field {ws k : List Char} {texts : List (List Char)} (hws : skip ws = [])
    (htexts : ∀ t ∈ texts, IsEntry e t) (hk : Names e name k) (hx : Begins x) (hy : Begins y)
    (h : Exchangeable e limits a b path x y) :
    Exchangeable e limits a b (.field name :: path)
      (ws ++ '\x7b' :: (withCommas texts ++ (k ++ x)))
      (ws ++ '\x7b' :: (withCommas texts ++ (k ++ y))) := by
  intro depth rest
  obtain ⟨ds, hxs⟩ := skip_withCommas hk htexts (x ++ rest)
  obtain ⟨ds', hys⟩ := skip_withCommas hk htexts (y ++ rest)
  have hentries := entries_exchange hk hx hy h htexts depth rest
  rw [hxs, hys] at hentries
  simp only [List.append_assoc, List.cons_append]
  rw [skip_append_of_blank hws, skip_append_of_blank hws, skip_cons _ (by decide),
    skip_cons _ (by decide), valueIn_table, valueIn_table, hxs, hys]
  dsimp only
  rw [if_neg (by decide), if_neg (by decide)]
  refine hentries.bind ?_
  rintro ⟨_, r⟩ ⟨_, _⟩ ⟨⟨before, after, j, j', rfl, rfl, hj⟩, rfl⟩
  exact .ok ⟨hj.entry before after, rfl⟩

/-- Whether a text is the beginning of a text, up to a value and the space in front of it, and where
that value is. -/
inductive Opens (e : Encoding) : List PathStep → List Char → Prop
  | here {ws : List Char} (blank : skip ws = []) : Opens e [] ws
  | item {ws front : List Char} {texts : List (List Char)} {path : List PathStep}
    (blank : skip ws = []) (items : ∀ t ∈ texts, ∃ j, Spells e t j) (inner : Opens e path front) :
    Opens e (.index texts.length :: path) (ws ++ '[' :: (withCommas texts ++ front))
  | field {ws k front : List Char} {texts : List (List Char)} {name : String}
    {path : List PathStep} (blank : skip ws = []) (entries : ∀ t ∈ texts, IsEntry e t)
    (key : Names e name k) (inner : Opens e path front) :
    Opens e (.field name :: path) (ws ++ '\x7b' :: (withCommas texts ++ (k ++ front)))

/-- **Texts around a value.** Texts that can be exchanged can be exchanged in any text that holds
them as a value. -/
theorem Opens.exchange {front : List Char} (hfront : Opens e path front) (hx : Begins x)
    (hy : Begins y) (h : Exchangeable e limits a b [] x y) :
    Begins (front ++ x) ∧ Begins (front ++ y) ∧
      Exchangeable e limits a b path (front ++ x) (front ++ y) := by
  induction hfront with
  | @here ws blank =>
    have hskip (z : List Char) : skip (ws ++ z) = skip z := skip_append_of_blank blank z
    refine ⟨?_, ?_, fun depth rest => ?_⟩
    · rwa [Begins, hskip]
    · rwa [Begins, hskip]
    · rw [List.append_assoc, List.append_assoc, hskip, hskip]
      exact h depth rest
  | @item ws front texts path blank items _ ih =>
    obtain ⟨hbegins, hbegins', hexchange⟩ := ih
    have hopen (z : List Char) : Begins (ws ++ '[' :: z) :=
      ⟨'[', z, by rw [skip_append_of_blank blank, skip_cons z (by decide)], by decide⟩
    have hitem := hexchange.item blank items hbegins hbegins'
    simp only [List.append_assoc, List.cons_append]
    exact ⟨hopen _, hopen _, hitem⟩
  | @field ws k front texts name path blank entries key _ ih =>
    obtain ⟨hbegins, hbegins', hexchange⟩ := ih
    have hopen (z : List Char) : Begins (ws ++ '\x7b' :: z) :=
      ⟨'\x7b', z, by rw [skip_append_of_blank blank, skip_cons z (by decide)], by decide⟩
    have hfield := hexchange.field blank entries key hbegins hbegins'
    simp only [List.append_assoc, List.cons_append]
    exact ⟨hopen _, hopen _, hfield⟩

/-- **Exchange.** Of two texts that differ in exchangeable values, either both are JSON and differ
at most in one place, or both have the same fault. -/
theorem document_exchange {front : List Char} (hfront : Opens e path front) (hx : Begins x)
    (hy : Begins y) (h : Exchangeable e limits a b [] x y) (rest : List Char) :
    Matched (Alike a b path) (document e limits (front ++ x ++ rest))
      (document e limits (front ++ y ++ rest)) := by
  obtain ⟨-, -, hexchange⟩ := hfront.exchange hx hy h
  rw [document_eq, document_eq]
  refine (hexchange limits.depth rest).bind ?_
  rintro ⟨j, r⟩ ⟨j', _⟩ ⟨hj, rfl⟩
  dsimp only
  split
  · exact .ok hj
  · exact .error _ _ _

end Diagnostics.Json
