/-!
# Arithmetic progressions

The integers from a start on in equal steps, up to but without an end. `terms` lists them and
`length` counts them without listing (`length_terms`). With a step of zero there are none.
-/

namespace Diagnostics.Progression

/-- How many terms there are. -/
def length (start stop step : Int) : Nat :=
  if 0 < step then ((stop - start + step - 1) / step).toNat
  else if step < 0 then ((start - stop - step - 1) / -step).toNat
  else 0

/-- The terms in order. -/
def terms (start stop step : Int) : List Int :=
  (List.range (length start stop step)).map fun (i : Nat) => start + i * step

/-- The term at some place. -/
def term? (start stop step : Int) (i : Nat) : Option Int :=
  if i < length start stop step then some (start + i * step) else none

@[simp] theorem length_terms (start stop step : Int) :
    (terms start stop step).length = length start stop step := by
  simp [terms]

/-- A term is found at its place in the list of terms. -/
theorem getElem?_terms (start stop step : Int) (i : Nat) :
    (terms start stop step)[i]? = term? start stop step i := by
  by_cases h : i < length start stop step <;> simp [terms, term?, h]

/-- With a step of one there are as many terms as the ends are apart. -/
theorem length_one (start stop : Int) : length start stop 1 = (stop - start).toNat := by
  simp [length]

/-- Whether two progressions have the same terms in the same order. -/
def alike (a b c x y z : Int) : Bool :=
  let n := length a b c
  n == length x y z && (n == 0 || (a == x && (n == 1 || c == z)))

end Diagnostics.Progression
