import Reckon.Text

/-!
# Nesting of brackets

The depth of a place in a text is the number of brackets opened before it less the number closed.
A text is balanced when no place has a negative depth and its end has depth zero.

## Main definitions

* `Nesting.deepen d c`: the depth after the character `c` read at depth `d`
* `Nesting.balanced`: whether a text is balanced
* `Nesting.dropPoint`: the first place at which the depth is not positive
* `Nesting.trail`: the depth after each character
-/

namespace Reckon

namespace Nesting

/-- The depth after a character that is read at depth `d`. -/
def deepen (d : Int) (c : Char) : Int :=
  if c = '(' then d + 1 else if c = ')' then d - 1 else d

/-- Whether the depth, starting from `d`, never turns negative and ends at zero. -/
def balancedFrom : (d : Int) → Text → Bool
  | d, [] => d == 0
  | d, c :: t => if deepen d c < 0 then false else balancedFrom (deepen d c) t

/-- Whether every bracket has its partner. -/
def balanced (t : Text) : Bool := balancedFrom 0 t

/-- The place, counted on from `i`, of the first character after which the depth is not
positive. -/
def dropPointFrom : (d : Int) → (i : Nat) → Text → Nat
  | _, i, [] => i
  | d, i, c :: t => if deepen d c ≤ 0 then i else dropPointFrom (deepen d c) (i + 1) t

/-- The place of the first character after which the depth is not positive; the length of the
text if there is none. -/
def dropPoint (t : Text) : Nat := dropPointFrom 0 0 t

/-- The depth at the end of a text that is read from depth `d`. -/
def depthAfter (d : Int) (t : Text) : Int := t.foldl deepen d

/-- The work of `trail`: `done` holds the depths so far, backwards. -/
def trailFrom : (d : Int) → Text → (done : List Int) → List Int
  | _, [], done => done.reverse
  | d, c :: t, done => trailFrom (deepen d c) t (deepen d c :: done)

/-- The depth after each character of a text that is read from depth `d`. -/
def trail (d : Int) (t : Text) : List Int := trailFrom d t []

@[simp] theorem balanced_nil : balanced [] = true := rfl

@[simp] theorem dropPoint_nil : dropPoint [] = 0 := rfl

@[simp] theorem depthAfter_append (d : Int) (s t : Text) :
    depthAfter d (s ++ t) = depthAfter (depthAfter d s) t := List.foldl_append

end Nesting

end Reckon
