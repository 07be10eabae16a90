/-!
# Texts

A text is the list of its characters. The standard library lacks two operations on it: replacing
every occurrence of a word, from the left, without overlaps and without looking again at what has
been written; and dropping the blanks around it, which are spaces of any width, tabs and breaks of
lines and pages.

## Main definitions

* `Text`: a list of characters
* `Text.replaceAll old new t`: `t` with `new` for every occurrence of `old`
* `Text.isBlank`: whether a character is blank
* `Text.trim`: a text without the blanks around it
-/

namespace Reckon

/-- A text is the list of its characters. -/
abbrev Text := List Char

namespace Text

/-- The work of `replaceAll`: `skip` characters of an occurrence are still to be passed over, and
`done` is the result so far, backwards. -/
def replaceFrom (old new : Text) : (skip : Nat) → Text → (done : Text) → Text
  | _, [], done => done.reverse
  | skip + 1, _ :: t, done => replaceFrom old new skip t done
  | 0, c :: t, done =>
    if old.isPrefixOf (c :: t) then replaceFrom old new (old.length - 1) t (new.reverseAux done)
    else replaceFrom old new 0 t (c :: done)

/-- Writes `new` for every occurrence of the nonempty word `old`, from the left and without
overlaps. -/
def replaceAll (old new t : Text) : Text := replaceFrom old new 0 t []

@[simp] theorem replaceAll_nil (old new : Text) : replaceAll old new [] = [] := rfl

/-- The ranges of the code points of blanks, each with both its ends. -/
def blanks : List (Nat × Nat) :=
  [(0x09, 0x0D), (0x20, 0x20), (0x85, 0x85), (0xA0, 0xA0), (0x1680, 0x1680), (0x2000, 0x200A),
   (0x2028, 0x2029), (0x202F, 0x202F), (0x205F, 0x205F), (0x3000, 0x3000)]

/-- Whether a character is blank. -/
def isBlank (c : Char) : Bool := blanks.any fun r => r.1 ≤ c.toNat && c.toNat ≤ r.2

/-- A text without the blanks around it. -/
def trim (t : Text) : Text := ((t.dropWhile isBlank).reverse.dropWhile isBlank).reverse

end Text

end Reckon
