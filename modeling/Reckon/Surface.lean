import Reckon.Text

/-!
# Surface spellings

A formula may be written with blanks, with operators of two characters and with the words `And`
and `Or`. Before it is cut, every such spelling is folded into one character or none. Each spelling
is looked for in the whole text before the next one. The order matters: two adjacent minus signs are
a plus before a plus and a minus are a minus, and blanks go before the words are read.

## Main definitions

* `Surface.spellings`: the spellings and what each is folded into, in order
* `Surface.fold`: the text with all of them folded
-/

namespace Reckon

namespace Surface

/-- The spellings and what is written for them, in the order in which they are folded. -/
def spellings : List (Text × Text) :=
  [(['-', '-'], ['+']),
   (['+', '-'], ['-']),
   (['>', '='], ['?']),
   (['<', '='], ['\\']),
   (['!', '='], ['!']),
   ([' '], []),
   (['\u3000'], []),
   (['A', 'n', 'd'], ['&']),
   (['O', 'r'], ['|'])]

/-- Folds every spelling in turn. -/
def fold (t : Text) : Text :=
  spellings.foldl (fun t s => Text.replaceAll s.1 s.2 t) t

@[simp] theorem fold_nil : fold [] = [] := rfl

end Surface

end Reckon
