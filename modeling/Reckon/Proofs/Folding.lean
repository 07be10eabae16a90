import Reckon.Proofs.Decimal.Literal
import Reckon.Proofs.Nesting.Balance
import Reckon.Proofs.Text.Replacement
import Reckon.Surface

/-!
# Folding spellings

Folding goes through the text once for each spelling. A character that is in no spelling is a cut
for all of them, and no spelling has brackets, so a formula is folded in parts between its brackets
and keeps its balance. Between operators with blanks on both sides it is folded in parts as well.

## Main definitions

* `Surface.foldBy`: folding by some of the spellings
* `Surface.isPaired`, `Surface.isBlank`, `Surface.isLetter`: the characters of the spellings, by the
  kind of spelling
* `Surface.tighten`: folding without the words, the part of it that ends with dropping the blanks
* `Surface.Folds r w`: `r` is folded into `w` and may stand next to a word
* `Surface.isSign`: the characters of signs

## Main results

* `fold_append_cons`: a bracket is a cut
* `balanced_fold`: folding keeps the balance
* `Folds.negation`, `Folds.binary`: operators with blanks on both sides are cuts
* `fold_signs_append`, `fold_minuses`: signs before a literal, and runs of adjacent minus signs
-/

namespace Reckon

namespace Surface

open Nesting Text

/-! ## One spelling after another -/

/-- Folds some spellings in turn. -/
def foldBy (spellings : List (Text × Text)) (t : Text) : Text :=
  spellings.foldl (fun t s => replaceAll s.1 s.2 t) t

variable {ss : List (Text × Text)}

@[simp] theorem foldBy_nil (ss : List (Text × Text)) : foldBy ss [] = [] := by
  induction ss with
  | nil => rfl
  | cons s ss ih => exact ih

/-- A character that is in no spelling is a cut. -/
theorem foldBy_append_cons {c : Char} (h : ∀ s ∈ ss, s.1 ≠ [] ∧ c ∉ s.1) (x y : Text) :
    foldBy ss (x ++ c :: y) = foldBy ss x ++ c :: foldBy ss y := by
  induction ss generalizing x y with
  | nil => rfl
  | cons s ss ih =>
    obtain ⟨hne, hc⟩ := h s (List.mem_cons_self ..)
    show foldBy ss (replaceAll s.1 s.2 (x ++ c :: y)) = _
    rw [replaceAll_append_cons hne hc, ih fun s hs => h s (List.mem_cons_of_mem _ hs)]
    rfl

theorem foldBy_cons {c : Char} (h : ∀ s ∈ ss, s.1 ≠ [] ∧ c ∉ s.1) (y : Text) :
    foldBy ss (c :: y) = c :: foldBy ss y := by
  simpa using foldBy_append_cons h [] y

theorem foldBy_concat_append {c : Char} (h : ∀ s ∈ ss, s.1 ≠ [] ∧ c ∉ s.1) (x y : Text) :
    foldBy ss (x ++ [c] ++ y) = foldBy ss (x ++ [c]) ++ foldBy ss y := by
  rw [List.append_assoc, List.singleton_append, foldBy_append_cons h, foldBy_append_cons h,
    foldBy_nil, List.append_assoc, List.singleton_append]

/-- A text without any of the spellings stays as it is. -/
theorem foldBy_of_absent {t : Text} (h : ∀ s ∈ ss, ¬ s.1 <:+: t) : foldBy ss t = t := by
  induction ss with
  | nil => rfl
  | cons s ss ih =>
    show foldBy ss (replaceAll s.1 s.2 t) = t
    rw [replaceAll_of_absent (h s (List.mem_cons_self ..)),
      ih fun s hs => h s (List.mem_cons_of_mem _ hs)]

/-- A text that lacks a character of every spelling stays as it is. -/
theorem foldBy_eq_self {t : Text} (h : ∀ s ∈ ss, ∃ c ∈ s.1, c ∉ t) : foldBy ss t = t := by
  refine foldBy_of_absent fun s hs hi => ?_
  obtain ⟨c, hc, hn⟩ := h s hs
  exact hn (hi.subset hc)

/-! ## Brackets -/

/-- A bracket is a cut. -/
theorem fold_append_cons {c : Char} (hc : isBracket c = true) (x y : Text) :
    fold (x ++ c :: y) = fold x ++ c :: fold y := by
  refine foldBy_append_cons ?_ x y
  obtain rfl | rfl : c = '(' ∨ c = ')' := by simpa [isBracket] using hc
  · decide
  · decide

/-- A group in brackets is folded on its own. -/
theorem fold_group (x g y : Text) :
    fold (x ++ '(' :: (g ++ ')' :: y)) = fold x ++ '(' :: (fold g ++ ')' :: fold y) := by
  rw [fold_append_cons rfl, fold_append_cons rfl]

theorem filter_foldBy {p : Char → Bool}
    (h : ∀ s ∈ ss, s.1 ≠ [] ∧ s.1.filter p = s.2.filter p) (t : Text) :
    (foldBy ss t).filter p = t.filter p := by
  induction ss generalizing t with
  | nil => rfl
  | cons s ss ih =>
    obtain ⟨hne, hp⟩ := h s (List.mem_cons_self ..)
    show (foldBy ss (replaceAll s.1 s.2 t)).filter p = _
    rw [ih fun s hs => h s (List.mem_cons_of_mem _ hs), filter_replaceAll p hne hp]

/-- Characters of a class that the spellings share with what is written for them neither appear nor
disappear. -/
theorem mem_foldBy_iff {p : Char → Bool} (h : ∀ s ∈ ss, s.1 ≠ [] ∧ s.1.filter p = s.2.filter p)
    {c : Char} (hc : p c = true) {t : Text} : c ∈ foldBy ss t ↔ c ∈ t := by
  have hmem {u : Text} : c ∈ u ↔ c ∈ u.filter p := by simp [hc]
  rw [hmem, filter_foldBy h, ← hmem]

/-- A character that is neither in a spelling nor in what is written for it stays where it is. -/
theorem mem_fold_iff {c : Char} (h : ∀ s ∈ spellings, s.1 ≠ [] ∧ c ∉ s.1 ∧ c ∉ s.2) {t : Text} :
    c ∈ fold t ↔ c ∈ t := by
  refine mem_foldBy_iff (p := (· == c)) (fun s hs => ?_) (beq_self_eq_true c)
  obtain ⟨hne, h1, h2⟩ := h s hs
  have hnone {u : Text} (hu : c ∉ u) : u.filter (· == c) = [] := by
    rw [List.filter_eq_nil_iff]
    rintro d hd hdc
    exact hu (beq_iff_eq.mp hdc ▸ hd)
  exact ⟨hne, by rw [hnone h1, hnone h2]⟩

/-- Folding keeps the balance. -/
theorem balanced_fold (t : Text) : balanced (fold t) = balanced t := by
  have h : (fold t).filter isBracket = t.filter isBracket := filter_foldBy (by decide) t
  rw [← balanced_filter, h, balanced_filter]

/-! ## Blanks -/

/-- The characters of the spellings of two characters. -/
def isPaired (c : Char) : Bool := ['+', '-', '>', '<', '!', '='].contains c

theorem isPaired_notMem {c : Char} (h : isPaired c = false) :
    ∀ s ∈ spellings.take 5, s.1 ≠ [] ∧ c ∉ s.1 := by
  obtain ⟨h1, h2, h3, h4, h5, h6⟩ : c ≠ '+' ∧ c ≠ '-' ∧ c ≠ '>' ∧ c ≠ '<' ∧ c ≠ '!' ∧ c ≠ '=' := by
    simpa [isPaired] using h
  simp [spellings, h1, h2, h3, h4, h5, h6]

/-- The characters that are dropped. -/
def isBlank (c : Char) : Bool := c == ' ' || c == '\u3000'

theorem isPaired_of_isBlank {c : Char} (h : isBlank c = true) : isPaired c = false := by
  obtain rfl | rfl : c = ' ' ∨ c = '\u3000' := by simpa [isBlank] using h
  · rfl
  · rfl

/-- One blank or more. -/
def Blanks (b : Text) : Prop := b ≠ [] ∧ b.all isBlank = true

instance (b : Text) : Decidable (Blanks b) := by unfold Blanks; infer_instance

/-- Folds the spellings of two characters and drops the blanks, so that only words are left to be
folded. -/
def tighten (t : Text) : Text := (foldBy (spellings.take 5) t).filter fun c => !isBlank c

/-- Folds the words. -/
def foldWords (t : Text) : Text := foldBy (spellings.drop 7) t

theorem fold_eq_foldWords (t : Text) : fold t = foldWords (tighten t) := by
  show foldWords (replaceAll ['\u3000'] [] (replaceAll [' '] [] (foldBy (spellings.take 5) t))) = _
  rw [replaceAll_drop, replaceAll_drop, List.filter_filter, tighten]
  congr 2
  funext c
  simp [isBlank, bne, Bool.and_comm]

theorem tighten_blanks_append {b : Text} (h : b.all isBlank = true) (y : Text) :
    tighten (b ++ y) = tighten y := by
  induction b with
  | nil => rfl
  | cons c b ih =>
    obtain ⟨hc, hb⟩ := Bool.and_eq_true_iff.mp h
    rw [List.cons_append, tighten, foldBy_cons (isPaired_notMem (isPaired_of_isBlank hc)),
      List.filter_cons_of_neg (by simp [hc])]
    exact ih hb

/-- Blanks are a cut. -/
theorem tighten_append_blanks_append {b : Text} (h : Blanks b) (x y : Text) :
    tighten (x ++ (b ++ y)) = tighten x ++ tighten y := by
  obtain ⟨hne, hb⟩ := h
  obtain ⟨c, b, rfl⟩ := List.exists_cons_of_ne_nil hne
  obtain ⟨hc, hb⟩ := Bool.and_eq_true_iff.mp hb
  rw [List.cons_append, tighten, foldBy_append_cons (isPaired_notMem (isPaired_of_isBlank hc)),
    List.filter_append, List.filter_cons_of_neg (by simp [hc])]
  exact congrArg _ (tighten_blanks_append hb y)

theorem tighten_append_blanks {b : Text} (h : b.all isBlank = true) (x : Text) :
    tighten (x ++ b) = tighten x := by
  by_cases hne : b = []
  · rw [hne, List.append_nil]
  · have := tighten_append_blanks_append ⟨hne, h⟩ x []
    rwa [List.append_nil, show tighten [] = [] from rfl, List.append_nil] at this

theorem tighten_append_cons {c : Char} (hc : isBracket c = true) (x y : Text) :
    tighten (x ++ c :: y) = tighten x ++ c :: tighten y := by
  obtain rfl | rfl : c = '(' ∨ c = ')' := by simpa [isBracket] using hc
  · rw [tighten, foldBy_append_cons (by decide), List.filter_append]
    rfl
  · rw [tighten, foldBy_append_cons (by decide), List.filter_append]
    rfl

/-! ## Words -/

/-- The letters of the words. -/
def isLetter (c : Char) : Bool := ['A', 'n', 'd', 'O', 'r'].contains c

theorem isLetter_notMem {c : Char} (h : isLetter c = false) :
    ∀ s ∈ spellings.drop 7, s.1 ≠ [] ∧ c ∉ s.1 := by
  obtain ⟨hA, hn, hd, hO, hr⟩ : c ≠ 'A' ∧ c ≠ 'n' ∧ c ≠ 'd' ∧ c ≠ 'O' ∧ c ≠ 'r' := by
    simpa [isLetter] using h
  simp [spellings, hA, hn, hd, hO, hr]

/-- The text `r` is folded into `w`, and when its blanks are dropped it neither begins nor ends with
a letter, so that it may stand next to a word. -/
structure Folds (r w : Text) : Prop where
  fold_eq : fold r = w
  head : ∃ c t, tighten r = c :: t ∧ isLetter c = false
  last : ∃ c t, tighten r = t ++ [c] ∧ isLetter c = false

namespace Folds

variable {r w : Text}

/-- A literal without a sign stays as it is. -/
theorem literal {l : Text} (h : Decimal.Unsigned l) : Folds l l := by
  -- Every spelling, every word and both blanks have characters that no literal has.
  have hspelling : ∀ s ∈ spellings, ∃ c ∈ s.1, c ∉ l := by
    have hchar : (spellings.all fun s => s.1.any fun c => !Decimal.isLiteralChar c) = true := by
      decide
    intro s hs
    obtain ⟨c, hc, hl⟩ := List.any_eq_true.mp (List.all_eq_true.mp hchar s hs)
    exact ⟨c, hc, h.notMem (by simpa using hl)⟩
  have hletter : ∀ c ∈ l, isLetter c = false := by
    intro c hc
    rw [Bool.eq_false_iff]
    intro hletter
    have hchar : (['A', 'n', 'd', 'O', 'r'].all fun c => !Decimal.isLiteralChar c) = true := by
      decide
    have hl := List.all_eq_true.mp hchar c (by simpa [isLetter] using hletter)
    exact h.notMem (by simpa using hl) hc
  have ht : tighten l = l := by
    rw [tighten, foldBy_eq_self fun s hs => hspelling s (List.mem_of_mem_take hs),
      List.filter_eq_self]
    intro c hc
    rw [Bool.not_eq_true', Bool.eq_false_iff]
    intro hb
    obtain rfl | rfl : c = ' ' ∨ c = '\u3000' := by simpa [isBlank] using hb
    · exact h.notMem rfl hc
    · exact h.notMem rfl hc
  refine ⟨foldBy_eq_self hspelling, ?_, ?_⟩
  · obtain ⟨c, t, rfl⟩ := List.exists_cons_of_ne_nil h.ne_nil
    exact ⟨c, t, ht, hletter c (List.mem_cons_self ..)⟩
  · obtain ⟨t, c, rfl⟩ := (List.eq_nil_or_concat l).resolve_left h.ne_nil
    rw [List.concat_eq_append] at ht hletter ⊢
    exact ⟨c, t, ht, hletter c (by simp)⟩

theorem foldWords_eq (h : Folds r w) : foldWords (tighten r) = w := by
  rw [← fold_eq_foldWords, h.fold_eq]

theorem bracket (h : Folds r w) : Folds ('(' :: (r ++ [')'])) ('(' :: (w ++ [')'])) := by
  have ht : tighten ('(' :: (r ++ [')'])) = '(' :: (tighten r ++ [')']) := by
    rw [← List.nil_append ('(' :: _), tighten_append_cons rfl, tighten_append_cons rfl]
    rfl
  refine ⟨?_, ⟨'(', _, ht, rfl⟩, ⟨')', '(' :: tighten r, ht, rfl⟩⟩
  rw [← List.nil_append ('(' :: _), fold_group, h.fold_eq]
  rfl

/-- Blanks around a text do not matter. -/
theorem padded (h : Folds r w) {b b' : Text} (hb : b.all isBlank = true)
    (hb' : b'.all isBlank = true) : Folds (b ++ (r ++ b')) w := by
  have ht : tighten (b ++ (r ++ b')) = tighten r := by
    rw [tighten_blanks_append hb, tighten_append_blanks hb']
  refine ⟨?_, ht ▸ h.head, ht ▸ h.last⟩
  rw [fold_eq_foldWords, ht, h.foldWords_eq]

/-- A minus with blanks after it stays. -/
theorem negation (h : Folds r w) {b : Text} (hb : Blanks b) :
    Folds ('-' :: (b ++ r)) ('-' :: w) := by
  have ht : tighten ('-' :: (b ++ r)) = '-' :: tighten r := by
    rw [← List.singleton_append, tighten_append_blanks_append hb]
    rfl
  obtain ⟨c, t, hc, hl⟩ := h.last
  refine ⟨?_, ⟨'-', _, ht, rfl⟩, ⟨c, '-' :: t, by rw [ht, hc]; rfl, hl⟩⟩
  rw [fold_eq_foldWords, ht, foldWords, foldBy_cons (isLetter_notMem rfl)]
  exact congrArg _ h.foldWords_eq

/-- An operator with blanks on both sides becomes its character. -/
theorem binary {r' w' s b b' : Text} {c : Char} (h : Folds r w) (h' : Folds r' w')
    (hb : Blanks b) (hb' : Blanks b') (hs : fold s = [c]) :
    Folds (r ++ (b ++ (s ++ (b' ++ r')))) (w ++ c :: w') := by
  have ht : tighten (r ++ (b ++ (s ++ (b' ++ r')))) = tighten r ++ (tighten s ++ tighten r') := by
    rw [tighten_append_blanks_append hb, tighten_append_blanks_append hb']
  -- The operands end and begin with characters that are in no word, so words do not reach beyond.
  obtain ⟨d, t, hd, hld⟩ := h.last
  obtain ⟨e, t', he, hle⟩ := h'.head
  refine ⟨?_, ?_, ?_⟩
  · have hw := h.foldWords_eq
    have hw' := h'.foldWords_eq
    rw [fold_eq_foldWords, foldWords] at hs
    rw [foldWords, hd] at hw
    rw [foldWords, he, foldBy_cons (isLetter_notMem hle)] at hw'
    rw [fold_eq_foldWords, ht, foldWords, hd, he, foldBy_concat_append (isLetter_notMem hld),
      foldBy_append_cons (isLetter_notMem hle), hw, hs, hw']
    rfl
  · obtain ⟨c, t, hc, hl⟩ := h.head
    exact ⟨c, _, by rw [ht, hc]; rfl, hl⟩
  · obtain ⟨c, t, hc, hl⟩ := h'.last
    exact ⟨c, tighten r ++ (tighten s ++ t), by rw [ht, hc]; simp, hl⟩

end Folds

/-! ## Signs -/

/-- The characters of signs. -/
def isSign (c : Char) : Bool := c == '+' || c == '-'

/-- Signs before a literal are folded on their own, by the first two spellings. -/
theorem fold_signs_append {s l : Text} (hs : s.all isSign = true) (h : Decimal.Unsigned l) :
    fold (s ++ l) = foldBy (spellings.take 2) s ++ l := by
  have hsign {d : Char} (hd : d ∈ l) : isSign d = false := by
    rw [Bool.eq_false_iff]
    intro hsign
    obtain rfl | rfl : d = '+' ∨ d = '-' := by simpa [isSign] using hsign
    · exact h.notMem rfl hd
    · exact h.notMem rfl hd
  have hcut : foldBy (spellings.take 2) (s ++ l) = foldBy (spellings.take 2) s ++ l := by
    obtain ⟨d, l, rfl⟩ := List.exists_cons_of_ne_nil h.ne_nil
    have hd := hsign (List.mem_cons_self ..)
    have hplus : d ≠ '+' := by rintro rfl; cases hd
    have hminus : d ≠ '-' := by rintro rfl; cases hd
    have hrest : '-' ∉ l := fun hmem => by cases hsign (List.mem_cons_of_mem d hmem)
    rw [foldBy_append_cons (by simp [spellings, hplus, hminus]),
      foldBy_eq_self (t := l) fun t ht => ⟨'-', ?_, hrest⟩]
    revert t ht
    decide
  -- Folding signs leaves signs, and the other spellings have other characters.
  have hsigns : ∀ d ∈ foldBy (spellings.take 2) s, isSign d = true := by
    intro d hd
    by_contra hn
    have hd := (mem_foldBy_iff (p := fun d => !isSign d) (by decide) (by simpa using hn)).mp hd
    exact hn (List.all_eq_true.mp hs d hd)
  have hothers : ((spellings.drop 2).all fun t =>
      t.1.any fun d => !isSign d && !Decimal.isLiteralChar d) = true := by decide
  show foldBy (spellings.drop 2) (foldBy (spellings.take 2) (s ++ l)) = _
  rw [hcut, foldBy_eq_self]
  intro t ht
  obtain ⟨d, hd, hother⟩ := List.any_eq_true.mp (List.all_eq_true.mp hothers t ht)
  obtain ⟨hns, hnl⟩ : isSign d = false ∧ Decimal.isLiteralChar d = false := by simpa using hother
  refine ⟨d, hd, fun hmem => ?_⟩
  rcases List.mem_append.mp hmem with hmem | hmem
  · rw [hsigns d hmem] at hns
    cases hns
  · exact h.notMem hnl hmem

/-- A minus before a literal stays. -/
theorem fold_minus_literal {l : Text} (h : Decimal.Unsigned l) : fold ('-' :: l) = '-' :: l :=
  fold_signs_append (s := ['-']) rfl h

/-- A plus before a literal stays. -/
theorem fold_plus_literal {l : Text} (h : Decimal.Unsigned l) : fold ('+' :: l) = '+' :: l :=
  fold_signs_append (s := ['+']) rfl h

/-- Two adjacent minus signs are a plus, the next one is left. -/
theorem replaceAll_minuses (k : Nat) :
    replaceAll ['-', '-'] ['+'] (List.replicate k '-') =
      List.replicate (k / 2) '+' ++ List.replicate (k % 2) '-' := by
  induction k using Nat.twoStepInduction with
  | zero => rfl
  | one => rfl
  | more k ih _ =>
    have hk : List.replicate (k + 2) '-' = ['-', '-'] ++ List.replicate k '-' := rfl
    rw [hk, replaceAll_word (by decide), ih, Nat.add_mod_right, Nat.add_div_right k Nat.two_pos,
      List.replicate_succ]
    rfl

/-- A minus takes away the plus before it. -/
theorem replaceAll_pluses_minus (k : Nat) :
    replaceAll ['+', '-'] ['-'] (List.replicate k '+' ++ ['-']) =
      List.replicate (k - 1) '+' ++ ['-'] := by
  induction k with
  | zero => rfl
  | succ k ih =>
    cases k with
    | zero => rfl
    | succ k =>
      have hp : ¬ ['+', '-'] <+: '+' :: (List.replicate (k + 1) '+' ++ ['-']) := by
        rw [List.prefix_cons_inj, List.replicate_succ, List.cons_append, List.cons_prefix_cons]
        exact fun h => absurd h.1 (by decide)
      rw [List.replicate_succ, List.cons_append, replaceAll_cons hp, ih]
      rfl

/-- A run of adjacent minus signs before a literal: half as many plus signs if their number is even;
if it is odd, one plus less and a minus. -/
theorem fold_minuses (k : Nat) {l : Text} (h : Decimal.Unsigned l) :
    fold (List.replicate k '-' ++ l) =
      List.replicate (k / 2 - k % 2) '+' ++ (List.replicate (k % 2) '-' ++ l) := by
  have hs : (List.replicate k '-').all isSign = true := by simp [isSign]
  rw [fold_signs_append hs h, ← List.append_assoc]
  congr 1
  show replaceAll ['+', '-'] ['-'] (replaceAll ['-', '-'] ['+'] (List.replicate k '-')) = _
  rw [replaceAll_minuses]
  rcases Nat.mod_two_eq_zero_or_one k with he | ho
  · rw [he, List.replicate_zero, List.append_nil, List.append_nil, Nat.sub_zero]
    exact replaceAll_of_notMem (List.mem_cons_of_mem _ (List.mem_singleton_self '-')) (by simp)
  · rw [ho]
    exact replaceAll_pluses_minus (k / 2)

end Surface

end Reckon
