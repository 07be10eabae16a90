import Reckon.Proofs.Calculator.Literal
import Reckon.Proofs.Folding.Fixpoint

/-!
# Where blanks do not matter

Blanks are dropped after the spellings of two characters have been folded, and before the words are.
So the only thing that a blank can do is to part two characters that would be folded, or that would
be when others have been folded. Where no blanks part two such characters, folding can as well begin
by dropping the blanks; and blanks in a number or in a word never matter, whatever stands around.

## Main definitions

* `Surface.unspaced t`: the text `t` without its blanks
* `Surface.Parted t`: blanks part two paired characters of `t`
* `Calculator.Alike f g`: the formulas `f` and `g` are treated alike

## Main results

* `fold_eq_of_unspaced_eq`: texts that differ in blanks that part nothing are folded alike
* `fold_append_unspaced`: blanks next to characters that are not paired do not matter
* `alike_of_unspaced`: formulas are treated alike whatever blanks part nothing
-/

namespace Reckon

open Brackets Decimal

namespace Surface

/-- A text without its blanks. -/
def unspaced (t : Text) : Text := t.filter fun c => !isBlank c

/-- Folds the spellings of two characters. -/
def foldPairs (t : Text) : Text := foldBy (spellings.take 5) t

variable {t u w x y : Text} {c d : Char}

@[simp] theorem foldPairs_nil : foldPairs [] = [] := rfl

theorem tighten_eq_unspaced (t : Text) : tighten t = unspaced (foldPairs t) := rfl

@[simp] theorem unspaced_append (s t : Text) : unspaced (s ++ t) = unspaced s ++ unspaced t :=
  List.filter_append ..

@[simp] theorem unspaced_unspaced (t : Text) : unspaced (unspaced t) = unspaced t := by
  simp [unspaced, List.filter_filter]

/-! ## Cuts -/

/-- Between two characters that are not both paired, the spellings of two characters are folded on
their own. -/
theorem foldPairs_append
    (h : ∀ c ∈ x.getLast?, ∀ d ∈ y.head?, ¬ (isPaired c = true ∧ isPaired d = true)) :
    foldPairs (x ++ y) = foldPairs x ++ foldPairs y := by
  rcases List.eq_nil_or_concat x with rfl | ⟨x, c, rfl⟩
  · rfl
  rw [List.concat_eq_append] at *
  cases y with
  | nil => rw [List.append_nil, foldPairs_nil, List.append_nil]
  | cons d y =>
    by_cases hc : isPaired c = true
    · have hd : isPaired d = false := by
        rw [Bool.eq_false_iff]
        exact fun hd => h c (by simp) d (by simp) ⟨hc, hd⟩
      rw [foldPairs, foldBy_append_cons (isPaired_notMem hd), foldPairs, foldPairs,
        foldBy_cons (isPaired_notMem hd)]
    · rw [foldPairs, foldBy_concat_append (isPaired_notMem (Bool.eq_false_iff.mpr hc))]
      rfl

/-- A text without paired characters stays as it is. -/
theorem foldPairs_eq_self (h : ∀ c ∈ t, isPaired c = false) : foldPairs t = t := by
  refine foldBy_eq_self fun s hs => ?_
  have hpaired : ((spellings.take 5).all fun s => s.1.any isPaired) = true := by decide
  obtain ⟨c, hc, hp⟩ := List.any_eq_true.mp (List.all_eq_true.mp hpaired s hs)
  refine ⟨c, hc, fun hmem => ?_⟩
  rw [h c hmem] at hp
  cases hp

/-- Folding the spellings of two characters makes no blanks. -/
theorem unspaced_foldPairs (h : ∀ c ∈ t, isBlank c = false) :
    unspaced (foldPairs t) = foldPairs t := by
  rw [unspaced, List.filter_eq_self]
  intro c hc
  rw [Bool.not_eq_true', Bool.eq_false_iff]
  intro hb
  rw [h c ((mem_foldBy_iff (by decide) hb).mp hc)] at hb
  cases hb

/-! ## Blanks that part nothing -/

/-- Blanks, and nothing else, stand between two paired characters. -/
def Parted (t : Text) : Prop :=
  ∃ x c b d y, t = x ++ c :: (b ++ d :: y) ∧ isPaired c = true ∧ isPaired d = true ∧ Blanks b

/-- Blanks at the front end before a paired character. -/
theorem exists_blanks_iff :
    (∃ b d y, t = b ++ d :: y ∧ isPaired d = true ∧ Blanks b) ↔
      t.takeWhile isBlank ≠ [] ∧ (t.dropWhile isBlank).head?.any isPaired = true := by
  constructor
  · rintro ⟨b, d, y, rfl, hd, hne, hb⟩
    have hblank : ∀ c ∈ b, isBlank c = true := List.all_eq_true.mp hb
    have hd' : ¬ isBlank d = true := fun hd' => by
      rw [isPaired_of_isBlank hd'] at hd
      cases hd
    rw [List.takeWhile_append_of_pos hblank, List.takeWhile_cons_of_neg hd', List.append_nil,
      List.dropWhile_append_of_pos hblank, List.dropWhile_cons_of_neg hd']
    exact ⟨hne, hd⟩
  · rintro ⟨hne, hd⟩
    obtain ⟨d, hhead, hd⟩ := (Option.any_eq_true _ _).mp hd
    obtain ⟨y, hy⟩ := List.head?_eq_some_iff.mp hhead
    refine ⟨t.takeWhile isBlank, d, y, ?_, hd, hne, List.all_takeWhile⟩
    rw [← hy, List.takeWhile_append_dropWhile]

theorem parted_cons_iff :
    Parted (c :: t) ↔
      isPaired c = true ∧ t.takeWhile isBlank ≠ [] ∧
          (t.dropWhile isBlank).head?.any isPaired = true ∨ Parted t := by
  rw [← exists_blanks_iff]
  constructor
  · rintro ⟨x, e, b, d, y, h, he, hd, hb⟩
    cases x with
    | nil =>
      obtain ⟨rfl, rfl⟩ := List.cons.inj h
      exact .inl ⟨he, b, d, y, rfl, hd, hb⟩
    | cons a x => exact .inr ⟨x, e, b, d, y, (List.cons.inj h).2, he, hd, hb⟩
  · rintro (⟨hc, b, d, y, rfl, hd, hb⟩ | ⟨x, e, b, d, y, rfl, he, hd, hb⟩)
    · exact ⟨[], c, b, d, y, rfl, hc, hd, hb⟩
    · exact ⟨c :: x, e, b, d, y, rfl, he, hd, hb⟩

instance decidableParted : (t : Text) → Decidable (Parted t)
  | [] => isFalse fun ⟨x, _, _, _, _, h, _⟩ => by cases x <;> cases h
  | _ :: t =>
    have := decidableParted t
    decidable_of_iff _ parted_cons_iff.symm

theorem Parted.append_left (h : Parted t) (s : Text) : Parted (s ++ t) := by
  obtain ⟨x, c, b, d, y, rfl, hc, hd, hb⟩ := h
  exact ⟨s ++ x, c, b, d, y, by simp, hc, hd, hb⟩

/-- Behind a part without blanks, blanks that part nothing may be dropped before the spellings of
two characters are folded. -/
theorem tighten_append_of_not_parted (hu : ∀ c ∈ u, isBlank c = false) (h : ¬ Parted (u ++ t)) :
    tighten (u ++ t) = foldPairs (u ++ unspaced t) := by
  induction t generalizing u with
  | nil =>
    rw [List.append_nil, tighten_eq_unspaced, unspaced_foldPairs hu]
    simp [unspaced]
  | cons c t ih =>
    by_cases hc : isBlank c = true
    -- the blank is a cut for both, as it does not part two paired characters
    · have ht : tighten t = foldPairs (unspaced t) :=
        ih (u := []) (by simp) fun hp => h (by simpa using hp.append_left (u ++ [c]))
      have hcut : Blanks [c] := ⟨List.cons_ne_nil c [], by simp [hc]⟩
      have hdrop : unspaced (c :: t) = unspaced t := by simp [unspaced, hc]
      have hu' : tighten u = foldPairs u := by rw [tighten_eq_unspaced, unspaced_foldPairs hu]
      rw [hdrop, ← List.singleton_append, tighten_append_blanks_append hcut, hu', ht,
        foldPairs_append]
      rintro e he d hd ⟨hpe, hpd⟩
      obtain ⟨x, rfl⟩ := List.getLast?_eq_some_iff.mp he
      obtain ⟨z, hz⟩ := List.head?_eq_some_iff.mp hd
      obtain ⟨b, y, rfl, hb, -, -⟩ := List.filter_eq_cons_iff.mp hz
      refine h ⟨x, e, c :: b, d, y, by simp, hpe, hpd, List.cons_ne_nil c b, ?_⟩
      simpa [hc] using hb
    · have hc' : isBlank c = false := Bool.eq_false_iff.mpr hc
      have hkeep : unspaced (c :: t) = c :: unspaced t := by simp [unspaced, hc']
      have hmem : ∀ d ∈ u ++ [c], isBlank d = false := by
        rw [List.forall_mem_append, List.forall_mem_singleton]
        exact ⟨hu, hc'⟩
      have hnext := ih hmem (by simpa using h)
      rw [hkeep]
      simpa using hnext

/-- Blanks that part nothing may be dropped before the spellings of two characters are folded. -/
theorem tighten_of_not_parted (h : ¬ Parted t) : tighten t = foldPairs (unspaced t) :=
  tighten_append_of_not_parted (u := []) (by simp) h

/-- Texts that differ in blanks that part nothing are folded into the same text. -/
theorem fold_eq_of_unspaced_eq {f g : Text} (h : unspaced f = unspaced g) (hf : ¬ Parted f)
    (hg : ¬ Parted g) : fold f = fold g := by
  rw [fold_eq_foldWords, fold_eq_foldWords, tighten_of_not_parted hf, tighten_of_not_parted hg, h]

/-! ## Blanks among characters that are not paired -/

theorem tighten_append_append (hne : w ≠ []) (hw : ∀ c ∈ w, isPaired c = false) (x y : Text) :
    tighten (x ++ (w ++ y)) = tighten x ++ (unspaced w ++ tighten y) := by
  have hleft : foldPairs (x ++ (w ++ y)) = foldPairs x ++ foldPairs (w ++ y) := by
    refine foldPairs_append fun c _ d hd hp => ?_
    rw [List.head?_append_of_ne_nil _ hne] at hd
    rw [hw d (List.mem_of_mem_head? hd)] at hp
    exact Bool.false_ne_true hp.2
  have hright : foldPairs (w ++ y) = w ++ foldPairs y := by
    rw [foldPairs_append, foldPairs_eq_self hw]
    rintro c hc d - hp
    rw [hw c (List.mem_of_mem_getLast? hc)] at hp
    exact Bool.false_ne_true hp.1
  rw [tighten_eq_unspaced, hleft, hright, unspaced_append, unspaced_append]
  rfl

/-- Blanks next to characters that are not paired do not matter, whatever stands around. -/
theorem fold_append_unspaced (hne : unspaced w ≠ []) (hw : ∀ c ∈ w, isPaired c = false)
    (x y : Text) : fold (x ++ (w ++ y)) = fold (x ++ (unspaced w ++ y)) := by
  have hne' : w ≠ [] := by
    rintro rfl
    exact hne rfl
  have hw' : ∀ c ∈ unspaced w, isPaired c = false := fun c hc => hw c (List.mem_of_mem_filter hc)
  rw [fold_eq_foldWords, fold_eq_foldWords, tighten_append_append hne' hw,
    tighten_append_append hne hw', unspaced_unspaced]

/-- A number or a word has no paired characters, with blanks in it or without. -/
theorem isPaired_of_mem (h : Unsigned (unspaced w) ∨ unspaced w ∈ words) :
    ∀ c ∈ w, isPaired c = false := by
  intro c hc
  by_cases hb : isBlank c = true
  · exact isPaired_of_isBlank hb
  have hmem : c ∈ unspaced w := List.mem_filter.mpr ⟨hc, by simpa using hb⟩
  rw [Bool.eq_false_iff]
  intro hp
  rcases h with hl | hword
  · have hchar : (['+', '-', '>', '<', '!', '='].all fun c => !isLiteralChar c) = true := by decide
    have hc' := List.all_eq_true.mp hchar c (by simpa [isPaired] using hp)
    exact hl.notMem (by simpa using hc') hmem
  · have hchar : (words.all fun v => v.all fun c => !isPaired c) = true := by decide
    have hc' := List.all_eq_true.mp (List.all_eq_true.mp hchar _ hword) c hmem
    rw [hp] at hc'
    cases hc'

theorem unspaced_ne_nil (h : Unsigned (unspaced w) ∨ unspaced w ∈ words) : unspaced w ≠ [] := by
  rcases h with hl | hword
  · exact hl.ne_nil
  · intro hnil
    rw [hnil] at hword
    exact absurd hword (by decide)

end Surface

open Surface

namespace Calculator

/-- Two formulas are treated alike: they are folded and normalized into the same text, they grow
into the same tree or fail alike, and they have the same answer under all settings. -/
structure Alike (f g : Text) : Prop where
  fold_eq : fold f = fold g
  normalize_eq : Brackets.normalize f = Brackets.normalize g
  ofFormula_eq : Tree.ofFormula f = Tree.ofFormula g
  answer_eq : ∀ settings, answer settings f = answer settings g

/-- Formulas are treated alike if they are folded into the same text. -/
theorem alike_of_fold_eq {f g : Text} (h : fold f = fold g) : Alike f g := by
  have hn : Brackets.normalize f = Brackets.normalize g := congrArg strip h
  have htree : Tree.ofFormula f = Tree.ofFormula g := by rw [Tree.ofFormula, hn, Tree.ofFormula]
  exact ⟨h, hn, htree, fun settings => answer_congr settings hn⟩

/-- **Where blanks do not matter.** Two formulas that differ in their blanks are treated alike,
unless in one of them blanks, and nothing else, part two of the characters of which the spellings of
two characters consist. Blanks in a number or in a word never matter, whatever stands around it. -/
theorem alike_of_unspaced :
    (∀ f g : Text, unspaced f = unspaced g → ¬ Parted f → ¬ Parted g → Alike f g) ∧
      ∀ x w y : Text, Unsigned (unspaced w) ∨ unspaced w ∈ words →
        Alike (x ++ (w ++ y)) (x ++ (unspaced w ++ y)) := by
  constructor
  · intro f g h hf hg
    exact alike_of_fold_eq (fold_eq_of_unspaced_eq h hf hg)
  · intro x w y hw
    exact alike_of_fold_eq (fold_append_unspaced (unspaced_ne_nil hw) (isPaired_of_mem hw) x y)

/-- Blanks around a comparison, in a number and in a word; and in a number between two minus signs
that are parted by blanks. -/
theorem alike_of_unspaced_word :
    let f := ['1', ' ', '2', '\u3000', '>', '=', ' ', '3', 'A', ' ', 'n', 'd', '-', ' ', '4']
    let g := ['1', '2', '>', '=', '3', ' ', 'A', 'n', 'd', ' ', '-', '4']
    let x := ['1', '-', ' ', '-']
    let w := ['2', ' ', '.', '5']
    let y := ['-', ' ', '-', '3']
    (unspaced f = unspaced g ∧ ¬ Parted f ∧ ¬ Parted g ∧ Parted (x ++ (w ++ y)) ∧
        Unsigned (unspaced w)) ∧
      Alike f g ∧ Alike (x ++ (w ++ y)) (x ++ (unspaced w ++ y)) := by
  intro f g x w y
  have heq : unspaced f = unspaced g := by decide
  have hf : ¬ Parted f := by decide
  have hg : ¬ Parted g := by decide
  have hparted : Parted (x ++ (w ++ y)) := by decide
  have hw : Unsigned (unspaced w) := by decide
  obtain ⟨hsame, hinside⟩ := alike_of_unspaced
  exact ⟨⟨heq, hf, hg, hparted, hw⟩, hsame f g heq hf hg, hinside x w y (.inl hw)⟩

/-- Blanks that part two minus signs do matter. -/
example : fold ['1', '-', ' ', '-', '5'] ≠ fold ['1', '-', '-', '5'] := by decide

end Calculator

end Reckon
