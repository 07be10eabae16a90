import Reckon.Text

/-!
# Replacing a word

Replacing a word is a recursion on the text: an occurrence at the front is passed over as a whole,
any other character is kept. So a text may be cut, and its parts be treated one by one, at every
character that is not in the word.

## Main results

* `replace_induction`: induction along the work of `replaceAll`
* `replaceAll_append_cons`: a character that is not in the word is a cut
* `filter_replaceAll`: a class of characters that a word and its replacement share is kept
* `length_replaceAll_lt`: a shorter replacement makes a text with an occurrence shorter
* `not_infix_replaceAll`: a word that is replaced by another character is no more there
-/

namespace Reckon

namespace Text

variable {old new : Text}

/-! ## The recursion -/

theorem replaceFrom_done (skip : Nat) (t done : Text) :
    replaceFrom old new skip t done = done.reverse ++ replaceFrom old new skip t [] := by
  induction t generalizing skip done with
  | nil => simp [replaceFrom]
  | cons c t ih =>
    cases skip with
    | succ skip => exact ih skip done
    | zero =>
      simp only [replaceFrom]
      split
      · rw [ih _ (new.reverseAux done), ih _ (new.reverseAux [])]
        simp [List.reverseAux_eq]
      · rw [ih _ (c :: done), ih _ [c]]
        simp

theorem replaceFrom_skip (skip : Nat) (t : Text) :
    replaceFrom old new skip t [] = replaceAll old new (t.drop skip) := by
  induction t generalizing skip with
  | nil => simp [replaceFrom]
  | cons c t ih =>
    cases skip with
    | zero => rfl
    | succ skip => exact ih skip

/-- An occurrence at the front is replaced, and the work goes on after it. -/
theorem replaceAll_word (h : old ≠ []) (t : Text) :
    replaceAll old new (old ++ t) = new ++ replaceAll old new t := by
  obtain ⟨c, old, rfl⟩ := List.exists_cons_of_ne_nil h
  have hp : (c :: old).isPrefixOf (c :: (old ++ t)) = true :=
    List.isPrefixOf_iff_prefix.mpr (List.prefix_append _ _)
  rw [replaceAll, List.cons_append, replaceFrom, if_pos hp, replaceFrom_done, replaceFrom_skip]
  simp [List.reverseAux_eq]

/-- A character at which no occurrence begins is kept. -/
theorem replaceAll_cons {c : Char} {t : Text} (h : ¬ old <+: c :: t) :
    replaceAll old new (c :: t) = c :: replaceAll old new t := by
  have hp : ¬ old.isPrefixOf (c :: t) = true := fun hp => h (List.isPrefixOf_iff_prefix.mp hp)
  rw [replaceAll, replaceFrom, if_neg hp, replaceFrom_done, replaceFrom_skip]
  simp

/-- Induction along the work of `replaceAll`. -/
@[elab_as_elim]
theorem replace_induction {motive : Text → Prop} (h : old ≠ []) (nil : motive [])
    (word : ∀ t, motive t → motive (old ++ t))
    (char : ∀ c t, ¬ old <+: c :: t → motive t → motive (c :: t)) (t : Text) : motive t := by
  -- an occurrence at the front is passed over as a whole, so the rest is shorter
  by_cases hp : old <+: t
  · obtain ⟨r, hr⟩ := hp
    have : r.length < t.length := by
      rw [← hr, List.length_append]
      exact Nat.lt_add_of_pos_left (List.length_pos_iff.mpr h)
    exact hr ▸ word r (replace_induction h nil word char r)
  · cases t with
    | nil => exact nil
    | cons c t => exact char c t hp (replace_induction h nil word char t)
termination_by t.length

/-- A text without an occurrence stays as it is. -/
theorem replaceAll_of_absent {t : Text} (h : ¬ old <:+: t) : replaceAll old new t = t := by
  induction t with
  | nil => rfl
  | cons c t ih =>
    rw [replaceAll_cons fun hp => h hp.isInfix,
      ih fun hi => h (hi.trans (List.suffix_cons c t).isInfix)]

/-- A text that lacks a character of the word stays as it is. -/
theorem replaceAll_of_notMem {t : Text} {c : Char} (hc : c ∈ old) (h : c ∉ t) :
    replaceAll old new t = t :=
  replaceAll_of_absent fun hi => h (hi.subset hc)

/-- Replacing a single character by nothing drops it. -/
theorem replaceAll_drop (c : Char) (t : Text) : replaceAll [c] [] t = t.filter (· != c) := by
  induction t using replace_induction (List.cons_ne_nil c []) with
  | nil => rfl
  | word t ih => rw [replaceAll_word (by simp), ih]; simp
  | char d t hp ih =>
    have hd : d ≠ c := fun hd => hp ⟨t, by rw [hd]; rfl⟩
    rw [replaceAll_cons hp, ih]
    simp [hd]

/-- A class of characters that the word and its replacement share is kept. -/
theorem filter_replaceAll (p : Char → Bool) (h : old ≠ []) (hp : old.filter p = new.filter p)
    (t : Text) : (replaceAll old new t).filter p = t.filter p := by
  induction t using replace_induction h with
  | nil => rfl
  | word t ih => rw [replaceAll_word h, List.filter_append, List.filter_append, ih, hp]
  | char c t hc ih => rw [replaceAll_cons hc, List.filter_cons, List.filter_cons, ih]

/-- A character that is not in the word is a cut: the texts on both sides of it are treated one by
one. -/
theorem replaceAll_append_cons (h : old ≠ []) {d : Char} (hd : d ∉ old) (s t : Text) :
    replaceAll old new (s ++ d :: t) = replaceAll old new s ++ d :: replaceAll old new t := by
  induction s using replace_induction h with
  | nil =>
    refine replaceAll_cons fun hp => ?_
    obtain ⟨c, old, rfl⟩ := List.exists_cons_of_ne_nil h
    exact hd (by rw [(List.cons_prefix_cons.mp hp).1]; simp)
  | word s ih => rw [List.append_assoc, replaceAll_word h, replaceAll_word h, ih, List.append_assoc]
  | char c s hp ih =>
    -- An occurrence at the front cannot reach beyond the cut.
    have hp' : ¬ old <+: c :: (s ++ d :: t) := by
      rintro ⟨r, hr⟩
      rw [← List.cons_append] at hr
      rcases List.append_eq_append_iff.mp hr with ⟨q, hq, -⟩ | ⟨q, rfl, hq⟩
      · exact hp ⟨q, hq.symm⟩
      · cases q with
        | nil => exact hp ⟨[], by simp⟩
        | cons e q => exact hd (by rw [(List.cons.inj hq).1]; simp)
    rw [List.cons_append, replaceAll_cons hp', replaceAll_cons hp, ih, List.cons_append]

/-! ## Occurrences -/

/-- A shorter replacement makes no text longer. -/
theorem length_replaceAll_le (h : new.length < old.length) (t : Text) :
    (replaceAll old new t).length ≤ t.length := by
  have hne : old ≠ [] := List.ne_nil_of_length_pos (Nat.zero_lt_of_lt h)
  induction t using replace_induction hne with
  | nil => exact Nat.le_refl _
  | word t ih =>
    rw [replaceAll_word hne, List.length_append, List.length_append]
    omega
  | char c t hc ih =>
    rw [replaceAll_cons hc]
    exact Nat.succ_le_succ ih

/-- A shorter replacement makes a text with an occurrence shorter. -/
theorem length_replaceAll_lt (h : new.length < old.length) {t : Text} (ht : old <:+: t) :
    (replaceAll old new t).length < t.length := by
  have hne : old ≠ [] := List.ne_nil_of_length_pos (Nat.zero_lt_of_lt h)
  induction t using replace_induction hne with
  | nil => exact absurd (List.infix_nil.mp ht) hne
  | word t ih =>
    have hle := length_replaceAll_le h t
    rw [replaceAll_word hne, List.length_append, List.length_append]
    omega
  | char c t hc ih =>
    rw [replaceAll_cons hc]
    exact Nat.succ_lt_succ (ih ((List.infix_cons_iff.mp ht).resolve_left hc))

section Single

variable {d : Char} {w : Text}

/-- A word at the front that lacks the new character has been there before. -/
theorem prefix_of_prefix_replaceAll (h : old ≠ []) (hd : d ∉ w) {t : Text}
    (hw : w <+: replaceAll old [d] t) : w <+: t := by
  induction t using replace_induction h generalizing w with
  | nil => exact hw
  | word t ih =>
    rw [replaceAll_word h] at hw
    cases w with
    | nil => exact List.nil_prefix
    | cons e w =>
      obtain ⟨rfl, -⟩ := List.cons_prefix_cons.mp hw
      exact absurd (List.mem_cons_self ..) hd
  | char c t hc ih =>
    rw [replaceAll_cons hc] at hw
    cases w with
    | nil => exact List.nil_prefix
    | cons e w =>
      obtain ⟨rfl, hrest⟩ := List.cons_prefix_cons.mp hw
      have hd' : d ∉ w := fun hmem => hd (List.mem_cons_of_mem _ hmem)
      exact List.cons_prefix_cons.mpr ⟨rfl, ih hd' hrest⟩

/-- A word that lacks the new character has been there before. -/
theorem infix_of_infix_replaceAll (h : old ≠ []) (hne : w ≠ []) (hd : d ∉ w) {t : Text}
    (hw : w <:+: replaceAll old [d] t) : w <:+: t := by
  induction t using replace_induction h with
  | nil => exact hw
  | word t ih =>
    rw [replaceAll_word h, List.singleton_append] at hw
    rcases List.infix_cons_iff.mp hw with hp | hi
    · obtain ⟨e, w, rfl⟩ := List.exists_cons_of_ne_nil hne
      obtain ⟨rfl, -⟩ := List.cons_prefix_cons.mp hp
      exact absurd (List.mem_cons_self ..) hd
    · exact (ih hi).trans (List.suffix_append _ _).isInfix
  | char c t hc ih =>
    rw [replaceAll_cons hc] at hw
    rcases List.infix_cons_iff.mp hw with hp | hi
    · have hp' : w <+: replaceAll old [d] (c :: t) := by rwa [replaceAll_cons hc]
      exact (prefix_of_prefix_replaceAll h hd hp').isInfix
    · exact (ih hi).trans (List.suffix_cons _ _).isInfix

/-- A word that lacks the character it is replaced by is no more there. -/
theorem not_infix_replaceAll (h : old ≠ []) (hd : d ∉ old) (t : Text) :
    ¬ old <:+: replaceAll old [d] t := by
  induction t using replace_induction h with
  | nil => exact fun hi => h (List.infix_nil.mp hi)
  | word t ih =>
    rw [replaceAll_word h, List.singleton_append, List.infix_cons_iff]
    rintro (hp | hi)
    · obtain ⟨e, old, rfl⟩ := List.exists_cons_of_ne_nil h
      obtain ⟨rfl, -⟩ := List.cons_prefix_cons.mp hp
      exact hd (List.mem_cons_self ..)
    · exact ih hi
  | char c t hc ih =>
    rw [replaceAll_cons hc, List.infix_cons_iff]
    rintro (hp | hi)
    · have hp' : old <+: replaceAll old [d] (c :: t) := by rwa [replaceAll_cons hc]
      exact hc (prefix_of_prefix_replaceAll h hd hp')
    · exact ih hi

end Single

end Text

end Reckon
