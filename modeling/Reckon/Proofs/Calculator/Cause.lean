import Reckon.Proofs.Calculator.Language
import Reckon.Proofs.Failure
import Reckon.Proofs.Machine.Cause

/-!
# The failures that a formula can meet

A formula that grows into a tree gives every operator its operands, so a calculation never fails for
want of one, and the machine never meets an operand that is no number. The character of the negation
is not for formulas: one that contains it has no value, and where it stands between two operands
texts are left over.

## Main results

* `negationSymbol_notMem_of_detailed`: a formula with a value does not contain that character
* `reachable_failures`: which failures a calculation can meet, and how they are worded
-/

namespace Reckon

open Nesting

namespace Surface

/-- The character of the negation is neither folded nor written by folding. -/
theorem negationSymbol_mem_fold {t : Text} :
    Operator.negationSymbol ∈ fold t ↔ Operator.negationSymbol ∈ t := mem_fold_iff (by decide)

end Surface

namespace Calculator

variable {precision : Int} {f : Text}

/-- A formula with a value does not contain the character of the negation. -/
theorem negationSymbol_notMem_of_detailed {v : Text} (h : detailed precision f = .ok v) :
    Operator.negationSymbol ∉ f := by
  rw [← Surface.negationSymbol_mem_fold]
  rcases sentence_of_detailed h with hs | ⟨u, hu, hl⟩
  · exact hs.negationSymbol_notMem
  · intro hmem
    have hstrip : Operator.negationSymbol ∈ Brackets.normalize f := by
      refine Brackets.strip_of (P := fun t => Operator.negationSymbol ∈ t) (fun g _ hg => ?_) hmem
      simpa [Operator.negationSymbol] using hg
    rw [hu] at hstrip
    exact hl.notMem rfl (List.mem_of_ne_of_mem (by decide) hstrip)

/-- **The failures that a formula can meet.** Of a balanced formula that grows into a tree, no leaf
is an operator and no operator lacks an operand; texts are left over only if the folded formula
contains the character of the negation, and then as many as the tree has negations of two operands,
and one. A formula with that character has no value. No run, of whatever tokens, meets an operand
that is no number. -/
theorem reachable_failures (precision : Int) :
    (∀ f t, balanced f = true → Tree.ofFormula f = .ok t →
      (∀ l ∈ t.leaves, Operator.ofText? l = none) ∧
        ∀ failure, Machine.run precision t.postOrder = .error (.failure failure) →
          failure.cause.kind ≠ .insufficientOperands ∧
            ∀ n : Nat,
              failure.cause.message =
                "Expected one value after evaluation, found " ++ toString n →
              Operator.negationSymbol ∈ Surface.fold f ∧ n = 1 + t.excess) ∧
      (∀ f, Operator.negationSymbol ∈ f → ∀ v, detailed precision f ≠ .ok v) ∧
      ∀ tokens failure, Machine.run precision tokens = .error (.failure failure) →
        failure.cause.message ≠ "Operand is not a number" := by
  refine ⟨fun f t _ ht => ?_, fun f hmem v hv => ?_, fun tokens failure h => ?_⟩
  · rw [Tree.ofFormula_eq_ofPiece] at ht
    have hgrown := Tree.grown_of_ofPiece _ ht
    refine ⟨fun l hl => hgrown.ofText?_of_mem_leaves hl, fun failure h => ⟨?_, fun n hn => ?_⟩⟩
    · have hcause := Machine.cause_ne_missingOperand_of_run hgrown h
      cases hc : failure.cause <;> simp_all [Cause.kind]
    · have hcause : failure.cause = .leftover n := Cause.message_inj.mp hn
      obtain ⟨hcount, hexcess⟩ := Machine.leftover_of_run hgrown h hcause
      refine ⟨?_, hcount⟩
      -- without the character the tree is an expression, which leaves one text
      by_contra hmem
      obtain ⟨e, rfl⟩ := Tree.exists_expression ht hmem
      exact hexcess (Tree.excess_toTree e)
  · exact negationSymbol_notMem_of_detailed hv hmem
  · intro hmessage
    exact (Machine.cause_of_run h).1 (Cause.message_inj.mp hmessage)

/-- Two operands of the character of the negation, in brackets, under a sum. -/
theorem reachable_failures_two :
    let f := ['1', '+', '(', '2', '_', '3', ')']
    let t : Tree := .binary ['+'] (.leaf ['1']) (.binary ['_'] (.leaf ['2']) (.leaf ['3']))
    let failure : Failure := ⟨.leftover 2, [], none⟩
    (balanced f = true ∧ Tree.ofFormula f = .ok t ∧ ['2'] ∈ t.leaves ∧
        Machine.run 3 t.postOrder = .error (.failure failure) ∧
        failure.cause.message = "Expected one value after evaluation, found " ++ toString 2 ∧
        Operator.negationSymbol ∈ f) ∧
      Operator.ofText? ['2'] = none ∧ failure.cause.kind ≠ .insufficientOperands ∧
      2 = 1 + t.excess ∧ detailed 3 f ≠ .ok [] ∧
      failure.cause.message ≠ "Operand is not a number" := by
  intro f t failure
  have hb : balanced f = true := by decide
  have ht : Tree.ofFormula f = .ok t := by cbv
  have hmem : ['2'] ∈ t.leaves := by decide
  have hrun : Machine.run 3 t.postOrder = .error (.failure failure) := by cbv
  have hunderscore : Operator.negationSymbol ∈ f := by decide
  obtain ⟨hgrown, hvalue, htokens⟩ := reachable_failures 3
  obtain ⟨hleaf, hfailure⟩ := hgrown f t hb ht
  obtain ⟨hkind, hcount⟩ := hfailure failure hrun
  exact ⟨⟨hb, ht, hmem, hrun, rfl, hunderscore⟩, hleaf _ hmem, hkind, (hcount 2 rfl).2,
    hvalue f hunderscore [], htokens _ failure hrun⟩

end Calculator

end Reckon
