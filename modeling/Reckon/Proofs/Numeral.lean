import Mathlib.Data.Nat.Digits.Lemmas
import Mathlib.Data.Nat.Log
import Reckon.Numeral

/-!
# Numerals and positional notation

The halving of the work does not show in its results: joining digits, parting a number and finding
its highest power are the usual positional notation in base ten.

## Main results

* `join_eq_ofDigits`: the joined number is the value of its digits
* `digits_eq_digits`: the parted digits are the digits in base ten
* `log10_eq_log`: the exponent of the highest power is the logarithm
* `join_digits`: joining undoes parting
* `pow_trailingZeros_dvd`: the zeros that are counted end the number
-/

namespace Reckon

namespace Numeral

/-! ## From digits to a number -/

theorem value_eq_ofDigits (base : Nat) (ds : List Nat) : value base ds = Nat.ofDigits base ds := by
  induction ds with
  | nil => rfl
  | cons d ds ih => rw [value, ih, Nat.ofDigits_cons]

theorem ofDigits_joinPairs (base : Nat) (ds done : List Nat) :
    Nat.ofDigits (base * base) (joinPairs base ds done) =
      Nat.ofDigits (base * base) done.reverse +
        (base * base) ^ done.length * Nat.ofDigits base ds := by
  fun_induction joinPairs base ds done with
  | case1 done d e ds ih =>
    rw [ih, Nat.ofDigits_reverse_cons, List.length_cons, Nat.ofDigits_cons, Nat.ofDigits_cons]
    ring
  | case2 done d => rw [Nat.ofDigits_reverse_cons, Nat.ofDigits_singleton]
  | case3 done => simp

theorem joinFrom_eq_ofDigits (rounds base : Nat) (ds : List Nat) :
    joinFrom rounds base ds = Nat.ofDigits base ds := by
  fun_induction joinFrom rounds base ds with
  | case1 base d e ds rounds ih => rw [ih, ofDigits_joinPairs]; simp
  | case2 => exact value_eq_ofDigits _ _

/-- The joined number is the value of its digits. -/
theorem join_eq_ofDigits (ds : List Nat) : join ds = Nat.ofDigits 10 ds.reverse :=
  joinFrom_eq_ofDigits _ _ _

theorem join_append (ds es : List Nat) : join (ds ++ es) = join ds * 10 ^ es.length + join es := by
  simp only [join_eq_ofDigits, List.reverse_append, Nat.ofDigits_append, List.length_reverse]
  ring

@[simp] theorem join_nil : join [] = 0 := rfl

theorem join_lt {ds : List Nat} (h : ∀ d ∈ ds, d < 10) : join ds < 10 ^ ds.length := by
  rw [join_eq_ofDigits, ← List.length_reverse]
  exact Nat.ofDigits_lt_base_pow_length (by omega) fun d hd => h d (List.mem_reverse.mp hd)

@[simp] theorem join_replicate_zero (k : Nat) : join (List.replicate k 0) = 0 := by
  rw [join_eq_ofDigits, List.reverse_replicate, Nat.ofDigits_replicate_zero]

/-! ## The powers that part a number -/

/-- The first `m` powers of ten whose exponents are powers of two, the highest first. -/
def powers : Nat → List Nat
  | 0 => []
  | m + 1 => 10 ^ 2 ^ m :: powers m

@[simp] theorem length_powers (m : Nat) : (powers m).length = m := by
  induction m with
  | zero => rfl
  | succ m ih => rw [powers, List.length_cons, ih]

theorem exists_squaresFrom (n rounds m : Nat) (hn : n < 10 ^ 2 ^ (m + rounds)) :
    ∃ k, squaresFrom n rounds (10 ^ 2 ^ m) (powers m) = powers k ∧ n < 10 ^ 2 ^ k := by
  induction rounds generalizing m with
  | zero => exact ⟨m, rfl, hn⟩
  | succ rounds ih =>
    rw [squaresFrom]
    split
    · have hp : 10 ^ 2 ^ m * 10 ^ 2 ^ m = 10 ^ 2 ^ (m + 1) := by rw [← pow_add]; congr 1; ring
      rw [hp]
      exact ih (m + 1) (by rwa [Nat.add_right_comm])
    · exact ⟨m, rfl, by omega⟩

/-- The powers that part a number reach beyond it. -/
theorem exists_squares (n : Nat) : ∃ m, squares n = powers m ∧ n < 10 ^ 2 ^ m := by
  refine exists_squaresFrom n (Nat.log2 n + 1) 0 ?_
  rw [Nat.zero_add]
  calc n < 2 ^ (Nat.log2 n + 1) := Nat.lt_log2_self
    _ ≤ 10 ^ (Nat.log2 n + 1) := Nat.pow_le_pow_left (by omega) _
    _ ≤ 10 ^ 2 ^ (Nat.log2 n + 1) := Nat.pow_le_pow_right (by omega) Nat.lt_two_pow_self.le

/-! ## From a number to digits -/

/-- Parting by powers writes as many digits as the powers reach. -/
theorem exists_part (m n : Nat) (hn : n < 10 ^ 2 ^ m) (done : List Nat) :
    ∃ ds, part (powers m) n done = ds ++ done ∧ ds.length = 2 ^ m ∧ (∀ d ∈ ds, d < 10) ∧
      join ds = n := by
  induction m generalizing n done with
  | zero => exact ⟨[n], rfl, rfl, by simpa using hn, by simp [join_eq_ofDigits]⟩
  | succ m ih =>
    have hpos : 0 < 10 ^ 2 ^ m := by positivity
    have hdiv : n / 10 ^ 2 ^ m < 10 ^ 2 ^ m := by
      rw [Nat.div_lt_iff_lt_mul hpos, ← pow_add, ← Nat.two_mul, ← pow_succ']
      exact hn
    obtain ⟨es, hes, hel, he10, he⟩ := ih (n % 10 ^ 2 ^ m) (Nat.mod_lt _ hpos) done
    obtain ⟨ds, hds, hdl, hd10, hd⟩ := ih (n / 10 ^ 2 ^ m) hdiv (es ++ done)
    refine ⟨ds ++ es, ?_, ?_, ?_, ?_⟩
    · rw [powers, part, hes, hds, List.append_assoc]
    · rw [List.length_append, hdl, hel, pow_succ]
      omega
    · intro d hmem
      rcases List.mem_append.mp hmem with hmem | hmem
      · exact hd10 d hmem
      · exact he10 d hmem
    · rw [join_append, hd, he, hel]
      exact Nat.div_add_mod' n _

theorem join_dropWhile_zero (ds : List Nat) : join (ds.dropWhile (· == 0)) = join ds := by
  induction ds with
  | nil => rfl
  | cons d ds ih =>
    by_cases hd : d = 0
    · subst hd
      rw [List.dropWhile_cons_of_pos (by simp), ih, join_eq_ofDigits, join_eq_ofDigits,
        Nat.ofDigits_reverse_zero_cons]
    · rw [List.dropWhile_cons_of_neg (by simpa using hd)]

/-- The parted digits are the digits in base ten. -/
theorem digits_eq_digits (n : Nat) : digits n = (Nat.digits 10 n).reverse := by
  obtain ⟨m, hm, hn⟩ := exists_squares n
  obtain ⟨ds, hds, -, h10, hjoin⟩ := exists_part m n hn []
  have he : digits n = ds.dropWhile (· == 0) := by rw [digits, hm, hds, List.append_nil]
  have hvalue : Nat.ofDigits 10 (digits n).reverse = n := by
    rw [← join_eq_ofDigits, he, join_dropWhile_zero, hjoin]
  rw [← List.reverse_eq_iff, eq_comm]
  conv_lhs => rw [← hvalue]
  refine Nat.digits_ofDigits 10 (by omega) _ ?_ ?_
  · intro d hd
    rw [List.mem_reverse, he] at hd
    exact h10 d ((List.dropWhile_suffix _).subset hd)
  · intro hne
    rw [List.getLast_reverse]
    have hne' : ds.dropWhile (· == 0) ≠ [] := by simpa [he] using hne
    simpa [he] using List.head_dropWhile_not (· == 0) hne'

/-- Joining undoes parting. -/
@[simp] theorem join_digits (n : Nat) : join (digits n) = n := by
  rw [join_eq_ofDigits, digits_eq_digits, List.reverse_reverse, Nat.ofDigits_digits]

theorem lt_ten_of_mem_digits {n d : Nat} (h : d ∈ digits n) : d < 10 := by
  rw [digits_eq_digits, List.mem_reverse] at h
  exact Nat.digits_lt_base (by omega) h

/-! ## The highest power -/

theorem logFrom_eq_log (m n : Nat) (hn : n < 10 ^ 2 ^ m) : logFrom (powers m) n = Nat.log 10 n := by
  induction m generalizing n with
  | zero => exact (Nat.log_of_lt (by simpa using hn)).symm
  | succ m ih =>
    have hpos : 0 < 10 ^ 2 ^ m := by positivity
    rw [powers, logFrom, length_powers]
    split
    · rename_i hle
      have hdiv : n / 10 ^ 2 ^ m < 10 ^ 2 ^ m := by
        rw [Nat.div_lt_iff_lt_mul hpos, ← pow_add, ← Nat.two_mul, ← pow_succ']
        exact hn
      have hlog : 2 ^ m ≤ Nat.log 10 n := Nat.le_log_of_pow_le (by omega) hle
      rw [ih _ hdiv, Nat.log_div_base_pow]
      omega
    · exact ih n (by omega)

/-- The exponent of the highest power is the logarithm. -/
theorem log10_eq_log (n : Nat) : log10 n = Nat.log 10 n := by
  obtain ⟨m, hm, hn⟩ := exists_squares n
  rw [log10, hm, logFrom_eq_log m n hn]

/-! ## Zeros at the end -/

theorem pow_zerosFrom_dvd (m limit n : Nat) : 10 ^ zerosFrom (powers m) limit n ∣ n := by
  induction m generalizing limit n with
  | zero => exact one_dvd n
  | succ m ih =>
    rw [powers, zerosFrom, length_powers]
    split
    · rename_i h
      obtain ⟨k, rfl⟩ := Nat.dvd_of_mod_eq_zero h.2
      rw [Nat.mul_div_cancel_left _ (by positivity), pow_add]
      exact Nat.mul_dvd_mul_left _ (ih _ k)
    · exact ih limit n

/-- A number ends with as many zeros as are counted. -/
theorem pow_trailingZeros_dvd (limit n : Nat) : 10 ^ trailingZeros limit n ∣ n := by
  obtain ⟨m, hm, -⟩ := exists_squares n
  rw [trailingZeros, hm]
  exact pow_zerosFrom_dvd m limit n

/-! ## Digits as characters -/

theorem value_lt_ten (c : Char) : DecimalDigit.value c < 10 := by
  unfold DecimalDigit.value
  cases h : DecimalDigit.value? c with
  | none => exact Nat.succ_pos 9
  | some d =>
    -- the zero that is found is that of the run of the character
    obtain ⟨z, hz, rfl⟩ := Option.map_eq_some_iff.mp h
    have hrun := List.find?_some hz
    rw [Bool.and_eq_true, decide_eq_true_eq, decide_eq_true_eq] at hrun
    simp only [Option.getD_some]
    omega

theorem value?_digitChar {d : Nat} (h : d < 10) : DecimalDigit.value? (digitChar d) = some d := by
  revert d
  decide

end Numeral

end Reckon
