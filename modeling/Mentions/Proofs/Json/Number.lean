import Mathlib.Data.List.Basic
import Mathlib.Data.List.TakeWhile
import Mentions.Json.Number

/-! # Integers in JSON text

The decimal digits of a number are a literal without a leading zero, and below 2^64 no digit is left
out of its significand. So every such integer is read back from its text.
-/

namespace Mentions.Json.Number

theorem head?_toDigits_ne_zero {n : Nat} (h : 0 < n) : (Nat.toDigits 10 n).head? ≠ some '0' := by
  induction n using Nat.strongRecOn with
  | ind n ih =>
    by_cases hn : n < 10
    · rw [Nat.toDigits_of_lt_base hn, List.head?_cons, Ne, Option.some.injEq,
        Nat.digitChar_eq_zero]
      omega
    · rw [Nat.toDigits_of_base_le (by omega) (by omega),
        List.head?_append_of_ne_nil _ Nat.toDigits_ne_nil]
      exact ih (n / 10) (by omega) (by omega)

theorem no_leading_zero (n : Nat) :
    ¬ ((Nat.toDigits 10 n).head? = some '0' ∧ 1 < (Nat.toDigits 10 n).length) := by
  intro ⟨hhead, hlength⟩
  by_cases hn : 0 < n
  · exact head?_toDigits_ne_zero hn hhead
  · rw [Nat.eq_zero_of_not_pos hn, Nat.toDigits_zero] at hlength
    simp at hlength

theorem isDigit_of_mem_toDigits {n : Nat} {c : Char} (h : c ∈ Nat.toDigits 10 n) :
    c.isDigit = true := Nat.isDigit_of_mem_toDigits (by decide) (by decide) h

theorem minus_notMem_toDigits (n : Nat) : '-' ∉ Nat.toDigits 10 n := by
  intro h
  exact absurd (isDigit_of_mem_toDigits h) (by decide)

theorem takeWhile_toDigits (n : Nat) :
    (Nat.toDigits 10 n).takeWhile Char.isDigit = Nat.toDigits 10 n :=
  List.takeWhile_eq_self_iff.mpr fun _ => isDigit_of_mem_toDigits

theorem dropWhile_toDigits (n : Nat) : (Nat.toDigits 10 n).dropWhile Char.isDigit = [] :=
  List.dropWhile_eq_nil_iff.mpr fun _ => isDigit_of_mem_toDigits

theorem ofDigits_toDigits (n : Nat) : ofDigits (Nat.toDigits 10 n) = n := by
  have h := Nat.ofDigitChars_ten_toDigits (n := n)
  rwa [Nat.ofDigitChars_eq_foldl] at h

theorem literal?_toDigits (n : Nat) :
    literal? (Nat.toDigits 10 n) = some ⟨false, Nat.toDigits 10 n, [], none⟩ := by
  have hzero := no_leading_zero n
  have hminus : ∀ rest, Nat.toDigits 10 n ≠ '-' :: rest := by
    intro rest h
    exact minus_notMem_toDigits n (h ▸ List.mem_cons_self)
  -- the literal is split by its sign, and `hminus` leaves the case without one
  simp [literal?, takeWhile_toDigits, dropWhile_toDigits, Nat.toDigits_ne_nil, hzero, exponent?]

theorem literal?_minus_toDigits (n : Nat) :
    literal? ('-' :: Nat.toDigits 10 n) = some ⟨true, Nat.toDigits 10 n, [], none⟩ := by
  have hzero := no_leading_zero n
  simp [literal?, takeWhile_toDigits, dropWhile_toDigits, Nat.toDigits_ne_nil, hzero, exponent?]

/-! ## Significands -/

theorem le_foldl_digit (cs : List Char) (n : Nat) :
    n ≤ cs.foldl (fun n c => 10 * n + digit c) n := by
  induction cs generalizing n with
  | nil => exact Nat.le_refl n
  | cons c cs ih => exact Nat.le_trans (by omega) (ih (10 * n + digit c))

/-- Below 2^64 every digit is appended. -/
theorem absorb_eq {cs : List Char} {n : Nat}
    (h : cs.foldl (fun n c => 10 * n + digit c) n < Nat.pow 2 64) :
    absorb n cs = (cs.foldl (fun n c => 10 * n + digit c) n, cs.length) := by
  induction cs generalizing n with
  | nil => rfl
  | cons c cs ih =>
    have hnext : 10 * n + digit c < Nat.pow 2 64 :=
      Nat.lt_of_le_of_lt (le_foldl_digit cs (10 * n + digit c)) h
    rw [absorb, if_pos hnext, ih h]
    rfl

theorem not_tooLarge (negative : Bool) {whole : List Char} (h : ofDigits whole < Nat.pow 2 64) :
    (Literal.mk negative whole [] none).tooLarge = false := by
  have hwhole : absorb 0 whole = (ofDigits whole, whole.length) := absorb_eq h
  simp [Literal.tooLarge, hwhole, absorb]

/-! ## Integers -/

theorem read?_toDigits {n : Nat} (h : n < Nat.pow 2 64) :
    read? (Nat.toDigits 10 n) = some (.integer n) := by
  have hsize := not_tooLarge false ((ofDigits_toDigits n).symm ▸ h)
  simp [read?, literal?_toDigits, Literal.value, hsize, ofDigits_toDigits]

theorem read?_minus_toDigits {n : Nat} (hn : 0 < n) (h : n < Nat.pow 2 64) :
    read? ('-' :: Nat.toDigits 10 n) = some (.integer (-n)) := by
  have hsize := not_tooLarge true ((ofDigits_toDigits n).symm ▸ h)
  have hne : n ≠ 0 := Nat.pos_iff_ne_zero.mp hn
  simp [read?, literal?_minus_toDigits, Literal.value, hsize, ofDigits_toDigits, hne]

/-- An integer is written as its digits, after a minus where it is negative. -/
theorem toList_toString_cases (n : Int) :
    (∃ m : Nat, n = m ∧ (toString n).toList = Nat.toDigits 10 m) ∨
      ∃ m : Nat, 0 < m ∧ n = -m ∧ (toString n).toList = '-' :: Nat.toDigits 10 m := by
  cases n with
  | ofNat m =>
    left
    refine ⟨m, rfl, ?_⟩
    show (Nat.repr m).toList = _
    simp [Nat.repr_eq_ofList_toDigits]
  | negSucc m =>
    right
    refine ⟨m + 1, by omega, rfl, ?_⟩
    show ("-" ++ Nat.repr (m + 1)).toList = _
    simp [Nat.repr_eq_ofList_toDigits]

theorem read?_toString {n : Int} (h : n.natAbs < Nat.pow 2 64) :
    read? (toString n).toList = some (.integer n) := by
  rcases toList_toString_cases n with ⟨m, rfl, ht⟩ | ⟨m, hm, rfl, ht⟩
  · rw [ht]
    exact read?_toDigits (by simpa using h)
  · rw [ht]
    exact read?_minus_toDigits hm (by simpa using h)

end Mentions.Json.Number
