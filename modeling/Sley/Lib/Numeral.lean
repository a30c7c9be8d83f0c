import Mathlib

/-!
# Numerals

Numbers in a base of at most sixteen, in lowercase digits. What `Nat.toDigits` writes is read back
(`value_toDigits`), also behind the zeros that fill it up to a width (`value_leftpad`), and starts
with no zero (`head?_toDigits`).
-/

namespace Numeral

/-- A digit from `0` to `9` or from `a` to `f`. -/
def isLowerHex (c : Char) : Bool := c.isDigit || (c ≥ 'a' && c ≤ 'f')

def digitValue (c : Char) : Nat :=
  if c.isDigit then c.toNat - '0'.toNat else c.toNat - 'a'.toNat + 10

/-- The number that digits write, most significant first. -/
def value (base : Nat) (digits : List Char) : Nat :=
  digits.foldl (fun v c ↦ base * v + digitValue c) 0

theorem isLowerHex_digitChar {d : Nat} (h : d < 16) : isLowerHex d.digitChar :=
  (show ∀ d : Fin 16, isLowerHex d.val.digitChar from by decide) ⟨d, h⟩

theorem digitValue_digitChar {d : Nat} (h : d < 16) : digitValue d.digitChar = d :=
  (show ∀ d : Fin 16, digitValue d.val.digitChar = d.val from by decide) ⟨d, h⟩

variable {base : Nat} (hlt : 1 < base)

include hlt in
/-- Induction on what `Nat.toDigits` writes: a single digit, or one more at the end. -/
theorem toDigits_induction {P : Nat → List Char → Prop} (hdigit : ∀ d < base, P d [d.digitChar])
    (hsnoc : ∀ n, base ≤ n → P (n / base) (Nat.toDigits base (n / base)) →
      P n (Nat.toDigits base (n / base) ++ [(n % base).digitChar])) (n : Nat) :
    P n (Nat.toDigits base n) := by
  induction n using Nat.strongRecOn with
  | ind n ih =>
    rw [Nat.toDigits_eq_if hlt]
    split
    · exact hdigit n ‹_›
    · exact hsnoc n (Nat.not_lt.1 ‹_›) (ih _ (Nat.div_lt_self (by omega) hlt))

theorem value_append_singleton (digits : List Char) (c : Char) :
    value base (digits ++ [c]) = base * value base digits + digitValue c := by
  rw [value, List.foldl_append]
  rfl

variable (hle : base ≤ 16)

include hlt hle

theorem value_toDigits (n : Nat) : value base (Nat.toDigits base n) = n := by
  refine toDigits_induction (P := fun n digits ↦ value base digits = n) hlt (fun d hd ↦ ?_)
    (fun n _ ih ↦ ?_) n
  · rw [← List.nil_append [_], value_append_singleton, digitValue_digitChar (Nat.lt_of_lt_of_le hd hle)]
    exact Nat.zero_add d
  · have hmod := Nat.mod_lt n (Nat.zero_lt_of_lt hlt)
    rw [value_append_singleton, digitValue_digitChar (Nat.lt_of_lt_of_le hmod hle), ih, Nat.div_add_mod]

theorem isLowerHex_of_mem_toDigits (n : Nat) : ∀ c ∈ Nat.toDigits base n, isLowerHex c := by
  refine toDigits_induction (P := fun _ digits ↦ ∀ c ∈ digits, isLowerHex c) hlt (fun d hd ↦ ?_)
    (fun n _ ih ↦ ?_) n
  · exact List.forall_mem_singleton.2 (isLowerHex_digitChar (Nat.lt_of_lt_of_le hd hle))
  · refine List.forall_mem_append.2 ⟨ih, List.forall_mem_singleton.2 (isLowerHex_digitChar ?_)⟩
    exact Nat.lt_of_lt_of_le (Nat.mod_lt n (Nat.zero_lt_of_lt hlt)) hle

omit hlt hle

theorem value_leftpad (width : Nat) (digits : List Char) :
    value base (digits.leftpad width '0') = value base digits := by
  have hzero (k : Nat) : (List.replicate k '0').foldl (fun v c ↦ base * v + digitValue c) 0 = 0 := by
    induction k with
    | zero => rfl
    | succ k ih =>
      rw [List.replicate_succ, List.foldl_cons]
      exact ih
  rw [List.leftpad, value, List.foldl_append, hzero, value]

include hlt in
/-- A number other than zero starts with no zero. -/
theorem head?_toDigits {n : Nat} (hn : n ≠ 0) : (Nat.toDigits base n).head? ≠ some '0' := by
  refine toDigits_induction (P := fun n digits ↦ n ≠ 0 → digits.head? ≠ some '0') hlt
    (fun d _ hd ↦ ?_) (fun n hle ih _ ↦ ?_) n hn
  · rw [List.head?_cons, ne_eq, Option.some.injEq, Nat.digitChar_eq_zero]
    exact hd
  · rw [List.head?_append_of_ne_nil _ Nat.toDigits_ne_nil]
    exact ih (Nat.ne_of_gt (Nat.div_pos hle (Nat.zero_lt_of_lt hlt)))

end Numeral
