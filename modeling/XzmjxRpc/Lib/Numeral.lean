import Mathlib.Algebra.Group.Nat.Defs
import Mathlib.Logic.Function.Basic

/-!
# XzmjxRpc.Lib.Numeral

Natural numbers in ASCII: their digits in a base up to 16, most significant
first, without leading zeros.  `read` takes what `print` writes, and leading
zeros and capitals as well.
-/

namespace Numeral

variable {b n : Nat}

/-- The number in base `b`. -/
def print (b n : Nat) : List (BitVec 8) := (Nat.toDigits b n).map fun c => BitVec.ofNat 8 c.toNat

/-- The value of a digit, `0` to `9`, `a` to `f` or `A` to `F`. -/
def digit (c : BitVec 8) : Option Nat :=
  if 48 ≤ c.toNat ∧ c.toNat ≤ 57 then some (c.toNat - 48)
  else if 97 ≤ c.toNat ∧ c.toNat ≤ 102 then some (c.toNat - 87)
  else if 65 ≤ c.toNat ∧ c.toNat ≤ 70 then some (c.toNat - 55)
  else none

/-- One more digit of a number in base `b`. -/
def push (b n : Nat) (c : BitVec 8) : Option Nat :=
  (digit c).bind fun d => if d < b then some (b * n + d) else none

/-- The number that a text spells in base `b`. -/
def read (b : Nat) (s : List (BitVec 8)) : Option Nat :=
  if s = [] then none else s.foldlM (push b) 0

/-! ## digits -/

/-- The code of a digit is read as the digit. -/
theorem digit_digitChar {d : Nat} (h : d < 16) :
    digit (BitVec.ofNat 8 (Nat.digitChar d).toNat) = some d := by
  have hall : ∀ d : Fin 16, digit (BitVec.ofNat 8 (Nat.digitChar d).toNat) = some d.val := by decide
  exact hall ⟨d, h⟩

/-- A number below the base is a digit. -/
theorem print_of_lt (h : n < b) : print b n = [BitVec.ofNat 8 (Nat.digitChar n).toNat] := by
  rw [print, Nat.toDigits_of_lt_base h, List.map_singleton]

/-- Any other number has one more digit than its quotient. -/
theorem print_of_le (hb : 1 < b) (h : b ≤ n) :
    print b n = print b (n / b) ++ [BitVec.ofNat 8 (Nat.digitChar (n % b)).toNat] := by
  rw [print, Nat.toDigits_of_base_le hb h, List.map_append, List.map_singleton, print]

theorem print_ne_nil : print b n ≠ [] := by
  rw [print, Ne, List.map_eq_nil_iff]
  exact Nat.toDigits_ne_nil

/-- The number of digits. -/
theorem length_print_le_iff {k : Nat} (hb : 1 < b) (hk : 0 < k) :
    (print b n).length ≤ k ↔ n < b ^ k := by
  rw [print, List.length_map, Nat.length_toDigits_le_iff hb hk]

/-! ## reading back -/

theorem push_digitChar (hb : b ≤ 16) {d : Nat} (h : d < b) :
    push b n (BitVec.ofNat 8 (Nat.digitChar d).toNat) = some (b * n + d) := by
  rw [push, digit_digitChar (Nat.lt_of_lt_of_le h hb), Option.bind_some, if_pos h]

/-- **A number reads back.** -/
theorem read_print (hb : 1 < b) (hb' : b ≤ 16) (n : Nat) : read b (print b n) = some n := by
  rw [read, if_neg print_ne_nil]
  induction n using Nat.strongRecOn with
  | ind n ih =>
      by_cases h : n < b
      · rw [print_of_lt h, List.foldlM_cons, push_digitChar hb' h, Nat.mul_zero, Nat.zero_add]
        rfl
      · have hle : b ≤ n := Nat.le_of_not_lt h
        have hquot : n / b < n := Nat.div_lt_self (by omega) hb
        have hmod : n % b < b := Nat.mod_lt n (by omega)
        rw [print_of_le hb hle, List.foldlM_append, ih _ hquot]
        show (List.foldlM (push b) (n / b) [_] : Option Nat) = _
        rw [List.foldlM_cons, push_digitChar hb' hmod, Nat.div_add_mod]
        rfl

/-- Numbers can be told from what is printed for them. -/
theorem print_injective (hb : 1 < b) (hb' : b ≤ 16) : Function.Injective (print b) := by
  intro m n h
  have hread := read_print hb hb' m
  rw [h, read_print hb hb' n] at hread
  exact (Option.some.inj hread).symm

/-- Only digits are printed. -/
theorem notMem_print (hb : 1 < b) (hb' : b ≤ 16) {c : BitVec 8} (hc : digit c = none) (n : Nat) :
    c ∉ print b n := by
  have hne : ∀ d, d < b → c ≠ BitVec.ofNat 8 (Nat.digitChar d).toNat := by
    rintro d hd rfl
    rw [digit_digitChar (Nat.lt_of_lt_of_le hd hb')] at hc
    cases hc
  induction n using Nat.strongRecOn with
  | ind n ih =>
      by_cases h : n < b
      · rw [print_of_lt h, List.mem_singleton]
        exact hne n h
      · have hquot : n / b < n := Nat.div_lt_self (by omega) hb
        rw [print_of_le hb (Nat.le_of_not_lt h), List.mem_append, List.mem_singleton]
        rintro (hmem | hlast)
        · exact ih _ hquot hmem
        · exact hne _ (Nat.mod_lt n (by omega)) hlast

end Numeral
