import Mathlib.Algebra.Group.Nat.Defs
import Mathlib.Algebra.Group.Int.Defs

/-!
# XzmjxRpc.Lib.Checked

Steps that a language defines on some of their operands only: signed
arithmetic, whose result has to fit its type, shifts, which have to be by less
than the width, and accesses to an array, which have to stay inside it.  A
step fails where it is not defined, so a computation that succeeds takes
defined steps only.
-/

/-- Why a step is not defined. -/
inductive Undefined where
  /-- The result does not fit its type. -/
  | overflow
  /-- The shift is by the width or more. -/
  | shift
  /-- The access is outside the array. -/
  | access
  deriving DecidableEq, Repr

/-- A computation that fails at its first step that is not defined. -/
abbrev Checked (α : Type) := Except Undefined α

namespace Checked

/-- A computation succeeds when its steps do. -/
theorem bind_eq_ok {α β : Type} {m : Checked α} {f : α → Checked β} {b : β} :
    (m >>= f) = .ok b ↔ ∃ a, m = .ok a ∧ f a = .ok b := by
  cases m with
  | error e =>
      show Except.error e = Except.ok b ↔ _
      simp
  | ok a =>
      show f a = .ok b ↔ _
      simp

theorem pure_eq_ok {α : Type} {a b : α} : (pure a : Checked α) = .ok b ↔ b = a := by
  show Except.ok a = Except.ok b ↔ b = a
  rw [Except.ok.injEq, eq_comm]

/-- A computation with an undefined step has no result. -/
theorem not_ok {α : Type} {m : Checked α} {e : Undefined} (h : m = .error e) :
    ¬ ∃ a, m = .ok a := by
  rintro ⟨a, ha⟩
  rw [h] at ha
  cases ha

/-! ## signed arithmetic -/

section
variable {w : Nat}

/-- `-x`. -/
def neg (x : BitVec w) : Checked (BitVec w) :=
  if x.negOverflow then .error .overflow else .ok (-x)

/-- `x - y`. -/
def sub (x y : BitVec w) : Checked (BitVec w) :=
  if x.ssubOverflow y then .error .overflow else .ok (x - y)

/-- `x * y`. -/
def mul (x y : BitVec w) : Checked (BitVec w) :=
  if x.smulOverflow y then .error .overflow else .ok (x * y)

/-- `x << k`. -/
def shl (x : BitVec w) (k : Nat) : Checked (BitVec w) :=
  if k < w then .ok (x <<< k) else .error .shift

/-- A step that fails in one case only. -/
theorem step_eq_ok {α : Type} {c : Bool} {e : Undefined} {x y : α} :
    (if c then .error e else .ok x : Checked α) = .ok y ↔ c = false ∧ y = x := by
  cases c with
  | true => simp
  | false => simp [eq_comm]

/-- Only the least number has no negative. -/
theorem neg_eq_ok {x y : BitVec w} : neg x = .ok y ↔ x.toInt ≠ -2 ^ (w - 1) ∧ y = -x := by
  rw [neg, step_eq_ok, BitVec.negOverflow, beq_eq_false_iff_ne]

theorem sub_eq_ok {x y z : BitVec w} :
    sub x y = .ok z ↔
      (-2 ^ (w - 1) ≤ x.toInt - y.toInt ∧ x.toInt - y.toInt < 2 ^ (w - 1)) ∧ z = x - y := by
  have hfits : x.ssubOverflow y = false ↔
      -2 ^ (w - 1) ≤ x.toInt - y.toInt ∧ x.toInt - y.toInt < 2 ^ (w - 1) := by
    simp only [BitVec.ssubOverflow, Bool.or_eq_false_iff, decide_eq_false_iff_not]
    omega
  rw [sub, step_eq_ok, hfits]

theorem mul_eq_ok {x y z : BitVec w} :
    mul x y = .ok z ↔
      (-2 ^ (w - 1) ≤ x.toInt * y.toInt ∧ x.toInt * y.toInt < 2 ^ (w - 1)) ∧ z = x * y := by
  have hfits : x.smulOverflow y = false ↔
      -2 ^ (w - 1) ≤ x.toInt * y.toInt ∧ x.toInt * y.toInt < 2 ^ (w - 1) := by
    simp only [BitVec.smulOverflow, Bool.or_eq_false_iff, decide_eq_false_iff_not]
    omega
  rw [mul, step_eq_ok, hfits]

theorem shl_eq_ok {x y : BitVec w} {k : Nat} : shl x k = .ok y ↔ k < w ∧ y = x <<< k := by
  unfold shl
  by_cases h : k < w
  · simp [h, eq_comm]
  · simp [h]

end

/-! ## arrays -/

section
variable {α : Type} {n : Nat}

/-- `v[i]`. -/
def load (v : Vector α n) (i : Nat) : Checked α :=
  if h : i < n then .ok v[i] else .error .access

/-- `v[i] = x`. -/
def store (v : Vector α n) (i : Nat) (x : α) : Checked (Vector α n) :=
  if h : i < n then .ok (v.set i x) else .error .access

/-- `for (i = lo; i < hi; i++) v[i] = x`. -/
def fill (v : Vector α n) (lo hi : Nat) (x : α) : Checked (Vector α n) :=
  (List.range' lo (hi - lo)).foldlM (fun v i => store v i x) v

theorem load_eq_error {v : Vector α n} {i : Nat} (h : n ≤ i) : load v i = .error .access :=
  dif_neg (Nat.not_lt.mpr h)

theorem load_eq_ok {v : Vector α n} {i : Nat} (h : i < n) : load v i = .ok v[i] :=
  dif_pos h

theorem store_eq_ok {v : Vector α n} {i : Nat} (h : i < n) (x : α) :
    store v i x = .ok (v.set i x) :=
  dif_pos h

/-- A loop that stays inside the array fills its range and nothing else. -/
theorem fill_eq_ok (v : Vector α n) (lo : Nat) {hi : Nat} (h : hi ≤ n) (x : α) :
    fill v lo hi x =
      .ok (Vector.ofFn fun j => if lo ≤ j.val ∧ j.val < hi then x else v[j.val]) := by
  unfold fill
  generalize hk : hi - lo = k
  induction k generalizing lo v with
  | zero =>
      rw [List.range'_zero, List.foldlM_nil]
      congr 1
      ext j hj
      rw [Vector.getElem_ofFn, if_neg (by omega)]
  | succ k ih =>
      rw [List.range'_succ, List.foldlM_cons, store_eq_ok (by omega)]
      show List.foldlM _ _ _ = _
      rw [ih _ _ (by omega)]
      congr 1
      ext j hj
      rw [Vector.getElem_ofFn, Vector.getElem_ofFn, Vector.getElem_set]
      dsimp only
      by_cases hlo : lo = j
      · rw [if_neg (by omega), if_pos hlo, if_pos (by omega)]
      · rw [if_neg hlo]
        by_cases hin : lo + 1 ≤ j ∧ j < hi
        · rw [if_pos hin, if_pos (by omega)]
        · rw [if_neg hin, if_neg (by omega)]

end

end Checked
