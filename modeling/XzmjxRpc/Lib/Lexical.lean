/-!
# XzmjxRpc.Lib.Lexical

Comparing lists at the first place where they differ.  `Before xs ys` says
that there is such a place, and that `xs` has the lesser element there; where
one list is the front of the other there is none.  It is a strict order, and
of two lists exactly one comes first, or they are equal, unless one is the
front of the other and shorter (`exactlyOne_iff`).
-/

namespace Lexical

variable {α : Type} [LT α]

/-- `xs` has the lesser element at the first difference. -/
def Before : List α → List α → Prop
  | x :: xs, y :: ys => x < y ∨ x = y ∧ Before xs ys
  | _, _ => False

/-- A front that is not the whole. -/
def ProperFront (xs ys : List α) : Prop := xs <+: ys ∧ xs ≠ ys

/-- One of three, and no other. -/
def ExactlyOne (p q r : Prop) : Prop := (p ∧ ¬ q ∧ ¬ r) ∨ (¬ p ∧ q ∧ ¬ r) ∨ (¬ p ∧ ¬ q ∧ r)

/-- What is beyond the shorter list is never looked at. -/
theorem before_take {n : Nat} {xs ys : List α} (h : min xs.length ys.length ≤ n) :
    Before (xs.take n) (ys.take n) ↔ Before xs ys := by
  induction n generalizing xs ys with
  | zero =>
      cases xs with
      | nil => simp [Before]
      | cons x xs =>
          cases ys with
          | nil => simp [Before]
          | cons y ys =>
              rw [List.length_cons, List.length_cons] at h
              omega
  | succ n ih =>
      cases xs with
      | nil => simp [Before]
      | cons x xs =>
          cases ys with
          | nil => simp [Before]
          | cons y ys =>
              rw [List.length_cons, List.length_cons] at h
              rw [List.take_succ_cons, List.take_succ_cons, Before, Before, ih (by omega)]

variable [LE α] [Std.LawfulOrderLT α]

theorem not_before_self (xs : List α) : ¬ Before xs xs := by
  induction xs with
  | nil => exact id
  | cons x xs ih =>
      rintro (hlt | ⟨-, h⟩)
      · exact Std.lt_irrefl hlt
      · exact ih h

/-- A front does not come before or after the whole. -/
theorem not_before_append (xs ys : List α) : ¬ Before xs (xs ++ ys) ∧ ¬ Before (xs ++ ys) xs := by
  induction xs with
  | nil => cases ys <;> exact ⟨id, id⟩
  | cons x xs ih =>
      constructor
      · rintro (hlt | ⟨-, h⟩)
        · exact Std.lt_irrefl hlt
        · exact ih.1 h
      · rintro (hlt | ⟨-, h⟩)
        · exact Std.lt_irrefl hlt
        · exact ih.2 h

variable [Std.IsLinearOrder α]

theorem Before.trans {xs ys zs : List α} (h₁ : Before xs ys) (h₂ : Before ys zs) :
    Before xs zs := by
  induction xs generalizing ys zs with
  | nil => exact h₁.elim
  | cons x xs ih =>
      cases ys with
      | nil => exact h₁.elim
      | cons y ys =>
          cases zs with
          | nil => exact h₂.elim
          | cons z zs =>
              rcases h₁ with hxy | ⟨rfl, h₁⟩
              · rcases h₂ with hyz | ⟨rfl, -⟩
                · exact .inl (Std.lt_trans hxy hyz)
                · exact .inl hxy
              · rcases h₂ with hyz | ⟨rfl, h₂⟩
                · exact .inl hyz
                · exact .inr ⟨rfl, ih h₁ h₂⟩

theorem Before.asymm {xs ys : List α} (h : Before xs ys) : ¬ Before ys xs := fun h' =>
  not_before_self xs (h.trans h')

/-- Two lists differ somewhere, or one is a front of the other. -/
theorem before_or_front (xs ys : List α) :
    Before xs ys ∨ Before ys xs ∨ xs <+: ys ∨ ys <+: xs := by
  induction xs generalizing ys with
  | nil => exact .inr (.inr (.inl List.nil_prefix))
  | cons x xs ih =>
      cases ys with
      | nil => exact .inr (.inr (.inr List.nil_prefix))
      | cons y ys =>
          rcases Std.lt_trichotomy x y with hlt | rfl | hgt
          · exact .inl (.inl hlt)
          · rcases ih ys with h | h | h | h
            · exact .inl (.inr ⟨rfl, h⟩)
            · exact .inr (.inl (.inr ⟨rfl, h⟩))
            · exact .inr (.inr (.inl (List.cons_prefix_cons.mpr ⟨rfl, h⟩)))
            · exact .inr (.inr (.inr (List.cons_prefix_cons.mpr ⟨rfl, h⟩)))
          · exact .inr (.inl (.inl hgt))

/-- **Trichotomy** holds of two lists if neither is a proper front of the
other, and only then. -/
theorem exactlyOne_iff (xs ys : List α) :
    ExactlyOne (Before xs ys) (Before ys xs) (xs = ys) ↔
      ¬ ProperFront xs ys ∧ ¬ ProperFront ys xs := by
  constructor
  · intro h
    constructor
    · rintro ⟨⟨t, rfl⟩, hne⟩
      have hnot := not_before_append xs t
      rcases h with ⟨h, -, -⟩ | ⟨-, h, -⟩ | ⟨-, -, h⟩
      · exact hnot.1 h
      · exact hnot.2 h
      · exact hne h
    · rintro ⟨⟨t, rfl⟩, hne⟩
      have hnot := not_before_append ys t
      rcases h with ⟨h, -, -⟩ | ⟨-, h, -⟩ | ⟨-, -, h⟩
      · exact hnot.2 h
      · exact hnot.1 h
      · exact hne h.symm
  · rintro ⟨hxy, hyx⟩
    by_cases heq : xs = ys
    · subst heq
      exact .inr (.inr ⟨not_before_self xs, not_before_self xs, rfl⟩)
    · rcases before_or_front xs ys with h | h | h | h
      · exact .inl ⟨h, h.asymm, heq⟩
      · exact .inr (.inl ⟨h.asymm, h, heq⟩)
      · exact absurd ⟨h, heq⟩ hxy
      · exact absurd ⟨h, Ne.symm heq⟩ hyx

end Lexical
