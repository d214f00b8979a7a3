import Mathlib.Algebra.Order.Field.Basic
import Mathlib.Algebra.Order.Group.DenselyOrdered
import Mathlib.Order.Interval.Set.Basic
import Mathlib.Tactic.Linarith

/-!
# Linear scales

A scale lays the fractions from 0 to 1 out over a segment of positive
width: `position` goes from a fraction to a place, `fraction` back.

A component that draws with one scale and measures with another of the
same width agrees with itself exactly when the two begin at the same
place (`fraction_mem_iff`, `position_mem_iff`).
-/

/-- A segment of positive width, by its left end. -/
structure Scale (α : Type*) [Field α] [LinearOrder α] where
  left : α
  width : α
  width_pos : 0 < width

namespace Scale

variable {α : Type*} [Field α] [LinearOrder α]

def position (s : Scale α) (p : α) : α := s.left + p * s.width

def fraction (s : Scale α) (x : α) : α := (x - s.left) / s.width

/-- The places of the segment, with both ends. -/
def range (s : Scale α) : Set α := Set.Icc s.left (s.left + s.width)

/-! ## There and back -/

@[simp] theorem fraction_position (s : Scale α) (p : α) : s.fraction (s.position p) = p := by
  rw [fraction, position, add_sub_cancel_left, mul_div_cancel_right₀ p s.width_pos.ne']

theorem fraction_left (s : Scale α) : s.fraction s.left = 0 := by
  rw [fraction, sub_self, zero_div]

theorem fraction_right (s : Scale α) : s.fraction (s.left + s.width) = 1 := by
  rw [fraction, add_sub_cancel_left, div_self s.width_pos.ne']

theorem eq_of_left {s t : Scale α} (hwidth : s.width = t.width) (hleft : s.left = t.left) :
    s = t := by
  cases s
  cases t
  subst hleft
  subst hwidth
  rfl

variable [IsStrictOrderedRing α]

theorem fraction_mem {s : Scale α} {x : α} : s.fraction x ∈ Set.Icc 0 1 ↔ x ∈ s.range := by
  rw [fraction, range, Set.mem_Icc, Set.mem_Icc, le_div_iff₀ s.width_pos,
    div_le_one₀ s.width_pos, zero_mul, sub_nonneg, sub_le_iff_le_add']

theorem position_mem {s : Scale α} {p : α} : s.position p ∈ s.range ↔ p ∈ Set.Icc 0 1 := by
  rw [← fraction_mem, fraction_position]

/-! ## Two scales of the same width -/

section
variable {s t : Scale α} (hwidth : s.width = t.width)
include hwidth

/-- **Measuring** all places of `t` by `s` gives fractions from 0 to 1 exactly
if the two begin at the same place. -/
theorem fraction_mem_iff :
    (∀ x ∈ t.range, s.fraction x ∈ Set.Icc 0 1) ↔ s.left = t.left := by
  constructor
  · intro h
    have hpos := t.width_pos
    have hlow := (fraction_mem.mp (h t.left ⟨le_refl _, by linarith⟩)).1
    have hhigh := (fraction_mem.mp (h (t.left + t.width) ⟨by linarith, le_refl _⟩)).2
    rw [hwidth] at hhigh
    exact le_antisymm hlow (le_of_add_le_add_right hhigh)
  · intro hleft x hx
    rw [eq_of_left hwidth hleft]
    exact fraction_mem.mpr hx

/-- **Drawing** all fractions but 0 by `s` stays within the segment of `t`
exactly if the two begin at the same place. -/
theorem position_mem_iff :
    (∀ p ∈ Set.Ioc 0 1, s.position p ∈ t.range) ↔ s.left = t.left := by
  constructor
  · intro h
    have hone := (h 1 ⟨zero_lt_one, le_refl 1⟩).2
    rw [position, one_mul, hwidth] at hone
    refine le_antisymm (le_of_add_le_add_right hone) ?_
    -- fractions as small as we like come as close to the left end of `s`
    refine le_of_forall_pos_le_add ?_
    intro ε hε
    have hp : 0 < min 1 (ε / s.width) := lt_min zero_lt_one (div_pos hε s.width_pos)
    have hmem := (h _ ⟨hp, min_le_left _ _⟩).1
    have hle : min 1 (ε / s.width) * s.width ≤ ε :=
      (le_div_iff₀ s.width_pos).mp (min_le_right _ _)
    rw [position] at hmem
    linarith
  · intro hleft p hp
    rw [← eq_of_left hwidth hleft]
    exact position_mem.mpr ⟨hp.1.le, hp.2⟩

end

end Scale
