import Mathlib.Algebra.Order.Field.Basic
import Mathlib.Tactic.Linarith
import Mathlib.Tactic.Ring

/-!
# A disc beside a square

The square of half side `h` about the origin and the open disc of radius `r` about `(a, b)`, over
any ordered field.

* `apart_of_far`   a disc whose centre is `h + r` or more away along one axis misses the square;
* `meet_of_near`   a disc beside one of the sides that is nearer than that meets it;
* `apart_iff`      so for a centre that is beside one of the sides, not beyond a corner.
-/

namespace Square

section
variable {K : Type*} [Field K] [LinearOrder K] [IsStrictOrderedRing K]

def Inside (h x y : K) : Prop := |x| ≤ h ∧ |y| ≤ h

def InDisc (r a b x y : K) : Prop := (x - a) * (x - a) + (y - b) * (y - b) < r * r

def Apart (h r a b : K) : Prop := ∀ x y, Inside h x y → ¬ InDisc r a b x y

variable {h r a b : K}

omit [IsStrictOrderedRing K] in
theorem Apart.swap (hap : Apart h r a b) : Apart h r b a := by
  intro x y hin hdisc
  apply hap y x ⟨hin.2, hin.1⟩
  unfold InDisc at *
  rwa [add_comm]

theorem apart_of_far (hr : 0 ≤ r) (hfar : h + r ≤ |a|) : Apart h r a b := by
  rintro x y ⟨hx, _⟩ hdisc
  have hdist : r ≤ |x - a| := by
    have htri := abs_sub_abs_le_abs_sub a x
    rw [abs_sub_comm a x] at htri
    linarith
  have hsq : r * r ≤ (x - a) * (x - a) := by
    rw [← abs_mul_abs_self (x - a)]
    exact mul_self_le_mul_self hr hdist
  have hy : 0 ≤ (y - b) * (y - b) := mul_self_nonneg _
  unfold InDisc at hdisc
  linarith

/-- The point of `[-h, h]` closest to `a`. -/
theorem exists_near (hh : 0 ≤ h) (hr : 0 < r) (hnear : |a| < h + r) :
    ∃ x, |x| ≤ h ∧ |x - a| < r := by
  obtain ⟨hlow, hhigh⟩ := abs_lt.1 hnear
  rcases lt_or_ge h a with ha | ha
  · exact ⟨h, (abs_of_nonneg hh).le, by rw [abs_lt]; constructor <;> linarith⟩
  · rcases lt_or_ge a (-h) with hb | hb
    · exact ⟨-h, by rw [abs_neg, abs_of_nonneg hh], by rw [abs_lt]; constructor <;> linarith⟩
    · exact ⟨a, abs_le.2 ⟨hb, ha⟩, by rwa [sub_self, abs_zero]⟩

theorem meet_of_near (hr : 0 < r) (hnear : |a| < h + r) (hb : |b| ≤ h) : ¬ Apart h r a b := by
  obtain ⟨x, hx, hxa⟩ := exists_near ((abs_nonneg b).trans hb) hr hnear
  intro hap
  apply hap x b ⟨hx, hb⟩
  unfold InDisc
  rw [sub_self, mul_zero, add_zero, ← abs_mul_abs_self (x - a)]
  exact mul_self_lt_mul_self (abs_nonneg _) hxa

/-- **Beside a side the distance along the axes decides.** -/
theorem apart_iff (hr : 0 < r) (hside : |a| ≤ h ∨ |b| ≤ h) :
    Apart h r a b ↔ h + r ≤ |a| ∨ h + r ≤ |b| := by
  refine ⟨?_, ?_⟩
  · intro hap
    by_contra hnear
    rw [not_or, not_le, not_le] at hnear
    rcases hside with ha | hb
    · exact meet_of_near hr hnear.2 ha hap.swap
    · exact meet_of_near hr hnear.1 hb hap
  · rintro (hfar | hfar)
    · exact apart_of_far hr.le hfar
    · exact (apart_of_far hr.le hfar).swap

end

end Square
