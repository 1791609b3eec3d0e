import Mathlib.Algebra.Order.Ring.Rat
import Mathlib.Data.Nat.Log
import Mathlib.Tactic.NormNum
import Mathlib.Tactic.Ring

/-!
# Single precision

IEEE binary32 data, the rounding of an exact fraction to them, ties to even, and the operations that
round what is exact.

* `Finite`, `Single`      the finite numbers in canonical form; all data;
* `roundHalfEven`         a fraction to the nearest integer, ties to even;
* `round`                 a signed fraction to the nearest finite number, `none` on overflow;
* `round_eq_none_iff`     overflow happens from `overflow` on, and only there;
* `Single.sub`, `Single.le`   the difference and the comparison.
-/

namespace Binary32

/-! ## the data -/

/-- The number `mant * 2 ^ (exp - 149)` with a sign, in the only form it has. -/
structure Finite where
  neg : Bool
  mant : Nat
  exp : Nat
  mant_lt : mant < 2 ^ 24
  exp_le : exp ≤ 253
  canon : exp = 0 ∨ 2 ^ 23 ≤ mant
deriving DecidableEq

inductive Single where
  | finite (x : Finite)
  | infinity (neg : Bool)
  | nan (neg : Bool)
deriving DecidableEq

def Single.isFinite : Single → Bool
  | .finite _ => true
  | _ => false

/-! ## to the nearest integer -/

def roundHalfEven (n d : Nat) : Nat :=
  if 2 * (n % d) < d then n / d
  else if d < 2 * (n % d) then n / d + 1
  else n / d + n / d % 2

theorem div_le_roundHalfEven (n d : Nat) : n / d ≤ roundHalfEven n d := by
  unfold roundHalfEven
  split
  · exact Nat.le_refl _
  · split <;> omega

/-- An even `k` is reached exactly from the midpoint below it on. -/
theorem le_roundHalfEven_iff {n d k : Nat} (hd : 0 < d) (hk : 0 < k) (heven : k % 2 = 0) :
    k ≤ roundHalfEven n d ↔ (2 * k - 1) * d ≤ 2 * n := by
  have hn : n = d * (n / d) + n % d := (Nat.div_add_mod n d).symm
  have hr : n % d < d := Nat.mod_lt n hd
  generalize hq : n / d = q at hn
  generalize hm : n % d = r at hn hr
  have hround : roundHalfEven n d
      = if 2 * r < d then q else if d < 2 * r then q + 1 else q + q % 2 := by
    unfold roundHalfEven
    rw [hq, hm]
  have htwo : 2 * n = 2 * q * d + 2 * r := by
    rw [hn]
    ring
  rw [hround, htwo]
  rcases Nat.lt_trichotomy (q + 1) k with hlt | heq | hgt
  · -- far below the midpoint
    have hfar : (2 * q + 3) * d ≤ (2 * k - 1) * d := Nat.mul_le_mul_right d (by omega)
    have hexp : (2 * q + 3) * d = 2 * q * d + 3 * d := by ring
    refine iff_of_false ?_ (by omega)
    split
    · omega
    · split <;> omega
  · -- `q` is odd, and the midpoint decides
    have hmid : (2 * k - 1) * d = 2 * q * d + d := by
      have : 2 * k - 1 = 2 * q + 1 := by omega
      rw [this]
      ring
    rw [hmid]
    split
    · omega
    · split <;> omega
  · have hnear : (2 * k - 1) * d ≤ 2 * q * d := Nat.mul_le_mul_right d (by omega)
    refine iff_of_true ?_ (by omega)
    split
    · omega
    · split <;> omega

/-! ## to the nearest finite number -/

/-- The exponent at which the 24 leading bits of `n / d` are a mantissa. -/
def scale (n d : Nat) : Nat := Nat.log2 (2 ^ 149 * n / d) - 23

/-- The mantissa at that exponent; it may be `2 ^ 24`. -/
def mantissa (n d : Nat) : Nat := roundHalfEven (2 ^ 149 * n) (2 ^ scale n d * d)

theorem div_scale (n d : Nat) :
    2 ^ 149 * n / (2 ^ scale n d * d) = 2 ^ 149 * n / d / 2 ^ scale n d := by
  rw [Nat.div_div_eq_div_mul, Nat.mul_comm d]

theorem normal_mantissa {n d : Nat} (h : scale n d ≠ 0) : 2 ^ 23 ≤ mantissa n d := by
  refine le_trans ?_ (div_le_roundHalfEven _ _)
  rw [div_scale]
  have hlog : scale n d + 23 = Nat.log2 (2 ^ 149 * n / d) := by
    unfold scale at h ⊢
    omega
  have hne : 2 ^ 149 * n / d ≠ 0 := by
    intro h0
    unfold scale at h
    rw [h0] at h
    exact h (by decide)
  have hle : 2 ^ (23 + scale n d) ≤ 2 ^ 149 * n / d := by
    rw [Nat.add_comm, hlog]
    exact Nat.log2_self_le hne
  rw [Nat.pow_add] at hle
  exact (Nat.le_div_iff_mul_le (Nat.two_pow_pos _)).2 hle

theorem scale_normal {n d e : Nat} : e + 1 ≤ scale n d ↔ 2 ^ (e + 24) ≤ 2 ^ 149 * n / d := by
  by_cases h0 : 2 ^ 149 * n / d = 0
  · have hpos : 0 < 2 ^ (e + 24) := Nat.two_pow_pos _
    unfold scale
    rw [h0]
    refine iff_of_false ?_ (by omega)
    rw [Nat.log2_zero]
    omega
  · rw [← Nat.le_log2 h0]
    unfold scale
    omega

/-- A signed fraction to the nearest finite number, ties to even; `none` where it overflows. -/
def round (neg : Bool) (n d : Nat) : Option Finite :=
  if hm : mantissa n d < 2 ^ 24 then
    if he : scale n d ≤ 253 then
      some ⟨neg, mantissa n d, scale n d, hm, he,
        (Nat.eq_zero_or_pos _).imp_right fun h => normal_mantissa (by omega)⟩
    else none
  else
    if he : scale n d + 1 ≤ 253 then
      some ⟨neg, 2 ^ 23, scale n d + 1, by decide, he, Or.inr (Nat.le_refl _)⟩
    else none

theorem round_eq_none (neg : Bool) (n d : Nat) :
    round neg n d = none
      ↔ 253 < scale n d ∨ (scale n d = 253 ∧ 2 ^ 24 ≤ mantissa n d) := by
  unfold round
  split
  · split <;> simp <;> omega
  · split <;> simp <;> omega

/-- The midpoint above the largest finite number. -/
def overflow : Nat := 2 ^ 128 - 2 ^ 103

/-- A nonzero fraction below the normal range. -/
def Subnormal (n d : Nat) : Prop := 0 < n ∧ 2 ^ 126 * n < d

instance (n d : Nat) : Decidable (Subnormal n d) := inferInstanceAs (Decidable (_ ∧ _))

/-- **Overflow happens exactly from the midpoint above the largest finite number on.** -/
theorem round_eq_none_iff (neg : Bool) {n d : Nat} (hd : 0 < d) :
    round neg n d = none ↔ overflow * d ≤ n := by
  rw [round_eq_none, overflow]
  have hbig : 253 < scale n d ↔ 2 ^ 128 * d ≤ n := by
    have h := scale_normal (n := n) (d := d) (e := 253)
    rw [Nat.le_div_iff_mul_le hd] at h
    omega
  have hlarge : 252 < scale n d ↔ 2 ^ 127 * d ≤ n := by
    have h := scale_normal (n := n) (d := d) (e := 252)
    rw [Nat.le_div_iff_mul_le hd] at h
    omega
  have hmid : scale n d = 253 → (2 ^ 24 ≤ mantissa n d ↔ (2 ^ 128 - 2 ^ 103) * d ≤ n) := by
    intro he
    unfold mantissa
    rw [he, le_roundHalfEven_iff (Nat.mul_pos (Nat.two_pow_pos _) hd) (by decide) (by decide)]
    have hexp : (2 * 2 ^ 24 - 1) * (2 ^ 253 * d) = (2 * 2 ^ 24 - 1) * 2 ^ 253 * d := by ring
    rw [hexp]
    omega
  refine ⟨?_, ?_⟩
  · rintro (h | ⟨he, hm⟩)
    · have := hbig.1 h
      omega
    · exact (hmid he).1 hm
  · intro h
    by_cases he : 253 < scale n d
    · exact Or.inl he
    · have hfit : 252 < scale n d := hlarge.2 (by omega)
      have heq : scale n d = 253 := by omega
      exact Or.inr ⟨heq, (hmid heq).2 h⟩

/-- The conversion of an integer constant. -/
def Single.ofNat (n : Nat) : Single :=
  match round false n 1 with
  | some x => .finite x
  | none => .infinity false

instance (n : Nat) : OfNat Single n := ⟨Single.ofNat n⟩

example : (round false 1 10).map (fun x => (x.mant, x.exp)) = some (13421773, 122) := by
  decide +kernel

/-! ## arithmetic -/

/-- A number in units of the smallest one. -/
def Finite.units (x : Finite) : Int := if x.neg then -(x.mant * 2 ^ x.exp) else x.mant * 2 ^ x.exp

def Finite.toRat (x : Finite) : ℚ := x.units / 2 ^ 149

/-- The difference of two zeros is positive, but for `-0 - 0`. -/
def Finite.sub (x y : Finite) : Single :=
  let d := x.units - y.units
  match round (if d = 0 then x.neg && !y.neg else decide (d < 0)) d.natAbs (2 ^ 149) with
  | some z => .finite z
  | none => .infinity (decide (d < 0))

def Single.sub : Single → Single → Single
  | .nan neg, _ => .nan neg
  | _, .nan neg => .nan neg
  | .finite x, .finite y => x.sub y
  | .finite _, .infinity neg => .infinity (!neg)
  | .infinity neg, .finite _ => .infinity neg
  | .infinity neg, .infinity neg' => if neg = neg' then .nan false else .infinity neg

/-- Nothing compares with what is not a number. -/
def Single.le : Single → Single → Bool
  | .nan _, _ => false
  | _, .nan _ => false
  | .finite x, .finite y => decide (x.units ≤ y.units)
  | .finite _, .infinity neg => !neg
  | .infinity neg, .finite _ => neg
  | .infinity neg, .infinity neg' => neg || !neg'

instance : Sub Single := ⟨Single.sub⟩

instance : LE Single := ⟨fun x y => x.le y = true⟩

instance : DecidableLE Single := fun x y => inferInstanceAs (Decidable (x.le y = true))

end Binary32
