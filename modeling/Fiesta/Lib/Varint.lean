import Mathlib.Data.Nat.Log
import Mathlib.Tactic.Ring

/-!
# Numbers in groups of digits

A number is written as its digits in a base, the lowest first, and every digit but the last is
marked by adding the base to it.

* `encode`          the symbols of a number, in a buffer that holds so many of them;
* `decode`          reads at most so many symbols, and adds up what they stand for;
* `decode_encode`   **reading gives the number back**, whatever comes behind it;
* `length_encode`   **how many symbols a number takes**;
* `decode_used`     reading never goes further than it may, whatever is read.
-/

namespace Varint

section
variable {b : ℕ}

/-- `none` if the buffer is too small. -/
def encode (b : ℕ) : ℕ → ℕ → Option (List ℕ)
  | 0, _ => none
  | k + 1, n => if n / b = 0 then some [n % b] else (encode b k (n / b)).map ((n % b + b) :: ·)

/-- `none` if there is nothing more to read; what the digits stand for is added to `value`. -/
def decode (b : ℕ) : ℕ → ℕ → ℕ → List ℕ → Option (ℕ × List ℕ)
  | 0, _, value, l => some (value, l)
  | _ + 1, _, _, [] => none
  | k + 1, scale, value, c :: l =>
    if c < b then some (value + c % b * scale, l)
    else decode b k (scale * b) (value + c % b * scale) l

/-! ## writing -/

theorem encode_last {k n : ℕ} (h : n / b = 0) : encode b (k + 1) n = some [n % b] := if_pos h

theorem encode_more {k n : ℕ} (h : n / b ≠ 0) :
    encode b (k + 1) n = (encode b k (n / b)).map ((n % b + b) :: ·) := if_neg h

/-- A buffer of `k` symbols holds every number below `b ^ k`. -/
theorem exists_encode {k n : ℕ} (hk : k ≠ 0) (h : n < b ^ k) : ∃ l, encode b k n = some l := by
  induction k generalizing n with
  | zero => exact absurd rfl hk
  | succ k ih =>
    by_cases hn : n / b = 0
    · exact ⟨_, encode_last hn⟩
    · have hdiv : n / b < b ^ k := Nat.div_lt_of_lt_mul (by rwa [pow_succ'] at h)
      have hk' : k ≠ 0 := by
        rintro rfl
        rw [pow_zero, Nat.lt_one_iff] at hdiv
        exact hn hdiv
      obtain ⟨l, hl⟩ := ih hk' hdiv
      exact ⟨_, by rw [encode_more hn, hl, Option.map_some]⟩

/-- The symbols do not depend on the buffer. -/
theorem encode_unique {k k' n : ℕ} {l l' : List ℕ} (h : encode b k n = some l)
    (h' : encode b k' n = some l') : l = l' := by
  induction k generalizing k' n l l' with
  | zero => cases h
  | succ k ih =>
    cases k' with
    | zero => cases h'
    | succ k' =>
      by_cases hn : n / b = 0
      · rw [encode_last hn] at h h'
        exact (Option.some.inj h).symm.trans (Option.some.inj h')
      · rw [encode_more hn] at h h'
        obtain ⟨t, ht, rfl⟩ := Option.map_eq_some_iff.1 h
        obtain ⟨t', ht', rfl⟩ := Option.map_eq_some_iff.1 h'
        rw [ih ht ht']

/-- **How many symbols a number takes.** -/
theorem length_encode (hb : 1 < b) {k n : ℕ} {l : List ℕ} (h : encode b k n = some l) :
    l.length = Nat.log b n + 1 := by
  induction k generalizing n l with
  | zero => cases h
  | succ k ih =>
    by_cases hn : n / b = 0
    · rw [encode_last hn, Option.some.injEq] at h
      have hlt : n < b := (Nat.div_eq_zero_iff.1 hn).resolve_left (by omega)
      rw [← h, Nat.log_of_lt hlt]
      rfl
    · rw [encode_more hn] at h
      obtain ⟨rest, hrest, rfl⟩ := Option.map_eq_some_iff.1 h
      have hle : b ≤ n := Nat.le_of_not_lt fun hlt => hn (Nat.div_eq_of_lt hlt)
      rw [List.length_cons, ih hrest, Nat.log_of_one_lt_of_le hb hle]

/-- **Reading gives the number back.** -/
theorem decode_encode (hb : 0 < b) {k n : ℕ} {l : List ℕ} (h : encode b k n = some l)
    (scale value : ℕ) (rest : List ℕ) :
    decode b k scale value (l ++ rest) = some (value + n * scale, rest) := by
  induction k generalizing n l scale value with
  | zero => cases h
  | succ k ih =>
    have hmod : n % b < b := Nat.mod_lt n hb
    by_cases hn : n / b = 0
    · rw [encode_last hn, Option.some.injEq] at h
      have hlt : n < b := (Nat.div_eq_zero_iff.1 hn).resolve_left (by omega)
      rw [← h, List.singleton_append, decode, if_pos hmod, Nat.mod_mod, Nat.mod_eq_of_lt hlt]
    · rw [encode_more hn] at h
      obtain ⟨tail, htail, rfl⟩ := Option.map_eq_some_iff.1 h
      have hmark : ¬ n % b + b < b := by omega
      rw [List.cons_append, decode, if_neg hmark, ih htail, Nat.add_mod_right, Nat.mod_mod]
      have hsum : value + n % b * scale + n / b * (scale * b) = value + n * scale := by
        calc value + n % b * scale + n / b * (scale * b)
            = value + (n % b + b * (n / b)) * scale := by ring
          _ = value + n * scale := by rw [Nat.mod_add_div]
      rw [hsum]

/-! ## reading -/

/-- What is read is at the front, and no longer than it may be. -/
theorem decode_used {k scale value : ℕ} {l rest : List ℕ} {v : ℕ}
    (h : decode b k scale value l = some (v, rest)) : ∃ used, l = used ++ rest ∧ used.length ≤ k := by
  induction k generalizing scale value l with
  | zero =>
    obtain ⟨-, rfl⟩ := Prod.mk.inj (Option.some.inj h)
    exact ⟨[], rfl, Nat.le_refl 0⟩
  | succ k ih =>
    cases l with
    | nil => cases h
    | cons c l =>
      rw [decode] at h
      split at h
      · obtain ⟨-, rfl⟩ := Prod.mk.inj (Option.some.inj h)
        exact ⟨[c], rfl, Nat.succ_le_succ (Nat.zero_le k)⟩
      · obtain ⟨used, rfl, hlength⟩ := ih h
        exact ⟨c :: used, rfl, Nat.succ_le_succ hlength⟩

theorem exists_decode {k : ℕ} {l : List ℕ} (h : k ≤ l.length) (scale value : ℕ) :
    ∃ v rest, decode b k scale value l = some (v, rest) := by
  induction k generalizing scale value l with
  | zero => exact ⟨value, l, rfl⟩
  | succ k ih =>
    cases l with
    | nil => exact absurd h (Nat.not_succ_le_zero k)
    | cons c l =>
      rw [decode]
      split
      · exact ⟨_, _, rfl⟩
      · exact ih (Nat.le_of_succ_le_succ h) _ _

end

end Varint
