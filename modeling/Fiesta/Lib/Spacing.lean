import Mathlib.Algebra.Order.Field.Basic
import Mathlib.Data.List.Forall2
import Mathlib.Tactic.Linarith
import Mathlib.Tactic.Ring

/-!
# Spaced times

Lists of times in which every two are at least `d` apart, in the order they come.

* `spaced_snoc`     one more time;
* `spaced_length`   at most `n` of them lie in a half-open interval of length `n * d`;
* `filter_length`   counting along two lists that go together.
-/

namespace Spacing

section
variable {K : Type*} [Field K] [LinearOrder K] [IsStrictOrderedRing K]

def Spaced (d : K) (l : List K) : Prop := l.Pairwise fun s t => s + d ≤ t

variable {d : K} {l : List K}

omit [IsStrictOrderedRing K] in
theorem spaced_snoc {t : K} : Spaced d (l ++ [t]) ↔ Spaced d l ∧ ∀ s ∈ l, s + d ≤ t := by
  unfold Spaced
  rw [List.pairwise_append]
  simp

theorem spaced_span {s hi : K} (h : Spaced d (s :: l)) (hhi : ∀ t ∈ s :: l, t ≤ hi) :
    s + l.length * d ≤ hi := by
  induction l generalizing s with
  | nil =>
    have hs := hhi s List.mem_cons_self
    simpa using hs
  | cons b l ih =>
    obtain ⟨hs, hl⟩ := List.pairwise_cons.1 h
    have hb : s + d ≤ b := hs b List.mem_cons_self
    have hspan := ih hl fun t ht => hhi t (List.mem_cons_of_mem _ ht)
    rw [List.length_cons, Nat.cast_add_one, add_mul, one_mul]
    linarith

/-- **A half-open interval of length `n * d` holds at most `n`.** -/
theorem spaced_length (hd : 0 < d) (h : Spaced d l) {lo hi : K} {n : ℕ} (hlen : hi = lo + n * d)
    (hin : ∀ t ∈ l, lo < t ∧ t ≤ hi) : l.length ≤ n := by
  cases l with
  | nil => exact Nat.zero_le _
  | cons s l =>
    have hs := (hin s List.mem_cons_self).1
    have hspan := spaced_span h fun t ht => (hin t ht).2
    have hlt : (l.length : K) * d < n * d := by linarith
    exact Nat.cast_lt.1 (lt_of_mul_lt_mul_right hlt hd.le)

end

section
variable {α β : Type*}

theorem filter_length {R : α → β → Prop} {p : α → Bool} {q : β → Bool}
    (himp : ∀ a b, R a b → p a = true → q b = true) {l : List α} {m : List β}
    (h : List.Forall₂ R l m) : (l.filter p).length ≤ (m.filter q).length := by
  induction h with
  | nil => exact Nat.le_refl _
  | @cons a b l m hab _ ih =>
    rw [List.filter_cons, List.filter_cons]
    cases hp : p a with
    | false =>
      rw [if_neg Bool.false_ne_true]
      split
      · exact Nat.le_succ_of_le ih
      · exact ih
    | true =>
      rw [himp a b hab hp, if_pos rfl, if_pos rfl]
      exact Nat.succ_le_succ ih

end

end Spacing
