import Mathlib.Data.List.Basic
import Mathlib.Tactic.Common

/-!
# Erasing while iterating

The loop over a vector that visits every element in place, erases the ones that are done then and
steps over the others:

    for (it = v.begin(); it != v.end();) { visit(*it); if (done(*it)) it = v.erase(it); else ++it; }

* `sweep`      the loop, with the vector and the index of its iterator;
* `pass`       one visit to each element, in order;
* `sweep_eq`   the loop is one pass over what the iterator has not reached yet;
* `pass_eq`    a pass whose visits only look at the element and leave what they erase alone.
-/

namespace Sweep

section
variable {σ α : Type*} (visit : σ → α → σ × α) (done : α → Bool)

def sweep (s : σ) (v : List α) (it : Nat) : σ × List α :=
  if h : it < v.length then
    let r := visit s v[it]
    let v' := v.set it r.2
    if done r.2 then sweep r.1 (v'.eraseIdx it) it else sweep r.1 v' (it + 1)
  else (s, v)
termination_by v.length - it
decreasing_by
  · rw [List.length_eraseIdx_of_lt (by rwa [List.length_set]), List.length_set]
    omega
  · rw [List.length_set]
    omega

/-- The state after visiting each element once, and the elements that are kept. -/
def pass : σ → List α → σ × List α
  | s, [] => (s, [])
  | s, a :: v =>
    let r := visit s a
    let t := pass r.1 v
    (t.1, if done r.2 then t.2 else r.2 :: t.2)

/-- **The loop skips no element and visits none twice.** -/
theorem sweep_eq (s : σ) (l v : List α) :
    sweep visit done s (l ++ v) l.length
      = ((pass visit done s v).1, l ++ (pass visit done s v).2) := by
  induction v generalizing s l with
  | nil =>
    rw [sweep, dif_neg (by simp)]
    simp only [pass, List.append_nil]
  | cons a v ih =>
    have hlt : l.length < (l ++ a :: v).length := by simp
    have hget : (l ++ a :: v)[l.length] = a := by simp
    have hset : ∀ b, (l ++ a :: v).set l.length b = (l ++ [b]) ++ v := by simp
    have herase : ∀ b, ((l ++ [b]) ++ v).eraseIdx l.length = l ++ v := by
      intro b
      rw [List.append_assoc, List.eraseIdx_append_of_length_le (Nat.le_refl _), Nat.sub_self]
      rfl
    rw [sweep, dif_pos hlt]
    simp only [hget, hset]
    cases hdone : done (visit s a).2 with
    | true =>
      rw [if_pos rfl, herase, ih]
      simp only [pass, hdone, if_true]
    | false =>
      have hlen : l.length + 1 = (l ++ [(visit s a).2]).length := by simp
      rw [if_neg Bool.false_ne_true, hlen, ih]
      simp only [pass, hdone, Bool.false_eq_true, if_false, List.append_assoc, List.singleton_append]

/-- The loop over the whole vector. -/
theorem sweep_all (s : σ) (v : List α) : sweep visit done s v 0 = pass visit done s v :=
  sweep_eq visit done s [] v

variable {visit done}

theorem pass_eq {f : α → α} {g : σ → α → σ}
    (h : ∀ s a, visit s a = (if done (f a) then s else g s (f a), f a)) (s : σ) (v : List α) :
    pass visit done s v = (((v.map f).filter fun a => !done a).foldl g s,
      (v.map f).filter fun a => !done a) := by
  induction v generalizing s with
  | nil => rfl
  | cons a v ih =>
    rw [List.map_cons, List.filter_cons]
    simp only [pass, h s a, ih]
    cases hdone : done (f a) <;> rfl

end

end Sweep
