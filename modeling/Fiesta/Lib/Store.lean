import Fiesta.Lib.Runs
import Mathlib.Logic.Function.Basic
import Mathlib.Data.List.Basic

/-!
# A store that keeps the last valid write

Events over a keyed store; an event writes one entry, or is not valid and writes none.

* `write`           what one event does;
* `lastWrite`       the value of the last event of a list that writes a key;
* `run_write`       after a list of events the store holds the last writes;
* `lastWrite_eq_some`, `lastWrite_eq_none`   the last write in words.
-/

namespace Store

section
variable {K V E : Type*} [DecidableEq K] (written : E → Option (K × V))

def write (s : K → Option V) (e : E) : K → Option V :=
  match written e with
  | none => s
  | some (k, v) => Function.update s k (some v)

theorem write_of_ne {s : K → Option V} {e : E} {k : K} (h : ∀ v, written e ≠ some (k, v)) :
    write written s e k = s k := by
  unfold write
  cases hw : written e with
  | none => rfl
  | some w =>
    have hne : k ≠ w.1 := by
      rintro rfl
      exact h w.2 hw
    show Function.update s w.1 (some w.2) k = s k
    rw [Function.update_of_ne hne]

theorem write_of_eq {s : K → Option V} {e : E} {k : K} {v : V} (h : written e = some (k, v)) :
    write written s e k = some v := by
  unfold write
  rw [h]
  exact Function.update_self k (some v) s

/-- What the event writes at the key. -/
def writtenAt (k : K) (e : E) : Option V :=
  match written e with
  | none => none
  | some (k', v) => if k' = k then some v else none

theorem writtenAt_eq_some {k : K} {e : E} {v : V} :
    writtenAt written k e = some v ↔ written e = some (k, v) := by
  unfold writtenAt
  split
  · rename_i h
    simp [h]
  · rename_i k' w h
    rw [h]
    split
    · rename_i hk
      simp [hk]
    · rename_i hk
      simp [hk]

theorem writtenAt_eq_none {k : K} {e : E} :
    writtenAt written k e = none ↔ ∀ v, written e ≠ some (k, v) := by
  rw [Option.eq_none_iff_forall_ne_some]
  exact forall_congr' fun v => not_congr (writtenAt_eq_some written)

def lastWrite (k : K) (es : List E) : Option V := es.reverse.findSome? (writtenAt written k)

theorem lastWrite_snoc (k : K) (es : List E) (e : E) :
    lastWrite written k (es ++ [e]) = (writtenAt written k e).or (lastWrite written k es) := by
  unfold lastWrite
  rw [List.reverse_append, List.findSome?_append]
  cases h : writtenAt written k e <;> simp [h]

theorem run_write (s : K → Option V) (es : List E) (k : K) :
    Runs.run (write written) s es k = (lastWrite written k es).or (s k) := by
  induction es using List.reverseRecOn with
  | nil => rfl
  | append_singleton es e ih =>
    rw [Runs.run_snoc, lastWrite_snoc]
    cases h : writtenAt written k e with
    | none =>
      rw [write_of_ne written ((writtenAt_eq_none written).1 h), ih]
      rfl
    | some v =>
      rw [write_of_eq written ((writtenAt_eq_some written).1 h)]
      rfl

theorem lastWrite_eq_some {k : K} {es : List E} {v : V} :
    lastWrite written k es = some v ↔ ∃ before e after, es = before ++ e :: after
      ∧ written e = some (k, v) ∧ ∀ e' ∈ after, ∀ w, written e' ≠ some (k, w) := by
  unfold lastWrite
  rw [List.findSome?_eq_some_iff]
  refine ⟨?_, ?_⟩
  · rintro ⟨l₁, e, l₂, hes, he, hnone⟩
    refine ⟨l₂.reverse, e, l₁.reverse, ?_, (writtenAt_eq_some written).1 he, ?_⟩
    · rw [← List.reverse_reverse es, hes]
      simp
    · intro e' he'
      exact (writtenAt_eq_none written).1 (hnone e' (List.mem_reverse.1 he'))
  · rintro ⟨before, e, after, rfl, he, hnone⟩
    refine ⟨after.reverse, e, before.reverse, by simp, (writtenAt_eq_some written).2 he, ?_⟩
    intro e' he'
    exact (writtenAt_eq_none written).2 (hnone e' (List.mem_reverse.1 he'))

theorem lastWrite_eq_none {k : K} {es : List E} :
    lastWrite written k es = none ↔ ∀ e ∈ es, ∀ v, written e ≠ some (k, v) := by
  unfold lastWrite
  rw [List.findSome?_eq_none_iff]
  refine ⟨?_, ?_⟩
  · intro h e he
    exact (writtenAt_eq_none written).1 (h e (List.mem_reverse.2 he))
  · intro h e he
    exact (writtenAt_eq_none written).2 (h e (List.mem_reverse.1 he))

end

end Store
