import Mathlib.Algebra.BigOperators.Group.List.Basic
import Mathlib.Algebra.GroupWithZero.Nat

/-!
# Codecs

A value is written as symbols, and a reader takes one value from the front of what it is given.

* `ReadsBack`           a written value is read back, whatever comes behind it;
* `writeAll`, `readAll`  values one after the other;
* `readsBack_all`       **they are read back as well**, and take the room of all of them.
-/

namespace Codec

section
variable {α σ : Type*}

/-- What is written has the size that was told before, and is read back in front of anything. -/
def ReadsBack (write : α → Option (List σ)) (read : List σ → Option (α × List σ)) (size : α → ℕ)
    (a : α) : Prop :=
  ∃ l, write a = some l ∧ l.length = size a ∧ ∀ rest, read (l ++ rest) = some (a, rest)

def writeAll (write : α → Option (List σ)) : List α → Option (List σ)
  | [] => some []
  | a :: as => (write a).bind fun l => (writeAll write as).map (l ++ ·)

def readAll (read : List σ → Option (α × List σ)) : ℕ → List σ → Option (List α × List σ)
  | 0, l => some ([], l)
  | n + 1, l => (read l).bind fun r => (readAll read n r.2).map fun s => (r.1 :: s.1, s.2)

theorem readsBack_all {write : α → Option (List σ)} {read : List σ → Option (α × List σ)}
    {size : α → ℕ} (as : List α) (h : ∀ a ∈ as, ReadsBack write read size a) :
    ∃ l, writeAll write as = some l ∧ l.length = (as.map size).sum
      ∧ ∀ rest, readAll read as.length (l ++ rest) = some (as, rest) := by
  induction as with
  | nil => exact ⟨[], rfl, rfl, fun _ => rfl⟩
  | cons a as ih =>
    obtain ⟨l, hwrite, hlength, hread⟩ := h a List.mem_cons_self
    obtain ⟨l', hwrite', hlength', hread'⟩ := ih fun x hx => h x (List.mem_cons_of_mem a hx)
    refine ⟨l ++ l', ?_, ?_, fun rest => ?_⟩
    · show (write a).bind _ = _
      rw [hwrite, Option.bind_some, hwrite', Option.map_some]
    · rw [List.length_append, List.map_cons, List.sum_cons, hlength, hlength']
    · show (read (l ++ l' ++ rest)).bind _ = _
      rw [List.append_assoc, hread, Option.bind_some, hread', Option.map_some]

end

end Codec
