import Mathlib.Logic.Function.Basic
import Mathlib.Data.List.Basic

/-!
# Ordered, lossy, delayed broadcast

Every party has a log of the messages it has sent.  A receiver hears some of them, in the order
they were sent and none twice: of each log it keeps how far it has heard, and what it skips is
lost.

* `Broadcast`                  the logs, with how far each party has heard each other;
* `send`, `hear`               the two events;
* `newest`                     the last message heard of a party;
* `heard_le_hear`, `newest_hear`, `newest_send`   what the events do to what was heard.
-/

/-- `heard i j` messages of the log of `j` are behind `i`: the last of them was heard. -/
structure Broadcast (P M : Type*) where
  sent : P → List M
  heard : P → P → Nat
  heard_le : ∀ i j, heard i j ≤ (sent j).length

namespace Broadcast

section
variable {P M : Type*} [DecidableEq P]

def empty : Broadcast P M := ⟨fun _ => [], fun _ _ => 0, fun _ _ => Nat.le_refl _⟩

def send (b : Broadcast P M) (j : P) (ms : List M) : Broadcast P M where
  sent := Function.update b.sent j (b.sent j ++ ms)
  heard := b.heard
  heard_le := by
    intro i k
    have h := b.heard_le i k
    by_cases hk : k = j
    · subst hk
      rw [Function.update_self, List.length_append]
      omega
    · rw [Function.update_of_ne hk]
      exact h

/-- `i` hears the message at place `k` of the log of `j`, if there is one it has not passed. -/
def hear (b : Broadcast P M) (i j : P) (k : Nat) : Broadcast P M where
  sent := b.sent
  heard := fun i' j' =>
    if i' = i ∧ j' = j ∧ b.heard i j ≤ k ∧ k < (b.sent j).length then k + 1 else b.heard i' j'
  heard_le := by
    intro i' j'
    split
    · rename_i h
      rw [h.2.1]
      omega
    · exact b.heard_le i' j'

/-- The last message of `j` that `i` has heard. -/
def newest (b : Broadcast P M) (i j : P) : Option M :=
  if b.heard i j = 0 then none else (b.sent j)[b.heard i j - 1]?

theorem sent_send_self (b : Broadcast P M) (j : P) (ms : List M) :
    (b.send j ms).sent j = b.sent j ++ ms := Function.update_self ..

theorem sent_send_of_ne (b : Broadcast P M) {j k : P} (h : k ≠ j) (ms : List M) :
    (b.send j ms).sent k = b.sent k := Function.update_of_ne h ..

theorem sent_prefix_send (b : Broadcast P M) (j : P) (ms : List M) (k : P) :
    b.sent k <+: (b.send j ms).sent k := by
  by_cases hk : k = j
  · subst hk
    rw [sent_send_self]
    exact List.prefix_append _ _
  · have hsame := sent_send_of_ne b hk ms
    exact ⟨[], by rw [hsame, List.append_nil]⟩

@[simp] theorem heard_send (b : Broadcast P M) (j : P) (ms : List M) :
    (b.send j ms).heard = b.heard := rfl

theorem heard_hear_self (b : Broadcast P M) {i j : P} {k : Nat} (h : b.heard i j ≤ k)
    (hk : k < (b.sent j).length) : (b.hear i j k).heard i j = k + 1 := if_pos ⟨rfl, rfl, h, hk⟩

theorem heard_hear_of_ne (b : Broadcast P M) {i j i' j' : P} (k : Nat) (h : i' ≠ i ∨ j' ≠ j) :
    (b.hear i j k).heard i' j' = b.heard i' j' := by
  apply if_neg
  rintro ⟨hi, hj, _⟩
  exact h.elim (fun h => h hi) (fun h => h hj)

theorem heard_le_hear (b : Broadcast P M) (i j : P) (k : Nat) (i' j' : P) :
    b.heard i' j' ≤ (b.hear i j k).heard i' j' := by
  show _ ≤ if _ then _ else _
  split
  · rename_i h
    rw [h.1, h.2.1]
    exact Nat.le_succ_of_le h.2.2.1
  · exact Nat.le_refl _

theorem newest_hear (b : Broadcast P M) {i j : P} {k : Nat} (h : b.heard i j ≤ k)
    (hk : k < (b.sent j).length) : (b.hear i j k).newest i j = (b.sent j)[k]? := by
  unfold newest
  rw [heard_hear_self b h hk, if_neg (Nat.succ_ne_zero k)]
  rfl

theorem newest_hear_of_ne (b : Broadcast P M) {i j i' j' : P} (k : Nat)
    (h : i' ≠ i ∨ j' ≠ j) : (b.hear i j k).newest i' j' = b.newest i' j' := by
  unfold newest
  rw [heard_hear_of_ne b k h]
  rfl

theorem newest_send (b : Broadcast P M) (j : P) (ms : List M) (i k : P) :
    (b.send j ms).newest i k = b.newest i k := by
  unfold newest
  rw [heard_send]
  split
  · rfl
  · rename_i h
    have hlt : b.heard i k - 1 < (b.sent k).length := by
      have := b.heard_le i k
      omega
    obtain ⟨t, ht⟩ := sent_prefix_send b j ms k
    rw [← ht, List.getElem?_append_left hlt]

/-- What was heard stays heard. -/
theorem heard_send_prefix (b : Broadcast P M) (j : P) (ms : List M) (i k : P) :
    ((b.send j ms).sent k).take ((b.send j ms).heard i k) = (b.sent k).take (b.heard i k) := by
  obtain ⟨t, ht⟩ := sent_prefix_send b j ms k
  rw [heard_send, ← ht, List.take_append_of_le_length (b.heard_le i k)]

theorem mem_heard_hear (b : Broadcast P M) {i j i' j' : P} {k : Nat} {m : M}
    (h : m ∈ (b.sent j').take (b.heard i' j')) :
    m ∈ ((b.hear i j k).sent j').take ((b.hear i j k).heard i' j') :=
  (List.take_prefix_take_left (heard_le_hear b i j k i' j')).subset h

end

end Broadcast
