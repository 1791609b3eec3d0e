import Mathlib.Data.List.ReduceOption
import Mathlib.Data.List.Nodup
import Mathlib.Data.List.Perm.Basic
import Mathlib.Tactic.Common

/-!
# Slot tables

A slot table is a vector of cells, each empty or the owner of one object; no object has two
owners.  The vector never shrinks: clearing empties cells in place, and a new object goes into
the first empty cell or, when there is none, into a cell appended at the end.

* `Slots α`        a table, with the proof that its objects are distinct;
* `Slots.held`     the objects, in cell order;
* `Slots.clear`    empties the cells whose object has `p`: `held_clear`, `mem_clear`;
* `Slots.put`      puts in a new object: `mem_put`, `held_put_perm`;
* `Slots.HeldAt`   the object of one cell: `heldAt_unique`, `heldAt_clear`, `heldAt_put`;
* `Slots.size`     the number of cells: `held_le_size`, `size_clear`, `size_put`.
-/

/-- A table of cells that own distinct objects. -/
structure Slots (α : Type*) where
  cells : List (Option α)
  nodup : cells.reduceOption.Nodup

namespace Slots

section
variable {α : Type*}

instance [DecidableEq α] : DecidableEq (Slots α) := fun t u =>
  decidable_of_iff (t.cells = u.cells) ⟨fun h => by cases t; cases u; congr, fun h => h ▸ rfl⟩

/-- the objects of the table, in cell order -/
def held (t : Slots α) : List α := t.cells.reduceOption

instance : Membership α (Slots α) := ⟨fun t a => some a ∈ t.cells⟩

instance [DecidableEq α] (a : α) (t : Slots α) : Decidable (a ∈ t) :=
  inferInstanceAs (Decidable (some a ∈ t.cells))

theorem mem_held (t : Slots α) (a : α) : a ∈ t.held ↔ a ∈ t := List.reduceOption_mem_iff

theorem held_nodup (t : Slots α) : t.held.Nodup := t.nodup

def empty : Slots α := ⟨[], List.nodup_nil⟩

theorem not_mem_empty (a : α) : a ∉ (empty : Slots α) := List.not_mem_nil

/-! ## clearing cells -/

def clearCell (p : α → Bool) : Option α → Option α
  | none => none
  | some a => if p a then none else some a

theorem reduceOption_clear (p : α → Bool) (cs : List (Option α)) :
    (cs.map (clearCell p)).reduceOption = cs.reduceOption.filter (fun a => !p a) := by
  induction cs with
  | nil => rfl
  | cons c cs ih =>
    cases c with
    | none =>
      show (none :: cs.map (clearCell p)).reduceOption = _
      rw [List.reduceOption_cons_of_none, List.reduceOption_cons_of_none, ih]
    | some a =>
      show ((if p a then none else some a) :: cs.map (clearCell p)).reduceOption = _
      rw [List.reduceOption_cons_of_some, List.filter_cons]
      cases p a
      · rw [if_neg (by simp), List.reduceOption_cons_of_some, ih, if_pos (by simp)]
      · rw [if_pos rfl, List.reduceOption_cons_of_none, ih, if_neg (by simp)]

def clear (t : Slots α) (p : α → Bool) : Slots α where
  cells := t.cells.map (clearCell p)
  nodup := by rw [reduceOption_clear]; exact t.nodup.filter _

theorem held_clear (t : Slots α) (p : α → Bool) :
    (t.clear p).held = t.held.filter (fun a => !p a) := reduceOption_clear p t.cells

theorem mem_clear (t : Slots α) (p : α → Bool) (a : α) :
    a ∈ t.clear p ↔ a ∈ t ∧ p a = false := by
  rw [← mem_held, held_clear, List.mem_filter, mem_held, Bool.not_eq_true']

/-! ## putting in a new object -/

def putCells (a : α) : List (Option α) → List (Option α)
  | [] => [some a]
  | none :: cs => some a :: cs
  | some b :: cs => some b :: putCells a cs

theorem reduceOption_putCells (a : α) (cs : List (Option α)) :
    (putCells a cs).reduceOption.Perm (a :: cs.reduceOption) := by
  induction cs with
  | nil => exact List.Perm.refl _
  | cons c cs ih =>
    cases c with
    | none => exact List.Perm.refl _
    | some b =>
      show (some b :: putCells a cs).reduceOption.Perm _
      rw [List.reduceOption_cons_of_some, List.reduceOption_cons_of_some]
      exact (ih.cons b).trans (List.Perm.swap a b _)

def put (t : Slots α) (a : α) (h : a ∉ t) : Slots α where
  cells := putCells a t.cells
  nodup := (reduceOption_putCells a t.cells).nodup_iff.mpr
    (List.nodup_cons.mpr ⟨fun h' => h ((mem_held t a).mp h'), t.nodup⟩)

theorem held_put_perm (t : Slots α) (a : α) (h : a ∉ t) :
    (t.put a h).held.Perm (a :: t.held) := reduceOption_putCells a t.cells

theorem mem_put (t : Slots α) (a : α) (h : a ∉ t) (b : α) : b ∈ t.put a h ↔ b = a ∨ b ∈ t := by
  rw [← mem_held, (held_put_perm t a h).mem_iff, List.mem_cons, mem_held]

/-! ## one cell -/

/-- cell `i` owns the object `a` -/
def HeldAt (t : Slots α) (i : Nat) (a : α) : Prop := t.cells[i]? = some (some a)

theorem mem_iff_heldAt (t : Slots α) (a : α) : a ∈ t ↔ ∃ i, t.HeldAt i a := List.mem_iff_getElem?

theorem reduceOption_unique (cs : List (Option α)) (h : cs.reduceOption.Nodup) (a : α) :
    ∀ i j : Nat, cs[i]? = some (some a) → cs[j]? = some (some a) → i = j := by
  induction cs with
  | nil =>
    intro i j hi
    cases hi
  | cons c cs ih =>
    have hone : c = some a → ∀ k : Nat, cs[k]? ≠ some (some a) := by
      rintro rfl k hk
      rw [List.reduceOption_cons_of_some, List.nodup_cons, List.reduceOption_mem_iff] at h
      exact h.1 (List.mem_iff_getElem?.mpr ⟨k, hk⟩)
    have hrest : cs.reduceOption.Nodup := by
      cases c with
      | none => rwa [List.reduceOption_cons_of_none] at h
      | some b =>
        rw [List.reduceOption_cons_of_some] at h
        exact (List.nodup_cons.mp h).2
    intro i j hi hj
    cases i with
    | zero =>
      cases j with
      | zero => rfl
      | succ j => exact absurd hj (hone (Option.some.inj hi) j)
    | succ i =>
      cases j with
      | zero => exact absurd hi (hone (Option.some.inj hj) i)
      | succ j => rw [ih hrest i j hi hj]

/-- **No object has two cells.** -/
theorem heldAt_unique {t : Slots α} {i j : Nat} {a : α} (hi : t.HeldAt i a) (hj : t.HeldAt j a) :
    i = j := reduceOption_unique t.cells t.nodup a i j hi hj

theorem heldAt_clear (t : Slots α) (p : α → Bool) (i : Nat) (a : α) :
    (t.clear p).HeldAt i a ↔ t.HeldAt i a ∧ p a = false := by
  show (t.cells.map (clearCell p))[i]? = some (some a) ↔ _
  rw [List.getElem?_map, Option.map_eq_some_iff]
  refine ⟨?_, ?_⟩
  · rintro ⟨c, hc, hcell⟩
    cases c with
    | none => cases hcell
    | some b =>
      change (if p b then none else some b) = some a at hcell
      cases hp : p b with
      | true =>
        rw [hp, if_pos rfl] at hcell
        cases hcell
      | false =>
        rw [hp, if_neg Bool.false_ne_true] at hcell
        obtain rfl := Option.some.inj hcell
        exact ⟨hc, hp⟩
  · rintro ⟨hi, hp⟩
    refine ⟨some a, hi, ?_⟩
    show (if p a then none else some a) = some a
    rw [hp, if_neg Bool.false_ne_true]

theorem putCells_keeps (a b : α) (cs : List (Option α)) (i : Nat) (h : cs[i]? = some (some b)) :
    (putCells a cs)[i]? = some (some b) := by
  induction cs generalizing i with
  | nil => cases h
  | cons c cs ih =>
    cases c with
    | none =>
      cases i with
      | zero => cases h
      | succ i => exact h
    | some d =>
      cases i with
      | zero => exact h
      | succ i => exact ih i h

/-- **A new object moves no other and takes no cell that is taken.** -/
theorem heldAt_put {t : Slots α} {a b : α} (ha : a ∉ t) {i : Nat} (h : t.HeldAt i b) :
    (t.put a ha).HeldAt i b := putCells_keeps a b t.cells i h

/-! ## the number of cells -/

def size (t : Slots α) : Nat := t.cells.length

theorem held_le_size (t : Slots α) : t.held.length ≤ t.size := List.reduceOption_length_le t.cells

theorem size_clear (t : Slots α) (p : α → Bool) : (t.clear p).size = t.size := List.length_map ..

theorem length_putCells (a : α) (cs : List (Option α)) :
    (putCells a cs).length = max cs.length (cs.reduceOption.length + 1) := by
  induction cs with
  | nil => rfl
  | cons c cs ih =>
    have hle := List.reduceOption_length_le cs
    cases c with
    | none =>
      show cs.length + 1 = max (cs.length + 1) ((none :: cs).reduceOption.length + 1)
      rw [List.reduceOption_cons_of_none]
      omega
    | some b =>
      show (putCells a cs).length + 1 = max (cs.length + 1) ((some b :: cs).reduceOption.length + 1)
      rw [List.reduceOption_cons_of_some, List.length_cons, ih]
      omega

/-- **The table grows only when every cell is taken**, and by one. -/
theorem size_put (t : Slots α) (a : α) (h : a ∉ t) :
    (t.put a h).size = max t.size (t.held.length + 1) := length_putCells a t.cells

theorem length_held_put (t : Slots α) (a : α) (h : a ∉ t) :
    (t.put a h).held.length = t.held.length + 1 := (held_put_perm t a h).length_eq

end

end Slots
