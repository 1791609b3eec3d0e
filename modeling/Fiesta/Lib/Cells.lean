import Mathlib.Data.List.Basic

/-!
# Raw memory

A block of memory holds places for values.  A place is raw until a value is constructed in it, and
raw again once it is destroyed.  What the language leaves undefined has no result: to leave the block,
to construct where a value is alive, to read, assign or destroy where none is.

* `read`, `construct`, `assign`, `destroy`   what may be done in a place;
* `filled`                                   values at the front, and raw memory behind them;
* `read_append`, ...                         the rules, for the place behind some others.
-/

abbrev Cells (α : Type*) := List (Option α)

namespace Cells

section
variable {α : Type*}

def raw (size : ℕ) : Cells α := List.replicate size none

def filled (l : List α) (room : ℕ) : Cells α := l.map some ++ raw room

def read (m : Cells α) (i : ℕ) : Option α := m[i]?.join

def construct (m : Cells α) (i : ℕ) (a : α) : Option (Cells α) :=
  match m[i]? with
  | some none => some (m.set i (some a))
  | _ => none

def assign (m : Cells α) (i : ℕ) (a : α) : Option (Cells α) :=
  match m[i]? with
  | some (some _) => some (m.set i (some a))
  | _ => none

def destroy (m : Cells α) (i : ℕ) : Option (Cells α) :=
  match m[i]? with
  | some (some _) => some (m.set i none)
  | _ => none

/-- A block is given back when no value in it is alive any more. -/
def free (m : Cells α) : Option Unit := if m.all Option.isNone then some () else none

/-! ## the rules -/

theorem getElem?_append (p s : Cells α) (x : Option α) : (p ++ x :: s)[p.length]? = some x := by
  rw [List.getElem?_append_right (Nat.le_refl _), Nat.sub_self]
  rfl

theorem set_append (p s : Cells α) (x y : Option α) :
    (p ++ x :: s).set p.length y = p ++ y :: s := by
  rw [List.set_append_right _ _ (Nat.le_refl _), Nat.sub_self]
  rfl

theorem read_append {p s : Cells α} {i : ℕ} (hi : i = p.length) (a : α) :
    read (p ++ some a :: s) i = some a := by
  unfold read
  rw [hi, getElem?_append]
  rfl

theorem construct_append {p s : Cells α} {i : ℕ} (hi : i = p.length) (a : α) :
    construct (p ++ none :: s) i a = some (p ++ some a :: s) := by
  unfold construct
  rw [hi, getElem?_append]
  exact congrArg some (set_append p s none (some a))

theorem assign_append {p s : Cells α} {i : ℕ} (hi : i = p.length) (a b : α) :
    assign (p ++ some a :: s) i b = some (p ++ some b :: s) := by
  unfold assign
  rw [hi, getElem?_append]
  exact congrArg some (set_append p s (some a) (some b))

theorem destroy_append {p s : Cells α} {i : ℕ} (hi : i = p.length) (a : α) :
    destroy (p ++ some a :: s) i = some (p ++ none :: s) := by
  unfold destroy
  rw [hi, getElem?_append]
  exact congrArg some (set_append p s (some a) none)

/-! ## filled blocks -/

theorem raw_succ (n : ℕ) : raw (n + 1) = (none :: raw n : Cells α) := rfl

theorem raw_snoc (n : ℕ) (s : Cells α) : raw n ++ none :: s = raw (n + 1) ++ s := by
  unfold raw
  rw [List.replicate_succ', List.append_assoc]
  rfl

theorem raw_add (m n : ℕ) : (raw (m + n) : Cells α) = raw m ++ raw n :=
  List.replicate_add m n none

theorem length_raw (n : ℕ) : (raw n : Cells α).length = n := List.length_replicate

theorem filled_append (l l' : List α) (room : ℕ) :
    filled (l ++ l') room = l.map some ++ filled l' room := by
  unfold filled
  rw [List.map_append, List.append_assoc]

theorem filled_cons (a : α) (l : List α) (room : ℕ) :
    filled (a :: l) room = some a :: filled l room := rfl

theorem filled_snoc (l : List α) (a : α) (room : ℕ) :
    l.map some ++ some a :: raw room = filled (l ++ [a]) room := by
  rw [filled_append]
  rfl

theorem free_raw (n : ℕ) : free (raw n : Cells α) = some () := by
  unfold free raw
  rw [if_pos (List.all_eq_true.2 fun x hx => by rw [List.eq_of_mem_replicate hx]; rfl)]

end

end Cells
