import Fiesta.Lib.Parallel
import Fiesta.Lib.Runs

/-!
# The tables of the Common library

`AssociativeContainerBase` keeps keys and values in two `JVector`s; `Hashtable`, `JDictionary` and
`Dictionary` are built on it.

* `Hashtable`                       the two vectors, with what is done to them;
* `Op`, `Hashtable.apply`           the calls that change a table;
* `Contents`                        what a table means: the keys in their order, and a function;
* `contents_after`                  **a table means what its calls say, after every list of them**.
-/

namespace Common

/-- `mKeytable` and `mValtable`. -/
abbrev Hashtable (κ ν : Type*) := Parallel κ ν

namespace Hashtable

section
variable {κ ν : Type*} [DecidableEq κ]

abbrev getKeys (t : Hashtable κ ν) : List κ := t.keys

abbrev getSize (t : Hashtable κ ν) : Nat := t.size

/-- `getValue`: `none` is the null pointer. -/
abbrev getValue (t : Hashtable κ ν) (key : κ) : Option ν := t.lookup key

def contains (t : Hashtable κ ν) (key : κ) : Bool := decide (key ∈ t.keys)

/-- `removeAt` ignores an index past the end. -/
def removeAtIndex (t : Hashtable κ ν) (index : Nat) : Hashtable κ ν :=
  if index ≥ t.getSize then t else t.removeAt index

theorem contains_eq (t : Hashtable κ ν) (key : κ) : t.contains key = (t.getValue key).isSome := by
  rw [Bool.eq_iff_iff, contains, decide_eq_true_iff]
  exact Parallel.isSome_lookup.symm

end

end Hashtable

/-! ## calls -/

inductive Op (κ ν : Type*) where
  | put (key : κ) (val : ν)
  | putTable (src : Hashtable κ ν)
  | remove (key : κ)
  | removeAt (index : Nat)
  | removeAllElements

section
variable {κ ν : Type*} [DecidableEq κ]

def Hashtable.apply (t : Hashtable κ ν) : Op κ ν → Hashtable κ ν
  | .put key val => t.put key val
  | .putTable src => t.putAll src
  | .remove key => t.remove key
  | .removeAt index => t.removeAtIndex index
  | .removeAllElements => Parallel.empty

/-- What a table means: its keys in the order they were first put, and the value of each. -/
structure Contents (κ ν : Type*) where
  order : List κ
  value : κ → Option ν

namespace Contents

def put (c : Contents κ ν) (key : κ) (val : ν) : Contents κ ν :=
  ⟨if key ∈ c.order then c.order else c.order ++ [key], Function.update c.value key (some val)⟩

def remove (c : Contents κ ν) (key : κ) : Contents κ ν :=
  ⟨c.order.erase key, Function.update c.value key none⟩

def apply (c : Contents κ ν) : Op κ ν → Contents κ ν
  | .put key val => c.put key val
  | .putTable src =>
    ⟨c.order ++ src.keys.filter (· ∉ c.order), fun key => (src.lookup key).or (c.value key)⟩
  | .remove key => c.remove key
  | .removeAt index =>
    match c.order[index]? with
    | none => c
    | some key => c.remove key
  | .removeAllElements => ⟨[], fun _ => none⟩

end Contents

def Hashtable.contents (t : Hashtable κ ν) : Contents κ ν := ⟨t.keys, t.lookup⟩

/-! ## one call -/

theorem keys_putList (t : Hashtable κ ν) (l : List (κ × ν)) (hnd : (l.map Prod.fst).Nodup) :
    (t.putList l).keys = t.keys ++ (l.map Prod.fst).filter (· ∉ t.keys) := by
  induction l generalizing t with
  | nil => simp [Parallel.putList]
  | cons e l ih =>
    rw [List.map_cons, List.nodup_cons] at hnd
    have hput : (t.putList (e :: l)).keys = ((t.put e.1 e.2).putList l).keys := rfl
    rw [hput, ih _ hnd.2, Parallel.keys_put, List.map_cons, List.filter_cons]
    split
    · rename_i hmem
      simp [hmem]
    · rename_i hmem
      have hrest : (l.map Prod.fst).filter (· ∉ t.keys ++ [e.1])
          = (l.map Prod.fst).filter (· ∉ t.keys) := by
        refine List.filter_congr fun k hk => ?_
        have hne : k ≠ e.1 := by
          rintro rfl
          exact hnd.1 hk
        simp [hne]
      rw [hrest]
      simp [hmem]

theorem contents_removeAt (t : Hashtable κ ν) (index : Nat) :
    (t.removeAtIndex index).contents = t.contents.apply (.removeAt index) := by
  unfold Hashtable.removeAtIndex
  split
  · rename_i h
    have hnone : t.contents.order[index]? = none := List.getElem?_eq_none h
    simp only [Contents.apply, hnone]
  · rename_i h
    have hlt : index < t.keys.length := Nat.lt_of_not_le h
    have hkey : t.keys[index]? = some t.keys[index] := List.getElem?_eq_getElem hlt
    have hsome : t.contents.order[index]? = some t.keys[index] := hkey
    simp only [Contents.apply, hsome]
    have hkeys : (t.removeAt index).keys = t.keys.erase t.keys[index] :=
      (t.nodup.erase_getElem index hlt).symm
    unfold Hashtable.contents Contents.remove
    rw [hkeys, Parallel.lookup_removeAt hkey]

theorem contents_put (t : Hashtable κ ν) (key : κ) (val : ν) :
    Hashtable.contents (t.put key val) = t.contents.put key val := by
  unfold Hashtable.contents Contents.put
  rw [Parallel.keys_put, Parallel.lookup_put]

theorem contents_remove (t : Hashtable κ ν) (key : κ) :
    Hashtable.contents (t.remove key) = t.contents.remove key := by
  unfold Hashtable.contents Contents.remove
  rw [Parallel.keys_remove, Parallel.lookup_remove]

theorem contents_putTable (t src : Hashtable κ ν) :
    Hashtable.contents (t.putAll src) = t.contents.apply (.putTable src) := by
  have hnd : (src.entries.map Prod.fst).Nodup := by
    rw [Parallel.map_fst_entries]
    exact src.nodup
  have hkeys : (t.putAll src).keys = t.keys ++ src.keys.filter (· ∉ t.keys) := by
    rw [← Parallel.map_fst_entries src]
    exact keys_putList t src.entries hnd
  unfold Hashtable.contents Contents.apply
  rw [hkeys]
  congr 1
  funext key
  exact Parallel.lookup_putAll t src key

theorem contents_apply (t : Hashtable κ ν) (op : Op κ ν) :
    (t.apply op).contents = t.contents.apply op := by
  cases op with
  | put key val => exact contents_put t key val
  | putTable src => exact contents_putTable t src
  | remove key => exact contents_remove t key
  | removeAt index => exact contents_removeAt t index
  | removeAllElements => rfl

theorem contents_run (t : Hashtable κ ν) (ops : List (Op κ ν)) :
    (Runs.run Hashtable.apply t ops).contents = Runs.run Contents.apply t.contents ops := by
  induction ops generalizing t with
  | nil => rfl
  | cons op ops ih => rw [Runs.run_cons, ih, contents_apply, Runs.run_cons]

/-! ## every list of calls -/

def Hashtable.after (ops : List (Op κ ν)) : Hashtable κ ν :=
  Runs.run Hashtable.apply Parallel.empty ops

def Contents.after (ops : List (Op κ ν)) : Contents κ ν :=
  Runs.run Contents.apply ⟨[], fun _ => none⟩ ops

/-- **A table means what its calls say.**  After any list of calls the keys stand in the order in
which they were first put, each key has the value last put under it, and `operator==` of two
tables tells whether they are the same function, in whatever order their keys came in. -/
theorem contents_after [DecidableEq ν] (ops ops' : List (Op κ ν)) :
    (Hashtable.after ops).contents = Contents.after ops
      ∧ ((Hashtable.after ops).same (Hashtable.after ops') = true
          ↔ (Contents.after ops).value = (Contents.after ops').value) := by
  have hmeans : ∀ l : List (Op κ ν), (Hashtable.after l).contents = Contents.after l :=
    fun l => contents_run Parallel.empty l
  refine ⟨hmeans ops, ?_⟩
  rw [Parallel.same_iff, ← hmeans, ← hmeans]
  rfl

end

end Common
