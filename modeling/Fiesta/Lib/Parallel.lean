import Mathlib.Data.List.Nodup
import Mathlib.Logic.Function.Basic
import Mathlib.Data.List.Perm.Subperm
import Mathlib.Tactic.Common

/-!
# Two vectors as one keyed table

Keys and values stand in two vectors, the value of a key at the index of the key.  Keys are found
by a search from the front; a new key goes to the back; a removal closes the gap in both.

* `Parallel`                         the two vectors: equally long, no key twice;
* `lookup_eq_some`                   what stands under a key, by its index;
* `lookup_put`, `lookup_remove`      the operations as updates of a function of the keys;
* `lookup_mapVals`                   every value replaced;
* `look_foldl_entries`               a loop over the entries, seen one key at a time;
* `lookup_putAll`                    one table written over another;
* `lookup_select`                    a table rebuilt from some of its entries;
* `same_iff`                         equal sizes and equal values make equal functions.
-/

structure Parallel (κ ν : Type*) where
  keys : List κ
  vals : List ν
  length_eq : keys.length = vals.length
  nodup : keys.Nodup

namespace Parallel

section
variable {κ ν : Type*}

@[ext] theorem ext {t u : Parallel κ ν} (hk : t.keys = u.keys) (hv : t.vals = u.vals) : t = u := by
  cases t
  cases u
  cases hk
  cases hv
  rfl

def empty : Parallel κ ν := ⟨[], [], rfl, List.nodup_nil⟩

def size (t : Parallel κ ν) : Nat := t.keys.length

/-- A new key goes to the back of both vectors. -/
def add (t : Parallel κ ν) (k : κ) (v : ν) (h : k ∉ t.keys) : Parallel κ ν where
  keys := t.keys ++ [k]
  vals := t.vals ++ [v]
  length_eq := by rw [List.length_append, List.length_append, t.length_eq]; rfl
  nodup := List.nodup_append.2 ⟨t.nodup, List.nodup_singleton k, by
    rintro a ha b hb rfl
    exact h (List.mem_singleton.1 hb ▸ ha)⟩

def setAt (t : Parallel κ ν) (i : Nat) (v : ν) : Parallel κ ν where
  keys := t.keys
  vals := t.vals.set i v
  length_eq := by rw [List.length_set, t.length_eq]
  nodup := t.nodup

/-- Every value is replaced by what it and its key make. -/
def mapVals {μ : Type*} (t : Parallel κ ν) (f : κ → ν → μ) : Parallel κ μ where
  keys := t.keys
  vals := List.zipWith f t.keys t.vals
  length_eq := by rw [List.length_zipWith, t.length_eq, Nat.min_self]
  nodup := t.nodup

def removeAt (t : Parallel κ ν) (i : Nat) : Parallel κ ν where
  keys := t.keys.eraseIdx i
  vals := t.vals.eraseIdx i
  length_eq := by rw [List.length_eraseIdx, List.length_eraseIdx, t.length_eq]
  nodup := t.nodup.sublist (List.eraseIdx_sublist t.keys i)

end

section
variable {κ ν : Type*} [DecidableEq κ]

/-- The search for a key, from the front. -/
def index (t : Parallel κ ν) (k : κ) : Option Nat := t.keys.idxOf? k

def lookup (t : Parallel κ ν) (k : κ) : Option ν := (t.index k).bind fun i => t.vals[i]?

/-! ## the search -/

theorem index_eq_some {t : Parallel κ ν} {k : κ} {i : Nat} :
    t.index k = some i ↔ t.keys[i]? = some k := by
  unfold index
  rw [List.idxOf?, List.findIdx?_eq_some_iff_getElem]
  refine ⟨?_, ?_⟩
  · intro h
    obtain ⟨hi, hk, _⟩ := h
    rw [List.getElem?_eq_getElem hi, eq_of_beq hk]
  · intro h
    obtain ⟨hi, hk⟩ := List.getElem?_eq_some_iff.1 h
    refine ⟨hi, beq_iff_eq.2 hk, ?_⟩
    intro j hj heq
    have hkeys : t.keys[j] = t.keys[i] := (eq_of_beq heq).trans hk.symm
    exact absurd ((t.nodup.getElem_inj_iff).1 hkeys) (Nat.ne_of_lt hj)

theorem index_eq_none {t : Parallel κ ν} {k : κ} : t.index k = none ↔ k ∉ t.keys := by
  rw [Option.eq_none_iff_forall_ne_some, List.mem_iff_getElem?, not_exists]
  exact forall_congr' fun i => not_congr index_eq_some

/-- What stands under a key stands at its index. -/
theorem lookup_eq_some {t : Parallel κ ν} {k : κ} {v : ν} :
    t.lookup k = some v ↔ ∃ i : Nat, t.keys[i]? = some k ∧ t.vals[i]? = some v := by
  unfold lookup
  rw [Option.bind_eq_some_iff]
  exact exists_congr fun i => and_congr_left' index_eq_some

theorem lookup_eq_none {t : Parallel κ ν} {k : κ} : t.lookup k = none ↔ k ∉ t.keys := by
  rw [← index_eq_none]
  unfold lookup
  cases hi : t.index k with
  | none => simp
  | some i =>
    have hlt : i < t.vals.length := by
      rw [← t.length_eq]
      exact (List.getElem?_eq_some_iff.1 (index_eq_some.1 hi)).1
    simp [List.getElem?_eq_getElem hlt]

theorem isSome_lookup {t : Parallel κ ν} {k : κ} : (t.lookup k).isSome ↔ k ∈ t.keys := by
  rw [← not_iff_not, Bool.not_eq_true, Option.isSome_eq_false_iff, Option.isNone_iff_eq_none,
    lookup_eq_none]

theorem lookup_empty (k : κ) : (empty : Parallel κ ν).lookup k = none := rfl

/-- The value of the key at an index is the value at that index. -/
theorem lookup_at {t : Parallel κ ν} {k : κ} {i : Nat} (h : t.keys[i]? = some k) :
    t.lookup k = t.vals[i]? := by
  unfold lookup
  rw [index_eq_some.2 h]
  rfl

/-! ## one operation -/

theorem lookup_add (t : Parallel κ ν) (k : κ) (v : ν) (h : k ∉ t.keys) :
    (t.add k v h).lookup = Function.update t.lookup k (some v) := by
  funext k'
  by_cases hk : k' = k
  · subst hk
    rw [Function.update_self, lookup_eq_some]
    exact ⟨t.keys.length, List.getElem?_concat_length, by rw [t.length_eq]; exact
      List.getElem?_concat_length⟩
  · rw [Function.update_of_ne hk]
    apply Option.ext
    intro w
    rw [lookup_eq_some, lookup_eq_some]
    refine exists_congr fun i => ?_
    show (t.keys ++ [k])[i]? = some k' ∧ (t.vals ++ [v])[i]? = some w ↔ _
    by_cases hi : i < t.keys.length
    · rw [List.getElem?_append_left hi, List.getElem?_append_left (t.length_eq ▸ hi)]
    · have hnone : t.keys[i]? = none := List.getElem?_eq_none (Nat.le_of_not_lt hi)
      rw [hnone, List.getElem?_append_right (Nat.le_of_not_lt hi)]
      refine ⟨fun hl => ?_, fun hr => absurd hr.1 (by simp)⟩
      have hmem := List.mem_of_getElem? hl.1
      exact absurd (List.mem_singleton.1 hmem) hk

theorem lookup_setAt {t : Parallel κ ν} {k : κ} {i : Nat} (v : ν) (h : t.keys[i]? = some k) :
    (t.setAt i v).lookup = Function.update t.lookup k (some v) := by
  have hlt : i < t.vals.length := t.length_eq ▸ (List.getElem?_eq_some_iff.1 h).1
  funext k'
  by_cases hk : k' = k
  · subst hk
    rw [Function.update_self, lookup_eq_some]
    exact ⟨i, h, List.getElem?_set_self hlt⟩
  · rw [Function.update_of_ne hk]
    apply Option.ext
    intro w
    rw [lookup_eq_some, lookup_eq_some]
    refine exists_congr fun j => and_congr_right fun hj => ?_
    have hij : i ≠ j := by
      rintro rfl
      exact hk (Option.some.inj (hj.symm.trans h))
    show (t.vals.set i v)[j]? = some w ↔ _
    rw [List.getElem?_set_ne hij]

theorem lookup_removeAt {t : Parallel κ ν} {k : κ} {i : Nat} (h : t.keys[i]? = some k) :
    (t.removeAt i).lookup = Function.update t.lookup k none := by
  funext k'
  apply Option.ext
  intro w
  rw [lookup_eq_some]
  show (∃ j : Nat, (t.keys.eraseIdx i)[j]? = some k' ∧ (t.vals.eraseIdx i)[j]? = some w) ↔ _
  -- an index of the shorter vectors is an index of the longer ones, other than the removed one
  have hshift : (∃ j : Nat, (t.keys.eraseIdx i)[j]? = some k' ∧ (t.vals.eraseIdx i)[j]? = some w)
      ↔ ∃ j : Nat, j ≠ i ∧ t.keys[j]? = some k' ∧ t.vals[j]? = some w := by
    simp only [List.getElem?_eraseIdx]
    refine ⟨?_, ?_⟩
    · rintro ⟨j, hj⟩
      by_cases hlt : j < i
      · rw [if_pos hlt, if_pos hlt] at hj
        exact ⟨j, Nat.ne_of_lt hlt, hj⟩
      · rw [if_neg hlt, if_neg hlt] at hj
        exact ⟨j + 1, by omega, hj⟩
    · rintro ⟨j, hne, hj⟩
      by_cases hlt : j < i
      · refine ⟨j, ?_⟩
        rw [if_pos hlt, if_pos hlt]
        exact hj
      · refine ⟨j - 1, ?_⟩
        rw [if_neg (by omega), if_neg (by omega), Nat.sub_add_cancel (by omega)]
        exact hj
  rw [hshift]
  by_cases hk : k' = k
  · subst hk
    rw [Function.update_self]
    refine ⟨?_, fun hw => by cases hw⟩
    rintro ⟨j, hne, hj, _⟩
    have hji : t.index k' = some j := index_eq_some.2 hj
    rw [index_eq_some.2 h] at hji
    exact absurd (Option.some.inj hji).symm hne
  · rw [Function.update_of_ne hk, lookup_eq_some]
    refine exists_congr fun j => and_iff_right_of_imp fun hj hji => ?_
    subst hji
    exact hk (Option.some.inj (hj.1.symm.trans h))

theorem lookup_mapVals {μ : Type*} (t : Parallel κ ν) (f : κ → ν → μ) (k : κ) :
    (t.mapVals f).lookup k = (t.lookup k).map (f k) := by
  apply Option.ext
  intro w
  rw [lookup_eq_some, Option.map_eq_some_iff]
  show (∃ i : Nat, t.keys[i]? = some k ∧ (List.zipWith f t.keys t.vals)[i]? = some w) ↔ _
  refine ⟨?_, ?_⟩
  · rintro ⟨i, hk, hw⟩
    rw [List.getElem?_zipWith, hk] at hw
    cases hv : t.vals[i]? with
    | none =>
      rw [hv] at hw
      cases hw
    | some v =>
      rw [hv] at hw
      exact ⟨v, lookup_eq_some.2 ⟨i, hk, hv⟩, Option.some.inj hw⟩
  · rintro ⟨v, hv, rfl⟩
    obtain ⟨i, hk, hv⟩ := lookup_eq_some.1 hv
    exact ⟨i, hk, by rw [List.getElem?_zipWith, hk, hv]⟩

/-! ## put and remove -/

def put (t : Parallel κ ν) (k : κ) (v : ν) : Parallel κ ν :=
  match h : t.index k with
  | none => t.add k v (index_eq_none.1 h)
  | some i => t.setAt i v

def remove (t : Parallel κ ν) (k : κ) : Parallel κ ν :=
  match t.index k with
  | none => t
  | some i => t.removeAt i

theorem lookup_put (t : Parallel κ ν) (k : κ) (v : ν) :
    (t.put k v).lookup = Function.update t.lookup k (some v) := by
  unfold put
  split
  · exact lookup_add t k v _
  · rename_i i h
    exact lookup_setAt v (index_eq_some.1 h)

theorem lookup_remove (t : Parallel κ ν) (k : κ) :
    (t.remove k).lookup = Function.update t.lookup k none := by
  unfold remove
  split
  · rename_i h
    have hnone : t.lookup k = none := lookup_eq_none.2 (index_eq_none.1 h)
    rw [← hnone, Function.update_eq_self]
  · rename_i i h
    exact lookup_removeAt (index_eq_some.1 h)

theorem keys_put (t : Parallel κ ν) (k : κ) (v : ν) :
    (t.put k v).keys = if k ∈ t.keys then t.keys else t.keys ++ [k] := by
  unfold put
  split
  · rename_i h
    rw [if_neg (index_eq_none.1 h)]
    rfl
  · rename_i i h
    rw [if_pos (List.mem_of_getElem? (index_eq_some.1 h))]
    rfl

theorem keys_remove (t : Parallel κ ν) (k : κ) : (t.remove k).keys = t.keys.erase k := by
  unfold remove
  split
  · rename_i h
    rw [List.erase_of_not_mem (index_eq_none.1 h)]
  · rename_i i h
    obtain ⟨hi, rfl⟩ := List.getElem?_eq_some_iff.1 (index_eq_some.1 h)
    exact (t.nodup.erase_getElem i hi).symm

/-! ## entries -/

def entries (t : Parallel κ ν) : List (κ × ν) := t.keys.zip t.vals

def putList (t : Parallel κ ν) (l : List (κ × ν)) : Parallel κ ν :=
  l.foldl (fun t e => t.put e.1 e.2) t

omit [DecidableEq κ] in
theorem map_fst_entries (t : Parallel κ ν) : t.entries.map Prod.fst = t.keys :=
  List.map_fst_zip (Nat.le_of_eq t.length_eq)

theorem mem_entries {t : Parallel κ ν} {k : κ} {v : ν} :
    (k, v) ∈ t.entries ↔ t.lookup k = some v := by
  rw [lookup_eq_some, List.mem_iff_getElem?]
  refine exists_congr fun i => ?_
  unfold entries
  rw [List.getElem?_zip_eq_some]

section
variable {μ σ ω : Type*} (look : σ → κ → ω) {step : σ → κ → μ → σ} {g : κ → μ → ω → ω}
  (hstep : ∀ s k m, look (step s k m) = Function.update (look s) k (g k m (look s k)))
include hstep

/-- A loop whose step changes what is seen of one key does not touch the keys it does not see. -/
theorem look_foldl_of_not_mem {l : List (κ × μ)} {k : κ} (h : ∀ m, (k, m) ∉ l) (s : σ) :
    look (l.foldl (fun s e => step s e.1 e.2) s) k = look s k := by
  induction l generalizing s with
  | nil => rfl
  | cons e l ih =>
    have hne : k ≠ e.1 := by
      rintro rfl
      exact h e.2 List.mem_cons_self
    rw [List.foldl_cons, ih (fun m hm => h m (List.mem_cons_of_mem _ hm)), hstep,
      Function.update_of_ne hne]

theorem look_foldl_of_mem {l : List (κ × μ)} (hnd : (l.map Prod.fst).Nodup) {k : κ} {m : μ}
    (h : (k, m) ∈ l) (s : σ) :
    look (l.foldl (fun s e => step s e.1 e.2) s) k = g k m (look s k) := by
  induction l generalizing s with
  | nil => cases h
  | cons e l ih =>
    rw [List.map_cons, List.nodup_cons] at hnd
    rw [List.foldl_cons]
    rcases List.mem_cons.1 h with heq | hmem
    · subst heq
      have hnot : ∀ w, (k, w) ∉ l := fun w hw => hnd.1 (List.mem_map.2 ⟨(k, w), hw, rfl⟩)
      rw [look_foldl_of_not_mem look hstep hnot, hstep, Function.update_self]
    · have hne : k ≠ e.1 := by
        rintro rfl
        exact hnd.1 (List.mem_map.2 ⟨(e.1, m), hmem, rfl⟩)
      rw [ih hnd.2 hmem, hstep, Function.update_of_ne hne]

/-- The loop over a whole table. -/
theorem look_foldl_entries (src : Parallel κ μ) (s : σ) (k : κ) :
    look (src.entries.foldl (fun s e => step s e.1 e.2) s) k
      = (src.lookup k).elim (look s k) fun m => g k m (look s k) := by
  cases h : src.lookup k with
  | none =>
    refine look_foldl_of_not_mem look hstep (fun m hm => ?_) s
    rw [mem_entries, h] at hm
    cases hm
  | some m =>
    have hnd : (src.entries.map Prod.fst).Nodup := by
      rw [map_fst_entries]
      exact src.nodup
    exact look_foldl_of_mem look hstep hnd (mem_entries.2 h) s

end

theorem lookup_putList_of_not_mem {l : List (κ × ν)} {k : κ} (h : ∀ v, (k, v) ∉ l)
    (t : Parallel κ ν) : (t.putList l).lookup k = t.lookup k :=
  look_foldl_of_not_mem lookup (g := fun _ v _ => some v) lookup_put h t

theorem lookup_putList_of_mem {l : List (κ × ν)} (hnd : (l.map Prod.fst).Nodup) {k : κ} {v : ν}
    (h : (k, v) ∈ l) (t : Parallel κ ν) : (t.putList l).lookup k = some v :=
  look_foldl_of_mem lookup (g := fun _ v _ => some v) lookup_put hnd h t

/-! ## whole tables -/

/-- Every entry of `src`, in its order, is put. -/
def putAll (t src : Parallel κ ν) : Parallel κ ν := t.putList src.entries

/-- A new table with the entries that pass. -/
def select (t : Parallel κ ν) (p : κ → ν → Bool) : Parallel κ ν :=
  empty.putList (t.entries.filter fun e => p e.1 e.2)

theorem lookup_putAll (t src : Parallel κ ν) (k : κ) :
    (t.putAll src).lookup k = (src.lookup k).or (t.lookup k) := by
  have h := look_foldl_entries lookup (g := fun _ v _ => some v) lookup_put src t k
  rw [show t.putAll src = src.entries.foldl (fun t e => t.put e.1 e.2) t from rfl, h]
  cases src.lookup k <;> rfl

theorem lookup_select (t : Parallel κ ν) (p : κ → ν → Bool) (k : κ) :
    (t.select p).lookup k = (t.lookup k).filter (p k) := by
  have hnd : ((t.entries.filter fun e => p e.1 e.2).map Prod.fst).Nodup := by
    have hsub := (List.filter_sublist (l := t.entries) (p := fun e => p e.1 e.2)).map Prod.fst
    rw [map_fst_entries] at hsub
    exact t.nodup.sublist hsub
  cases h : (t.lookup k).filter (p k) with
  | none =>
    have hnot : ∀ v, (k, v) ∉ t.entries.filter fun e => p e.1 e.2 := fun v hv => by
      obtain ⟨hmem, hp⟩ := List.mem_filter.1 hv
      rw [mem_entries.1 hmem, Option.filter_some, if_pos hp] at h
      cases h
    exact lookup_putList_of_not_mem hnot empty
  | some v =>
    obtain ⟨hv, hp⟩ := Option.filter_eq_some_iff.1 h
    exact lookup_putList_of_mem hnd (List.mem_filter.2 ⟨mem_entries.2 hv, hp⟩) empty

/-! ## equality -/

/-- Equal sizes, and every key of the one has the same value in both. -/
def same [DecidableEq ν] (t u : Parallel κ ν) : Bool :=
  t.size == u.size && t.keys.all fun k =>
    match t.lookup k, u.lookup k with
    | some v, some w => v == w
    | _, _ => false

theorem keys_perm_of_lookup_eq {t u : Parallel κ ν} (h : t.lookup = u.lookup) :
    t.keys.Perm u.keys := by
  rw [List.perm_ext_iff_of_nodup t.nodup u.nodup]
  intro k
  rw [← isSome_lookup, ← isSome_lookup, h]

/-- **Two tables are the same exactly when they are the same function of the keys**, whatever
order their keys stand in. -/
theorem same_iff [DecidableEq ν] {t u : Parallel κ ν} : t.same u = true ↔ t.lookup = u.lookup := by
  unfold same
  rw [Bool.and_eq_true, beq_iff_eq, List.all_eq_true]
  refine ⟨?_, ?_⟩
  · rintro ⟨hsize, hall⟩
    have hagree : ∀ k ∈ t.keys, t.lookup k = u.lookup k := by
      intro k hk
      have hboth := hall k hk
      split at hboth
      · rename_i v w hv hw
        rw [hv, hw, eq_of_beq hboth]
      · cases hboth
    have hsub : t.keys ⊆ u.keys := by
      intro k hk
      rw [← isSome_lookup, ← hagree k hk]
      exact isSome_lookup.2 hk
    have hperm : t.keys.Perm u.keys :=
      (t.nodup.subperm hsub).perm_of_length_le (Nat.le_of_eq hsize.symm)
    funext k
    by_cases hk : k ∈ t.keys
    · exact hagree k hk
    · rw [lookup_eq_none.2 hk, lookup_eq_none.2 fun hu => hk (hperm.mem_iff.2 hu)]
  · intro h
    refine ⟨(keys_perm_of_lookup_eq h).length_eq, ?_⟩
    intro k hk
    obtain ⟨v, hv⟩ := Option.isSome_iff_exists.1 (isSome_lookup.2 hk)
    have hu : u.lookup k = some v := by rw [← h, hv]
    simp only [hv, hu, beq_self_eq_true]

end

end Parallel
