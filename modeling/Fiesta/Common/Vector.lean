import Fiesta.Lib.Cells
import Fiesta.Lib.Runs
import Mathlib.Algebra.Group.Nat.Defs

/-!
# The vector of the Common library

`SequenceContainer`, the base of `JVector`, keeps its elements in memory that it allocates itself.

* `SequenceContainer`         size, capacity and the memory;
* `new`, `newOfArray`, ...    the constructors;
* `addElement`, ...           the calls, with their loops over the memory;
* `Holds`                     the elements stand at the front, and behind them the memory is raw;
* `Allowed`                   indexes inside, and an increment that lets the capacity grow;
* `calls_refine`              **a vector is a list**: no call leaves the memory, loses an element or
                              leaves one behind.

What the source passes by reference is passed by value here: it lies outside the memory of the
vector, which a call may give back before it reads its argument.
-/

namespace Common

structure SequenceContainer (α : Type) where
  mSize : Nat
  mCapacity : Nat
  mIncrement : Nat
  mpData : Cells α

namespace SequenceContainer

section
variable {α : Type}

/-- The constructor from `initialCapacity` and `capacityIncrement`. -/
def new (initialCapacity capacityIncrement : Nat) : SequenceContainer α :=
  ⟨0, initialCapacity, capacityIncrement, Cells.raw initialCapacity⟩

/-! ## loops -/

/-- Copies the elements over to new memory, and destroys the old ones. -/
def moveOver : Nat → Nat → Cells α → Cells α → Option (Cells α × Cells α)
  | 0, _, mpData, temp => some (mpData, temp)
  | left + 1, i, mpData, temp => do
    let a ← mpData.read i
    let temp ← temp.construct i a
    let mpData ← mpData.destroy i
    moveOver left (i + 1) mpData temp

/-- Constructs the elements of an array behind those that are there. -/
def constructAll : Nat → List α → Cells α → Option (Cells α)
  | _, [], mpData => some mpData
  | i, a :: carray, mpData => do
    let mpData ← mpData.construct i a
    constructAll (i + 1) carray mpData

def destroyAll : Nat → Nat → Cells α → Option (Cells α)
  | 0, _, mpData => some mpData
  | left + 1, i, mpData => do
    let mpData ← mpData.destroy i
    destroyAll left (i + 1) mpData

/-- Copies the elements of another container. -/
def copyAll : Nat → Nat → Cells α → Cells α → Option (Cells α)
  | 0, _, _, mpData => some mpData
  | left + 1, i, toCopy, mpData => do
    let a ← toCopy.read i
    let mpData ← mpData.construct i a
    copyAll left (i + 1) toCopy mpData

/-- Every element from `i` on goes one place up, and `newItem` takes the first place. -/
def shiftUp : Nat → Nat → α → Cells α → Option (Cells α)
  | 0, i, newItem, mpData => mpData.construct i newItem
  | left + 1, i, newItem, mpData => do
    let tmp ← mpData.read i
    let mpData ← mpData.assign i newItem
    shiftUp left (i + 1) tmp mpData

/-- Every element behind `i` goes one place down. -/
def closeGap : Nat → Nat → Cells α → Option (Cells α)
  | 0, _, mpData => some mpData
  | left + 1, i, mpData => do
    let mpData ← mpData.destroy i
    let a ← mpData.read (i + 1)
    let mpData ← mpData.construct i a
    closeGap left (i + 1) mpData

def findElement [DecidableEq α] (obj : α) : Nat → Nat → Cells α → Option (Option Nat)
  | 0, _, _ => some none
  | left + 1, i, mpData => do
    let a ← mpData.read i
    if a = obj then some (some i) else findElement obj left (i + 1) mpData

/-! ## calls -/

/-- What `ensureCapacity` and `trimToSize` do when the capacity changes. -/
def reallocate (v : SequenceContainer α) (capacity : Nat) : Option (SequenceContainer α) := do
  let (mpData, temp) ← moveOver v.mSize 0 v.mpData (Cells.raw capacity)
  mpData.free
  some { v with mCapacity := capacity, mpData := temp }

def ensureCapacity (v : SequenceContainer α) (minCapacity : Nat) : Option (SequenceContainer α) :=
  if minCapacity ≤ v.mCapacity then some v else v.reallocate minCapacity

def trimToSize (v : SequenceContainer α) : Option (SequenceContainer α) :=
  if v.mSize ≠ v.mCapacity then v.reallocate v.mSize else some v

/-- Before one more element is added; `mCapacity + mIncrement` is an `unsigned int`. -/
def grow (v : SequenceContainer α) : Option (SequenceContainer α) :=
  if v.mSize = v.mCapacity then v.ensureCapacity ((v.mCapacity + v.mIncrement) % 2 ^ 32) else some v

def addElement (v : SequenceContainer α) (elem : α) : Option (SequenceContainer α) := do
  let v ← v.grow
  let mpData ← v.mpData.construct v.mSize elem
  some { v with mpData, mSize := v.mSize + 1 }

/-- Before so many elements are added. -/
def growBy (v : SequenceContainer α) (elementCount : Nat) : Option (SequenceContainer α) :=
  if (v.mSize + elementCount) % 2 ^ 32 > v.mCapacity then
    v.ensureCapacity ((v.mSize + elementCount) % 2 ^ 32)
  else some v

def addElements (v : SequenceContainer α) (carray : List α) : Option (SequenceContainer α) := do
  let v ← v.growBy carray.length
  let mpData ← constructAll v.mSize carray v.mpData
  some { v with mpData, mSize := v.mSize + carray.length }

def insertElementAt (v : SequenceContainer α) (obj : α) (index : Nat) :
    Option (SequenceContainer α) :=
  if index = v.mSize then v.addElement obj
  else do
    let v ← v.grow
    let mpData ←
      if index < v.mSize then shiftUp (v.mSize - index) index obj v.mpData else some v.mpData
    some { v with mpData, mSize := v.mSize + 1 }

def removeAllElements (v : SequenceContainer α) : Option (SequenceContainer α) := do
  let mpData ← destroyAll v.mSize 0 v.mpData
  some { v with mpData, mSize := 0 }

def removeElementAt (v : SequenceContainer α) (index : Nat) : Option (SequenceContainer α) := do
  let mpData ← closeGap (v.mSize - (index + 1)) index v.mpData
  let mpData ← mpData.destroy (v.mSize - 1)
  some { v with mpData, mSize := v.mSize - 1 }

def removeElement [DecidableEq α] (v : SequenceContainer α) (obj : α) :
    Option (SequenceContainer α × Bool) := do
  match ← findElement obj v.mSize 0 v.mpData with
  | some i => (v.removeElementAt i).map fun v => (v, true)
  | none => some (v, false)

def setElementAt (v : SequenceContainer α) (obj : α) (index : Nat) :
    Option (SequenceContainer α) := do
  let mpData ← v.mpData.assign index obj
  some { v with mpData }

/-- Memory for a copy: the old one is kept if it is empty and large enough. -/
def renew (v : SequenceContainer α) (capacity : Nat) : Option (SequenceContainer α) :=
  if v.mSize > 0 ∨ v.mCapacity < capacity then do
    let v ← v.removeAllElements
    v.mpData.free
    some { v with mCapacity := capacity, mpData := Cells.raw capacity }
  else some v

/-- `init`, of `operator=`, from another container -/
def assign (v toCopy : SequenceContainer α) : Option (SequenceContainer α) := do
  let v ← v.renew toCopy.mCapacity
  let mpData ← copyAll toCopy.mSize 0 toCopy.mpData v.mpData
  some { v with mSize := toCopy.mSize, mIncrement := toCopy.mIncrement, mpData }

/-- The constructor from an array. -/
def newOfArray (carray : List α) (initialCapacity capacityIncrement : Nat) :
    Option (SequenceContainer α) := do
  let mCapacity := if initialCapacity < carray.length then carray.length else initialCapacity
  let mpData ← constructAll 0 carray (Cells.raw mCapacity)
  some ⟨carray.length, mCapacity, capacityIncrement, mpData⟩

/-- The copy constructor: `init` of a container without memory. -/
def newOfCopy (toCopy : SequenceContainer α) : Option (SequenceContainer α) :=
  (new 0 0).assign toCopy

/-- What `getCArray` and `getSize` show. -/
def elements (v : SequenceContainer α) : List α := (v.mpData.take v.mSize).filterMap id

/-- `~SequenceContainer` -/
def destruct (v : SequenceContainer α) : Option Unit := do
  let v ← v.removeAllElements
  v.mpData.free

/-! ## what the loops do -/

theorem moveOver_filled (l done : List α) (room room' : Nat) :
    moveOver l.length done.length (Cells.raw done.length ++ Cells.filled l room)
        (done.map some ++ Cells.raw (l.length + room'))
      = some (Cells.raw (done.length + l.length) ++ Cells.raw room,
          Cells.filled (done ++ l) room') := by
  induction l generalizing done with
  | nil =>
    rw [List.append_nil, List.length_nil, Nat.zero_add]
    rfl
  | cons a l ih =>
    have hraw : Cells.raw (l.length + 1 + room') = (none :: Cells.raw (l.length + room') : Cells α) := by
      rw [Nat.succ_add]
      rfl
    have hmoved : done.map some ++ some a :: Cells.raw (l.length + room')
        = (done ++ [a]).map some ++ Cells.raw (l.length + room') := by
      rw [List.map_append, List.append_assoc]
      rfl
    have hnext := ih (done ++ [a])
    rw [List.length_append, List.length_singleton, List.append_assoc] at hnext
    rw [List.length_cons, Cells.filled_cons, hraw, moveOver,
      Cells.read_append (Cells.length_raw _).symm, Option.bind_eq_bind, Option.bind_some,
      Cells.construct_append (List.length_map _).symm, Option.bind_eq_bind, Option.bind_some,
      Cells.destroy_append (Cells.length_raw _).symm, Option.bind_some, Cells.raw_snoc, hmoved,
      hnext, Nat.add_right_comm]
    rfl

theorem constructAll_filled (carray l : List α) (room : Nat) :
    constructAll l.length carray (Cells.filled l (carray.length + room))
      = some (Cells.filled (l ++ carray) room) := by
  induction carray generalizing l with
  | nil =>
    rw [List.append_nil, List.length_nil, Nat.zero_add]
    rfl
  | cons a carray ih =>
    have hnext := ih (l ++ [a])
    rw [List.length_append, List.length_singleton, List.append_assoc] at hnext
    have hraw : Cells.filled l (carray.length + 1 + room)
        = l.map some ++ none :: Cells.raw (carray.length + room) := by
      rw [Nat.succ_add]
      rfl
    rw [constructAll, List.length_cons, hraw, Cells.construct_append (List.length_map _).symm,
      Option.bind_eq_bind, Option.bind_some, Cells.filled_snoc, hnext]
    rfl

theorem destroyAll_filled (l : List α) (n room : Nat) :
    destroyAll l.length n (Cells.raw n ++ Cells.filled l room)
      = some (Cells.raw (n + l.length) ++ Cells.raw room) := by
  induction l generalizing n with
  | nil => rfl
  | cons a l ih =>
    rw [List.length_cons, Cells.filled_cons, destroyAll,
      Cells.destroy_append (Cells.length_raw _).symm, Option.bind_eq_bind, Option.bind_some,
      Cells.raw_snoc, ih, Nat.succ_add, Nat.add_succ]

theorem copyAll_filled (l done : List α) (room room' : Nat) :
    copyAll l.length done.length (Cells.filled (done ++ l) room)
        (Cells.filled done (l.length + room'))
      = some (Cells.filled (done ++ l) room') := by
  induction l generalizing done with
  | nil =>
    rw [List.append_nil, List.length_nil, Nat.zero_add]
    rfl
  | cons a l ih =>
    have hnext := ih (done ++ [a])
    rw [List.length_append, List.length_singleton, List.append_assoc] at hnext
    have hread : (Cells.filled (done ++ a :: l) room).read done.length = some a := by
      rw [Cells.filled_append]
      exact Cells.read_append (List.length_map _).symm a
    have hraw : Cells.filled done (l.length + 1 + room')
        = done.map some ++ none :: Cells.raw (l.length + room') := by
      rw [Nat.succ_add]
      rfl
    rw [List.length_cons, copyAll, hread, Option.bind_eq_bind, Option.bind_some, hraw,
      Cells.construct_append (List.length_map _).symm, Option.bind_eq_bind, Option.bind_some,
      Cells.filled_snoc]
    exact hnext

theorem shiftUp_filled (front l : List α) (newItem : α) (room : Nat) :
    shiftUp l.length front.length newItem (Cells.filled (front ++ l) (room + 1))
      = some (Cells.filled (front ++ newItem :: l) room) := by
  induction l generalizing front newItem with
  | nil =>
    rw [List.append_nil]
    show (Cells.construct _ _ _) = _
    unfold Cells.filled
    rw [Cells.raw_succ, Cells.construct_append (List.length_map _).symm]
    exact congrArg some (Cells.filled_snoc front newItem room)
  | cons a l ih =>
    have hnext := ih (front ++ [newItem]) a
    rw [List.length_append, List.length_singleton, List.append_assoc, List.append_assoc] at hnext
    rw [List.length_cons, shiftUp, Cells.filled_append, Cells.filled_cons,
      Cells.read_append (List.length_map _).symm, Option.bind_eq_bind, Option.bind_some,
      Cells.assign_append (List.length_map _).symm, Option.bind_eq_bind, Option.bind_some]
    rw [← Cells.filled_cons, ← Cells.filled_append]
    exact hnext

/-- The last place keeps a value, which `removeElementAt` destroys. -/
theorem closeGap_filled (l front : List α) (a : α) (room : Nat) :
    ∃ last, closeGap l.length front.length (Cells.filled (front ++ a :: l) room)
      = some (Cells.filled (front ++ l ++ [last]) room) := by
  induction l generalizing front a with
  | nil => exact ⟨a, by rw [List.append_nil]; rfl⟩
  | cons b l ih =>
    obtain ⟨last, hlast⟩ := ih (front ++ [b]) b
    rw [List.length_append, List.length_singleton, List.append_assoc, List.append_assoc,
      List.append_assoc] at hlast
    refine ⟨last, ?_⟩
    have hread : Cells.read (front.map some ++ none :: some b :: Cells.filled l room)
        (front.length + 1) = some b := by
      have hsplit : front.map some ++ none :: some b :: Cells.filled l room
          = (front.map some ++ [none]) ++ some b :: Cells.filled l room := by
        rw [List.append_assoc]
        rfl
      rw [hsplit]
      exact Cells.read_append (by rw [List.length_append, List.length_map]; rfl) b
    rw [List.length_cons, closeGap, Cells.filled_append, Cells.filled_cons, Cells.filled_cons,
      Cells.destroy_append (List.length_map _).symm, Option.bind_eq_bind, Option.bind_some, hread,
      Option.bind_eq_bind, Option.bind_some, Cells.construct_append (List.length_map _).symm,
      Option.bind_some]
    rw [← Cells.filled_cons, ← Cells.filled_cons, ← Cells.filled_append, List.append_assoc]
    exact hlast

theorem findElement_filled [DecidableEq α] (obj : α) (l front : List α) (room : Nat) :
    findElement obj l.length front.length (Cells.filled (front ++ l) room)
      = some ((l.idxOf? obj).map (front.length + ·)) := by
  induction l generalizing front with
  | nil => rfl
  | cons a l ih =>
    have hnext := ih (front ++ [a])
    rw [List.length_append, List.length_singleton, List.append_assoc] at hnext
    have hread : (Cells.filled (front ++ a :: l) room).read front.length = some a := by
      rw [Cells.filled_append]
      exact Cells.read_append (List.length_map _).symm a
    rw [List.length_cons, findElement, hread, Option.bind_eq_bind, Option.bind_some,
      List.idxOf?_cons]
    by_cases ha : a = obj
    · rw [if_pos ha, if_pos (beq_iff_eq.2 ha)]
      rfl
    · rw [if_neg ha, if_neg (fun h => ha (beq_iff_eq.1 h))]
      refine hnext.trans ?_
      rw [Option.map_map]
      refine congrArg some (Option.map_congr fun i _ => ?_)
      show front.length + 1 + i = front.length + (i + 1)
      omega

/-- If the memory is full, the capacity can grow: by something, and without wrapping around. -/
def CanGrow (v : SequenceContainer α) : Prop :=
  v.mSize = v.mCapacity → 0 < v.mIncrement ∧ v.mCapacity + v.mIncrement < 2 ^ 32

/-! ## what a vector holds -/

/-- The elements stand at the front, and the memory behind them is raw. -/
structure Holds (v : SequenceContainer α) (l : List α) : Prop where
  size : v.mSize = l.length
  room : ∃ room, v.mCapacity = l.length + room ∧ v.mpData = Cells.filled l room

namespace Holds

variable {v toCopy : SequenceContainer α} {l l' : List α}

theorem new (initialCapacity capacityIncrement : Nat) :
    (SequenceContainer.new initialCapacity capacityIncrement : SequenceContainer α).Holds [] :=
  ⟨rfl, initialCapacity, (Nat.zero_add _).symm, rfl⟩

theorem elements (h : v.Holds l) : v.elements = l := by
  obtain ⟨room, -, hdata⟩ := h.room
  unfold SequenceContainer.elements Cells.filled at *
  rw [h.size, hdata, List.take_left' (List.length_map _), List.filterMap_map]
  exact List.filterMap_some

theorem length_le (h : v.Holds l) : l.length ≤ v.mCapacity := by
  obtain ⟨room, hcapacity, -⟩ := h.room
  omega

theorem reallocate (h : v.Holds l) {capacity : Nat} (hle : l.length ≤ capacity) :
    ∃ v', v.reallocate capacity = some v' ∧ v'.Holds l ∧ v'.mCapacity = capacity := by
  obtain ⟨room, hcapacity, hdata⟩ := h.room
  obtain ⟨room', rfl⟩ := Nat.exists_eq_add_of_le hle
  have hmove : moveOver l.length 0 (Cells.filled l room) (Cells.raw (l.length + room'))
      = some (Cells.raw (0 + l.length) ++ Cells.raw room, Cells.filled l room') :=
    moveOver_filled l [] room room'
  rw [Nat.zero_add, ← Cells.raw_add] at hmove
  refine ⟨⟨v.mSize, l.length + room', v.mIncrement, Cells.filled l room'⟩, ?_,
    ⟨h.size, room', rfl, rfl⟩, rfl⟩
  unfold SequenceContainer.reallocate
  rw [h.size, hdata, hmove]
  show (Cells.free _).bind _ = _
  rw [Cells.free_raw]
  rfl

theorem ensureCapacity (h : v.Holds l) (minCapacity : Nat) :
    ∃ v', v.ensureCapacity minCapacity = some v' ∧ v'.Holds l ∧ minCapacity ≤ v'.mCapacity := by
  unfold SequenceContainer.ensureCapacity
  by_cases hle : minCapacity ≤ v.mCapacity
  · rw [if_pos hle]
    exact ⟨v, rfl, h, hle⟩
  · have hlength : l.length ≤ minCapacity := by
      have := h.length_le
      omega
    obtain ⟨v', hv', hholds, hcapacity⟩ := h.reallocate hlength
    rw [if_neg hle]
    exact ⟨v', hv', hholds, Nat.le_of_eq hcapacity.symm⟩

theorem trimToSize (h : v.Holds l) : ∃ v', v.trimToSize = some v' ∧ v'.Holds l := by
  unfold SequenceContainer.trimToSize
  split
  · have hlength : l.length ≤ v.mSize := Nat.le_of_eq h.size.symm
    obtain ⟨v', hv', hholds, -⟩ := h.reallocate hlength
    exact ⟨v', hv', hholds⟩
  · exact ⟨v, rfl, h⟩

/-- There is room for one more. -/
theorem grow (h : v.Holds l) (hgrow : v.CanGrow) :
    ∃ v' room, v.grow = some v' ∧ v'.Holds l ∧ v'.mCapacity = l.length + (room + 1)
      ∧ v'.mpData = Cells.filled l (room + 1) := by
  obtain ⟨v', hv', hholds, hlt⟩ : ∃ v', v.grow = some v' ∧ v'.Holds l ∧ l.length < v'.mCapacity := by
    unfold SequenceContainer.grow
    by_cases hfull : v.mSize = v.mCapacity
    · obtain ⟨hmore, hlt⟩ := hgrow hfull
      obtain ⟨v', hv', hholds, hcapacity⟩ := h.ensureCapacity ((v.mCapacity + v.mIncrement) % 2 ^ 32)
      rw [Nat.mod_eq_of_lt hlt] at hcapacity
      have hsize := h.size
      rw [if_pos hfull]
      exact ⟨v', hv', hholds, by omega⟩
    · have hsize := h.size
      have hlength := h.length_le
      rw [if_neg hfull]
      exact ⟨v, rfl, h, by omega⟩
  obtain ⟨room, hcapacity, hdata⟩ := hholds.room
  cases room with
  | zero => omega
  | succ room => exact ⟨v', room, hv', hholds, hcapacity, hdata⟩

theorem addElement (h : v.Holds l) (hgrow : v.CanGrow) (elem : α) :
    ∃ v', v.addElement elem = some v' ∧ v'.Holds (l ++ [elem]) := by
  obtain ⟨w, room, hw, hholds, hcapacity, hdata⟩ := h.grow hgrow
  have hconstruct : (Cells.filled l (room + 1)).construct l.length elem
      = some (Cells.filled (l ++ [elem]) room) := by
    unfold Cells.filled
    rw [Cells.raw_succ, Cells.construct_append (List.length_map _).symm]
    exact congrArg some (Cells.filled_snoc l elem room)
  refine ⟨⟨w.mSize + 1, w.mCapacity, w.mIncrement, Cells.filled (l ++ [elem]) room⟩, ?_, ?_, room,
    ?_, rfl⟩
  · unfold SequenceContainer.addElement
    rw [hw, Option.bind_eq_bind, Option.bind_some, hdata, hholds.size, hconstruct]
    rfl
  · rw [List.length_append, hholds.size]
    rfl
  · rw [List.length_append, List.length_singleton, hcapacity]
    omega

theorem addElements (h : v.Holds l) {carray : List α} (hlt : v.mSize + carray.length < 2 ^ 32) :
    ∃ v', v.addElements carray = some v' ∧ v'.Holds (l ++ carray) := by
  have hmod : (v.mSize + carray.length) % 2 ^ 32 = v.mSize + carray.length := Nat.mod_eq_of_lt hlt
  obtain ⟨w, hw, hholds, hroom⟩ : ∃ w, v.growBy carray.length = some w ∧ w.Holds l
      ∧ v.mSize + carray.length ≤ w.mCapacity := by
    unfold growBy
    rw [hmod]
    by_cases hmore : v.mSize + carray.length > v.mCapacity
    · rw [if_pos hmore]
      exact h.ensureCapacity _
    · rw [if_neg hmore]
      exact ⟨v, rfl, h, Nat.le_of_not_lt hmore⟩
  obtain ⟨room, hcapacity, hdata⟩ := hholds.room
  rw [h.size] at hroom
  obtain ⟨room', rfl⟩ : ∃ room', room = carray.length + room' :=
    Nat.exists_eq_add_of_le (by omega)
  refine ⟨⟨w.mSize + carray.length, w.mCapacity, w.mIncrement, Cells.filled (l ++ carray) room'⟩,
    ?_, ?_, room', ?_, rfl⟩
  · unfold SequenceContainer.addElements
    rw [hw, Option.bind_eq_bind, Option.bind_some, hdata, hholds.size, constructAll_filled]
    rfl
  · rw [List.length_append, hholds.size]
  · rw [List.length_append, hcapacity]
    omega

theorem insertElementAt (h : v.Holds l) (hgrow : v.CanGrow) (obj : α) {index : Nat}
    (hindex : index ≤ v.mSize) :
    ∃ v', v.insertElementAt obj index = some v'
      ∧ v'.Holds (l.take index ++ obj :: l.drop index) := by
  unfold SequenceContainer.insertElementAt
  by_cases hlast : index = v.mSize
  · have htake : l.take index ++ obj :: l.drop index = l ++ [obj] := by
      rw [hlast, h.size, List.take_length, List.drop_length]
    rw [if_pos hlast, htake]
    exact h.addElement hgrow obj
  · have hlt : index < v.mSize := by omega
    obtain ⟨w, room, hw, hholds, hcapacity, hdata⟩ := h.grow hgrow
    have hfront : (l.take index).length = index := by
      rw [List.length_take, ← h.size]
      omega
    have hback : (l.drop index).length = v.mSize - index := by rw [List.length_drop, h.size]
    have hshift := shiftUp_filled (l.take index) (l.drop index) obj room
    rw [List.take_append_drop, hfront, hback] at hshift
    refine ⟨⟨w.mSize + 1, w.mCapacity, w.mIncrement,
      Cells.filled (l.take index ++ obj :: l.drop index) room⟩, ?_, ?_, room, ?_, rfl⟩
    · have hsize : w.mSize = v.mSize := hholds.size.trans h.size.symm
      rw [if_neg hlast, hw, Option.bind_eq_bind, Option.bind_some, hsize, if_pos hlt, hdata, hshift]
      rfl
    · show w.mSize + 1 = _
      rw [List.length_append, List.length_cons, hfront, hback, hholds.size, ← h.size]
      omega
    · show w.mCapacity = _
      rw [List.length_append, List.length_cons, hfront, hback, hcapacity, ← h.size]
      omega

theorem removeAllElements (h : v.Holds l) :
    v.removeAllElements = some { v with mSize := 0, mpData := Cells.raw v.mCapacity } := by
  obtain ⟨room, hcapacity, hdata⟩ := h.room
  have hdestroy : destroyAll l.length 0 (Cells.filled l room)
      = some (Cells.raw (0 + l.length) ++ Cells.raw room) := destroyAll_filled l 0 room
  unfold SequenceContainer.removeAllElements
  rw [h.size, hdata, hdestroy, Nat.zero_add, ← Cells.raw_add, ← hcapacity]
  rfl

theorem removeElementAt (h : v.Holds l) {index : Nat} (hindex : index < v.mSize) :
    ∃ v', v.removeElementAt index = some v' ∧ v'.Holds (l.eraseIdx index) := by
  obtain ⟨room, hcapacity, hdata⟩ := h.room
  have hlt : index < l.length := h.size ▸ hindex
  have hfront : (l.take index).length = index := by
    rw [List.length_take]
    omega
  have hback : (l.drop (index + 1)).length = v.mSize - (index + 1) := by
    rw [List.length_drop, h.size]
  have hsplit : l = l.take index ++ l[index] :: l.drop (index + 1) := by
    rw [← List.drop_eq_getElem_cons hlt, List.take_append_drop]
  obtain ⟨last, hclose⟩ := closeGap_filled (l.drop (index + 1)) (l.take index) l[index] room
  rw [← hsplit, hfront, hback, ← List.eraseIdx_eq_take_drop_succ] at hclose
  have hlength : (l.eraseIdx index).length = v.mSize - 1 := by
    rw [List.length_eraseIdx_of_lt hlt, h.size]
  have hdestroy : (Cells.filled (l.eraseIdx index ++ [last]) room).destroy (v.mSize - 1)
      = some (Cells.filled (l.eraseIdx index) (room + 1)) := by
    rw [← Cells.filled_snoc, Cells.destroy_append (by rw [List.length_map, hlength])]
    rfl
  refine ⟨⟨v.mSize - 1, v.mCapacity, v.mIncrement, Cells.filled (l.eraseIdx index) (room + 1)⟩, ?_,
    hlength.symm, room + 1, ?_, rfl⟩
  · unfold SequenceContainer.removeElementAt
    rw [hdata, hclose, Option.bind_eq_bind, Option.bind_some, hdestroy]
    rfl
  · rw [hlength, hcapacity, ← h.size]
    omega

theorem removeElement [DecidableEq α] (h : v.Holds l) (obj : α) :
    ∃ v', v.removeElement obj = some (v', decide (obj ∈ l)) ∧ v'.Holds (l.erase obj) := by
  obtain ⟨room, -, hdata⟩ := h.room
  have hfind : findElement obj v.mSize 0 v.mpData = some ((l.idxOf? obj).map (0 + ·)) := by
    rw [h.size, hdata]
    exact findElement_filled obj l [] room
  unfold SequenceContainer.removeElement
  rw [hfind, List.erase_eq_eraseIdx, Option.bind_eq_bind, Option.bind_some]
  cases hindex : l.idxOf? obj with
  | none =>
    have hnot : obj ∉ l := List.idxOf?_eq_none_iff.1 hindex
    exact ⟨v, by rw [decide_eq_false hnot]; rfl, h⟩
  | some i =>
    obtain ⟨hi, hobj, -⟩ := List.idxOf?_eq_some_iff.1 hindex
    have hmem : obj ∈ l := hobj ▸ List.getElem_mem hi
    have hindex' : i < v.mSize := by
      rw [h.size]
      exact hi
    obtain ⟨v', hv', hholds⟩ := h.removeElementAt hindex'
    refine ⟨v', ?_, hholds⟩
    show (v.removeElementAt (0 + i)).map _ = _
    rw [Nat.zero_add, hv', decide_eq_true hmem]
    rfl

theorem setElementAt (h : v.Holds l) (obj : α) {index : Nat} (hindex : index < v.mSize) :
    ∃ v', v.setElementAt obj index = some v' ∧ v'.Holds (l.set index obj) := by
  obtain ⟨room, hcapacity, hdata⟩ := h.room
  have hlt : index < l.length := h.size ▸ hindex
  have hfront : index = ((l.take index).map some).length := by
    rw [List.length_map, List.length_take]
    omega
  have hsplit : l = l.take index ++ l[index] :: l.drop (index + 1) := by
    rw [← List.drop_eq_getElem_cons hlt, List.take_append_drop]
  have hset : l.set index obj = l.take index ++ obj :: l.drop (index + 1) := by
    rw [List.set_eq_take_append_cons_drop, if_pos hlt]
  have hassign : (Cells.filled l room).assign index obj
      = some (Cells.filled (l.set index obj) room) := by
    calc (Cells.filled l room).assign index obj
        = (Cells.filled (l.take index ++ l[index] :: l.drop (index + 1)) room).assign index obj := by
          rw [← hsplit]
      _ = some (Cells.filled (l.set index obj) room) := by
          rw [Cells.filled_append, Cells.filled_cons, Cells.assign_append hfront, hset,
            Cells.filled_append, Cells.filled_cons]
  refine ⟨⟨v.mSize, v.mCapacity, v.mIncrement, Cells.filled (l.set index obj) room⟩, ?_, ?_, room,
    ?_, rfl⟩
  · unfold SequenceContainer.setElementAt
    rw [hdata, hassign]
    rfl
  · rw [List.length_set]
    exact h.size
  · rw [List.length_set]
    exact hcapacity

theorem renew (h : v.Holds l) (capacity : Nat) :
    ∃ w, v.renew capacity = some w ∧ w.Holds [] ∧ capacity ≤ w.mCapacity := by
  unfold SequenceContainer.renew
  by_cases hnew : v.mSize > 0 ∨ v.mCapacity < capacity
  · refine ⟨⟨0, capacity, v.mIncrement, Cells.raw capacity⟩, ?_,
      ⟨rfl, capacity, (Nat.zero_add _).symm, rfl⟩, Nat.le_refl _⟩
    rw [if_pos hnew, h.removeAllElements]
    show (Cells.free _).bind _ = _
    rw [Cells.free_raw]
    rfl
  · have hempty : l = [] := by
      have hsize := h.size
      exact List.length_eq_zero_iff.1 (by omega)
    rw [if_neg hnew]
    exact ⟨v, rfl, hempty ▸ h, by omega⟩

theorem assign (h : v.Holds l) (h' : toCopy.Holds l') :
    ∃ v', v.assign toCopy = some v' ∧ v'.Holds l' := by
  obtain ⟨w, hw, hholds, hroom⟩ := h.renew toCopy.mCapacity
  obtain ⟨room, hcapacity, hdata⟩ := hholds.room
  obtain ⟨room', hcapacity', hdata'⟩ := h'.room
  have hlength := h'.length_le
  rw [List.length_nil, Nat.zero_add] at hcapacity
  obtain ⟨more, hmore⟩ : ∃ more, room = l'.length + more := Nat.exists_eq_add_of_le (by omega)
  have hcopy : copyAll l'.length 0 (Cells.filled l' room') (Cells.filled [] (l'.length + more))
      = some (Cells.filled l' more) := copyAll_filled l' [] room' more
  refine ⟨⟨toCopy.mSize, w.mCapacity, toCopy.mIncrement, Cells.filled l' more⟩, ?_, h'.size, more,
    hcapacity.trans hmore, rfl⟩
  unfold SequenceContainer.assign
  rw [hw, Option.bind_eq_bind, Option.bind_some, h'.size, hdata', hdata, hmore, hcopy]
  rfl

theorem newOfArray (carray : List α) (initialCapacity capacityIncrement : Nat) :
    ∃ v, newOfArray carray initialCapacity capacityIncrement = some v ∧ v.Holds carray := by
  generalize hcapacity : (if initialCapacity < carray.length then carray.length
    else initialCapacity) = mCapacity
  have hle : carray.length ≤ mCapacity := by
    rw [← hcapacity]
    split <;> omega
  obtain ⟨room, rfl⟩ : ∃ room, mCapacity = carray.length + room := Nat.exists_eq_add_of_le hle
  have hconstruct : constructAll 0 carray (Cells.raw (carray.length + room))
      = some (Cells.filled carray room) := constructAll_filled carray [] room
  refine ⟨⟨carray.length, carray.length + room, capacityIncrement, Cells.filled carray room⟩, ?_,
    rfl, room, rfl, rfl⟩
  unfold SequenceContainer.newOfArray
  simp only [hcapacity, hconstruct]
  rfl

theorem newOfCopy (h' : toCopy.Holds l') : ∃ v, newOfCopy toCopy = some v ∧ v.Holds l' :=
  (Holds.new 0 0).assign h'

theorem destruct (h : v.Holds l) : v.destruct = some () := by
  unfold SequenceContainer.destruct
  rw [h.removeAllElements]
  exact Cells.free_raw _

end Holds

/-! ## calls, one after the other -/

end

inductive Constructor (α : Type) where
  | capacity (initialCapacity capacityIncrement : Nat)
  | array (carray : List α) (initialCapacity capacityIncrement : Nat)
  | copy (toCopy : SequenceContainer α)

inductive Call (α : Type) where
  | addElement (elem : α)
  | addElements (carray : List α)
  | insertElementAt (obj : α) (index : Nat)
  | setElementAt (obj : α) (index : Nat)
  | removeElementAt (index : Nat)
  | removeElement (obj : α)
  | removeAllElements
  | ensureCapacity (minCapacity : Nat)
  | trimToSize
  | assign (toCopy : SequenceContainer α)

section
variable {α : Type} [DecidableEq α]

def Constructor.construct : Constructor α → Option (SequenceContainer α)
  | .capacity initialCapacity capacityIncrement => some (new initialCapacity capacityIncrement)
  | .array carray initialCapacity capacityIncrement =>
    newOfArray carray initialCapacity capacityIncrement
  | .copy toCopy => newOfCopy toCopy

def Constructor.Allowed : Constructor α → Prop
  | .copy toCopy => ∃ l, toCopy.Holds l
  | _ => True

/-- The list that a constructor starts with. -/
def Constructor.list : Constructor α → List α
  | .capacity _ _ => []
  | .array carray _ _ => carray
  | .copy toCopy => toCopy.elements

omit [DecidableEq α] in
theorem holds_construct {constructor : Constructor α} (hallowed : constructor.Allowed) :
    ∃ v, constructor.construct = some v ∧ v.Holds constructor.list := by
  cases constructor with
  | capacity initialCapacity capacityIncrement => exact ⟨_, rfl, Holds.new _ _⟩
  | array carray initialCapacity capacityIncrement => exact Holds.newOfArray carray _ _
  | copy toCopy =>
    obtain ⟨l, hl⟩ := hallowed
    obtain ⟨v, hv, hholds⟩ := Holds.newOfCopy hl
    refine ⟨v, hv, ?_⟩
    show v.Holds toCopy.elements
    rw [hl.elements]
    exact hholds

def apply (v : SequenceContainer α) : Call α → Option (SequenceContainer α)
  | .addElement elem => v.addElement elem
  | .addElements carray => v.addElements carray
  | .insertElementAt obj index => v.insertElementAt obj index
  | .setElementAt obj index => v.setElementAt obj index
  | .removeElementAt index => v.removeElementAt index
  | .removeElement obj => (v.removeElement obj).map Prod.fst
  | .removeAllElements => v.removeAllElements
  | .ensureCapacity minCapacity => v.ensureCapacity minCapacity
  | .trimToSize => v.trimToSize
  | .assign toCopy => v.assign toCopy

/-- What the documentation asks of a call, and that `unsigned int` holds the sizes. -/
def Allowed (v : SequenceContainer α) : Call α → Prop
  | .addElement _ => v.CanGrow
  | .addElements carray => v.mSize + carray.length < 2 ^ 32
  | .insertElementAt _ index => index ≤ v.mSize ∧ v.CanGrow
  | .setElementAt _ index => index < v.mSize
  | .removeElementAt index => index < v.mSize
  | .assign toCopy => ∃ l, toCopy.Holds l
  | _ => True

/-- What a call does to a list. -/
def Call.after (l : List α) : Call α → List α
  | .addElement elem => l ++ [elem]
  | .addElements carray => l ++ carray
  | .insertElementAt obj index => l.take index ++ obj :: l.drop index
  | .setElementAt obj index => l.set index obj
  | .removeElementAt index => l.eraseIdx index
  | .removeElement obj => l.erase obj
  | .removeAllElements => []
  | .ensureCapacity _ => l
  | .trimToSize => l
  | .assign toCopy => toCopy.elements

/-- The step lemma. -/
theorem holds_apply {v : SequenceContainer α} {l : List α} (h : v.Holds l) {call : Call α}
    (hallowed : v.Allowed call) : ∃ v', v.apply call = some v' ∧ v'.Holds (call.after l) := by
  cases call with
  | addElement elem => exact h.addElement hallowed elem
  | addElements carray => exact h.addElements hallowed
  | insertElementAt obj index => exact h.insertElementAt hallowed.2 obj hallowed.1
  | setElementAt obj index => exact h.setElementAt obj hallowed
  | removeElementAt index => exact h.removeElementAt hallowed
  | removeElement obj =>
    obtain ⟨v', hv', hholds⟩ := h.removeElement obj
    refine ⟨v', ?_, hholds⟩
    show (v.removeElement obj).map Prod.fst = some v'
    rw [hv']
    rfl
  | removeAllElements =>
    exact ⟨_, h.removeAllElements, rfl, v.mCapacity, (Nat.zero_add _).symm, rfl⟩
  | ensureCapacity minCapacity =>
    obtain ⟨v', hv', hholds, -⟩ := h.ensureCapacity minCapacity
    exact ⟨v', hv', hholds⟩
  | trimToSize => exact h.trimToSize
  | assign toCopy =>
    obtain ⟨l', hl'⟩ := hallowed
    obtain ⟨v', hv', hholds⟩ := h.assign hl'
    refine ⟨v', hv', ?_⟩
    show v'.Holds toCopy.elements
    rw [hl'.elements]
    exact hholds

/-- **A vector is a list**: from any constructor on, calls that are allowed when they come never do
what the language leaves undefined; the vector then holds the list that the constructor and the calls
make, every element in a place of its own, and its destructor leaves no element behind.  No argument
refers into the vector's own memory. -/
theorem calls_refine (constructor : Constructor α) (calls : List (Call α))
    (hconstructor : constructor.Allowed)
    (h : ∀ v, constructor.construct = some v → Runs.Along apply Allowed v calls) :
    ∃ v, (constructor.construct.bind fun v => Runs.exec apply v calls) = some v
      ∧ v.Holds (Runs.run (fun l call => call.after l) constructor.list calls)
      ∧ v.destruct = some () := by
  have hstep (l : List α) (v : SequenceContainer α) (call : Call α) (hv : v.Holds l)
      (hallowed : v.Allowed call) : ∃ v', v.apply call = some v' ∧ v'.Holds (call.after l) :=
    holds_apply hv hallowed
  obtain ⟨v₀, hv₀, hholds₀⟩ := holds_construct hconstructor
  obtain ⟨v, hv, hholds⟩ := Runs.exec_refines (R := fun l (v : SequenceContainer α) => v.Holds l)
    hstep calls hholds₀ (h v₀ hv₀)
  refine ⟨v, ?_, hholds, hholds.destruct⟩
  rw [hv₀]
  exact hv

/-- A copy of an array is edited: an element is added, one is inserted before the others, one in the
middle is removed. -/
theorem calls_refine_edited :
    let constructor : Constructor Nat := .copy ⟨2, 2, 1, [some 1, some 2]⟩
    let calls : List (Call Nat) := [.addElement 4, .insertElementAt 3 0, .removeElementAt 1]
    newOfArray [1, 2] 0 1 = some ⟨2, 2, 1, [some 1, some 2]⟩
      ∧ Runs.run (fun l call => call.after l) constructor.list calls = [3, 2, 4]
      ∧ ∃ v, (constructor.construct.bind fun v => Runs.exec apply v calls) = some v
        ∧ v.Holds (Runs.run (fun l call => call.after l) constructor.list calls)
        ∧ v.destruct = some () := by
  refine ⟨rfl, rfl, ?_⟩
  apply calls_refine
  · exact ⟨[1, 2], rfl, 0, rfl, rfl⟩
  intro v hv
  obtain rfl : v = ⟨2, 2, 1, [some 1, some 2]⟩ := (Option.some.inj hv).symm
  refine ⟨fun _ => ⟨Nat.one_pos, by decide⟩, fun v hv => ?_⟩
  obtain rfl : v = ⟨3, 3, 1, [some 1, some 2, some 4]⟩ := (Option.some.inj hv).symm
  refine ⟨⟨Nat.zero_le _, fun _ => ⟨Nat.one_pos, by decide⟩⟩, fun v hv => ?_⟩
  obtain rfl : v = ⟨4, 4, 1, [some 3, some 1, some 2, some 4]⟩ := (Option.some.inj hv).symm
  exact ⟨(show 1 < 4 by decide), fun _ _ => trivial⟩

end

end SequenceContainer

end Common
