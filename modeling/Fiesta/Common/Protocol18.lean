import Fiesta.Common.Groups
import Fiesta.Lib.Codec

/-!
# Integers in the serialization protocol 1.8

`int` and `int64` are written with a type code and, if they are small, in one or two bytes; others are
written compressed.  What chooses the `write` of a value and the `pop<C>` of a code is a part of the
library that is not here: `push` takes the `write` of the value's type, and `pop` the `pop<C>` of the
code that is read.

* `write`, `getTypeSize`, `read`   integers, with and without a type code;
* `ReadsBack`                      what is written of an integer, and how it is read;
* `Number.numbers_read_back`       **numbers are read back**, whatever comes behind them;
* `pop_bounded`                    **reading stays near the front, whatever is read**;
* `number_size`                    **how much room a number takes**.
-/

namespace Common

open Photon (NByte)

namespace TypeCode18

def COMPRESSED_INT : NByte := 9
def COMPRESSED_LONG : NByte := 10
def INT1 : NByte := 11
def INT1_ : NByte := 12
def INT2 : NByte := 13
def INT2_ : NByte := 14
def L1 : NByte := 15
def L1_ : NByte := 16
def L2 : NByte := 17
def L2_ : NByte := 18
def INT_ZERO : NByte := 30
def LONG_ZERO : NByte := 31

/-- The types that are written compressed. -/
inductive IntegerType where
  | int
  | int64

def IntegerType.bits : IntegerType → Nat
  | .int => 32
  | .int64 => 64

namespace IntegerTypeCode

def COMPRESSED : IntegerType → NByte
  | .int => COMPRESSED_INT
  | .int64 => COMPRESSED_LONG

def ONE_BYTE : IntegerType → NByte
  | .int => INT1
  | .int64 => L1

def ONE_BYTE_ : IntegerType → NByte
  | .int => INT1_
  | .int64 => L1_

def TWO_BYTE : IntegerType → NByte
  | .int => INT2
  | .int64 => L2

def TWO_BYTE_ : IntegerType → NByte
  | .int => INT2_
  | .int64 => L2_

def ZERO : IntegerType → NByte
  | .int => INT_ZERO
  | .int64 => LONG_ZERO

end IntegerTypeCode

end TypeCode18

open TypeCode18

namespace Protocol18

/-! ## integers -/

/-- The bytes of an `unsigned short`, as `writeData` copies them and `readShort` expects them. -/
def writeShort (data : BitVec 16) : List NByte :=
  [.ofBitVec (data.setWidth 8), .ofBitVec ((data >>> 8).setWidth 8)]

def readByte : List NByte → Option (NByte × List NByte)
  | [] => none
  | b :: bytes => some (b, bytes)

def readShort : List NByte → Option (BitVec 16 × List NByte)
  | lo :: hi :: bytes => some (hi.toBitVec ++ lo.toBitVec, bytes)
  | _ => none

section
variable (T : IntegerType)

/-- Without a type code, and after `COMPRESSED`. -/
def writeCompressed (data : BitVec T.bits) : Option (List NByte) :=
  let zigVal : BitVec 64 := (encodeZigZag data).setWidth 64
  writeUnsigned zigVal

/-- `write(T data, bool setType)` for `int` and `int64` -/
def write (data : BitVec T.bits) (setType : Bool) : Option (List NByte) :=
  if setType then
    if data = 0#T.bits then some [IntegerTypeCode.ZERO T]
    else if 0 < data.toInt then
      if data.toInt ≤ 255 then some [IntegerTypeCode.ONE_BYTE T, .ofBitVec (data.setWidth 8)]
      else if data.toInt ≤ 65535 then
        some (IntegerTypeCode.TWO_BYTE T :: writeShort (data.setWidth 16))
      else (writeCompressed T data).map (IntegerTypeCode.COMPRESSED T :: ·)
    else if -255 ≤ data.toInt then
      some [IntegerTypeCode.ONE_BYTE_ T, .ofBitVec ((-data).setWidth 8)]
    else if -65535 ≤ data.toInt then
      some (IntegerTypeCode.TWO_BYTE_ T :: writeShort ((-data).setWidth 16))
    else (writeCompressed T data).map (IntegerTypeCode.COMPRESSED T :: ·)
  else writeCompressed T data

/-- What `push` makes room for before it writes. -/
def getTypeSize (value : BitVec T.bits) (setType : Bool) : Nat :=
  let zigVal : BitVec 64 := (encodeZigZag value).setWidth 64
  let size := (if setType then 1 else 0) + groupCount 64 zigVal
  if setType then
    if value = 0#T.bits then 1
    else if -255 ≤ value.toInt ∧ value.toInt ≤ 255 then 1 + 1
    else if -65535 ≤ value.toInt ∧ value.toInt ≤ 65535 then 1 + 2
    else size
  else size

/-- `read<C>` for the type codes of `T`: `none` for another one. -/
def read (C : NByte) (bytes : List NByte) : Option (BitVec T.bits × List NByte) :=
  if C = IntegerTypeCode.ZERO T then some (0#T.bits, bytes)
  else if C = IntegerTypeCode.ONE_BYTE T then
    (readByte bytes).map fun r => (r.1.toBitVec.setWidth T.bits, r.2)
  else if C = IntegerTypeCode.ONE_BYTE_ T then
    (readByte bytes).map fun r => (-(r.1.toBitVec.setWidth T.bits), r.2)
  else if C = IntegerTypeCode.TWO_BYTE T then
    (readShort bytes).map fun r => (r.1.setWidth T.bits, r.2)
  else if C = IntegerTypeCode.TWO_BYTE_ T then
    (readShort bytes).map fun r => (-(r.1.setWidth T.bits), r.2)
  else if C = IntegerTypeCode.COMPRESSED T then
    (readUnsigned T.bits bytes).map fun r => (decodeZigZag r.1, r.2)
  else none

end

/-! ## integers are read back -/

section
variable (T : IntegerType)

theorem eight_le_bits : 8 ≤ T.bits := by cases T <;> decide

theorem bits_le : T.bits ≤ 64 := by cases T <;> decide

theorem decode_encodeZigZag_bits (data : BitVec T.bits) : decodeZigZag (encodeZigZag data) = data := by
  cases T with
  | int => exact decode_encodeZigZag (n := 31) data
  | int64 => exact decode_encodeZigZag (n := 63) data

/-- Without a type code, as the elements of an array are written. -/
theorem read_writeCompressed (data : BitVec T.bits) :
    ∃ bytes, writeCompressed T data = some bytes
      ∧ bytes.length = Nat.log 128 (encodeZigZag data).toNat + 1
      ∧ ∀ rest, (readUnsigned T.bits (bytes ++ rest)).map (fun r => (decodeZigZag r.1, r.2))
        = some (data, rest) := by
  obtain ⟨bytes, hbytes, hlength, hread⟩ :=
    read_writeUnsigned (eight_le_bits T) (bits_le T) (encodeZigZag data)
  refine ⟨bytes, hbytes, hlength, fun rest => ?_⟩
  rw [hread, Option.map_some, decode_encodeZigZag_bits]

/-! ### the type codes -/

def codes : List NByte :=
  [IntegerTypeCode.ZERO T, IntegerTypeCode.ONE_BYTE T, IntegerTypeCode.ONE_BYTE_ T,
    IntegerTypeCode.TWO_BYTE T, IntegerTypeCode.TWO_BYTE_ T, IntegerTypeCode.COMPRESSED T]

theorem read_of_not_mem {C : NByte} (h : C ∉ codes T) (bytes : List NByte) :
    read T C bytes = none := by
  simp only [codes, List.mem_cons, List.not_mem_nil, or_false, not_or] at h
  obtain ⟨h0, h1, h2, h3, h4, h5⟩ := h
  unfold read
  rw [if_neg h0, if_neg h1, if_neg h2, if_neg h3, if_neg h4, if_neg h5]

theorem read_ZERO (bytes : List NByte) :
    read T (IntegerTypeCode.ZERO T) bytes = some (0#T.bits, bytes) := by
  cases T <;> rfl

theorem read_ONE_BYTE (bytes : List NByte) :
    read T (IntegerTypeCode.ONE_BYTE T) bytes
      = (readByte bytes).map fun r => (r.1.toBitVec.setWidth T.bits, r.2) := by
  cases T <;> rfl

theorem read_ONE_BYTE_ (bytes : List NByte) :
    read T (IntegerTypeCode.ONE_BYTE_ T) bytes
      = (readByte bytes).map fun r => (-(r.1.toBitVec.setWidth T.bits), r.2) := by
  cases T <;> rfl

theorem read_TWO_BYTE (bytes : List NByte) :
    read T (IntegerTypeCode.TWO_BYTE T) bytes
      = (readShort bytes).map fun r => (r.1.setWidth T.bits, r.2) := by
  cases T <;> rfl

theorem read_TWO_BYTE_ (bytes : List NByte) :
    read T (IntegerTypeCode.TWO_BYTE_ T) bytes
      = (readShort bytes).map fun r => (-(r.1.setWidth T.bits), r.2) := by
  cases T <;> rfl

theorem read_COMPRESSED (bytes : List NByte) :
    read T (IntegerTypeCode.COMPRESSED T) bytes
      = (readUnsigned T.bits bytes).map fun r => (decodeZigZag r.1, r.2) := by
  cases T <;> rfl

/-! ### small integers -/

variable {T}

theorem setWidth_of_lt {w k : Nat} {x : BitVec w} (h : x.toNat < 2 ^ k) :
    (x.setWidth k).setWidth w = x := by
  apply BitVec.eq_of_toNat_eq
  rw [BitVec.toNat_setWidth, BitVec.toNat_setWidth, Nat.mod_eq_of_lt h]
  exact Nat.mod_eq_of_lt x.isLt

/-- The bytes of a short are read back. -/
theorem readShort_writeShort (data : BitVec 16) (rest : List NByte) :
    readShort (writeShort data ++ rest) = some (data, rest) := by
  show some (((data >>> 8).setWidth 8) ++ (data.setWidth 8), rest) = _
  have happend : ((data >>> 8).setWidth 8) ++ (data.setWidth 8) = data := by
    apply BitVec.eq_of_toNat_eq
    have hlt : data.toNat < 65536 := data.isLt
    rw [BitVec.toNat_append, BitVec.toNat_setWidth, BitVec.toNat_setWidth, BitVec.toNat_ushiftRight,
      Nat.shiftRight_eq_div_pow, Nat.shiftLeft_eq, Nat.mul_comm,
      ← Nat.two_pow_add_eq_or_of_lt (Nat.mod_lt _ (by omega))]
    omega
  rw [happend]

theorem toNat_le_of_toInt_pos {w : Nat} {x : BitVec w} (h : 0 < x.toInt) {n : Nat}
    (hle : x.toInt ≤ n) : x.toNat ≤ n := by
  rw [BitVec.toInt_eq_toNat_cond] at h hle
  have hlt := x.isLt
  split at hle
  · omega
  · rename_i hover
    rw [if_neg hover] at h
    omega

theorem toNat_neg_le_of_toInt_nonpos {w : Nat} {x : BitVec w} (h : ¬ 0 < x.toInt) {n : Nat}
    (hle : -n ≤ x.toInt) : (-x).toNat ≤ n := by
  have hlt := x.isLt
  rw [BitVec.toNat_neg]
  rw [BitVec.toInt_eq_toNat_cond] at h hle
  split at hle
  · rename_i hsmall
    rw [if_pos hsmall] at h
    have hzero : x.toNat = 0 := by omega
    rw [hzero, Nat.sub_zero, Nat.mod_self]
    exact Nat.zero_le n
  · rw [Nat.mod_eq_of_lt (by omega)]
    omega

variable (T)

/-- What is written as a value of the type `T`, and how it is read back. -/
def ReadsBack (data : BitVec T.bits) (C : NByte) (bytes : List NByte) : Prop :=
  C ∈ codes T ∧ write T data true = some (C :: bytes)
    ∧ bytes.length + 1 = getTypeSize T data true
    ∧ ∀ rest, read T C (bytes ++ rest) = some (data, rest)

variable {T} {data : BitVec T.bits}

theorem readsBack_zero : ReadsBack T 0#T.bits (IntegerTypeCode.ZERO T) [] := by
  refine ⟨by simp [codes], by simp [write], by simp [getTypeSize], ?_⟩
  intro rest
  exact read_ZERO T rest

theorem readsBack_oneByte (hne : data ≠ 0#T.bits) (h : 0 < data.toInt) (hle : data.toInt ≤ 255) :
    ReadsBack T data (IntegerTypeCode.ONE_BYTE T) [.ofBitVec (data.setWidth 8)] := by
  have hnat := toNat_le_of_toInt_pos h (n := 255) hle
  refine ⟨by simp [codes], by simp [write, hne, h, hle], ?_, fun rest => ?_⟩
  · have hsize : -255 ≤ data.toInt ∧ data.toInt ≤ 255 := ⟨by omega, hle⟩
    simp [getTypeSize, hne, hsize]
  · rw [read_ONE_BYTE]
    show some ((data.setWidth 8).setWidth T.bits, rest) = _
    rw [setWidth_of_lt (by omega)]

theorem readsBack_oneByte_ (hne : data ≠ 0#T.bits) (h : ¬ 0 < data.toInt) (hle : -255 ≤ data.toInt) :
    ReadsBack T data (IntegerTypeCode.ONE_BYTE_ T) [.ofBitVec ((-data).setWidth 8)] := by
  have hnat := toNat_neg_le_of_toInt_nonpos h (n := 255) hle
  refine ⟨by simp [codes], by simp [write, hne, h, hle], ?_, fun rest => ?_⟩
  · have hsize : -255 ≤ data.toInt ∧ data.toInt ≤ 255 := ⟨hle, by omega⟩
    simp [getTypeSize, hne, hsize]
  · rw [read_ONE_BYTE_]
    show some (-(((-data).setWidth 8).setWidth T.bits), rest) = _
    rw [setWidth_of_lt (by omega), BitVec.neg_neg]

theorem readsBack_twoByte (h : 255 < data.toInt) (hle : data.toInt ≤ 65535) :
    ReadsBack T data (IntegerTypeCode.TWO_BYTE T) (writeShort (data.setWidth 16)) := by
  have hpos : 0 < data.toInt := by omega
  have hne : data ≠ 0#T.bits := fun heq => by simp [heq] at hpos
  have hnat := toNat_le_of_toInt_pos hpos (n := 65535) hle
  refine ⟨by simp [codes], by simp [write, hne, hpos, hle, not_le.2 h], ?_, fun rest => ?_⟩
  · have hsize : -65535 ≤ data.toInt ∧ data.toInt ≤ 65535 := ⟨by omega, hle⟩
    simp [getTypeSize, hne, hsize, not_le.2 h, writeShort]
  · rw [read_TWO_BYTE, readShort_writeShort, Option.map_some, setWidth_of_lt (by omega)]

theorem readsBack_twoByte_ (h : data.toInt < -255) (hle : -65535 ≤ data.toInt) :
    ReadsBack T data (IntegerTypeCode.TWO_BYTE_ T) (writeShort ((-data).setWidth 16)) := by
  have hpos : ¬ 0 < data.toInt := by omega
  have hne : data ≠ 0#T.bits := fun heq => by simp [heq] at h
  have hnat := toNat_neg_le_of_toInt_nonpos hpos (n := 65535) hle
  refine ⟨by simp [codes], by simp [write, hne, hpos, hle, not_le.2 h], ?_, fun rest => ?_⟩
  · have hsize : -65535 ≤ data.toInt ∧ data.toInt ≤ 65535 := ⟨hle, by omega⟩
    simp [getTypeSize, hne, hsize, not_le.2 h, writeShort]
  · rw [read_TWO_BYTE_, readShort_writeShort, Option.map_some, setWidth_of_lt (by omega),
      BitVec.neg_neg]

/-- The rounds of `getTypeSize` are the groups that are written. -/
theorem groupCount_zigzag (data : BitVec T.bits) :
    groupCount 64 ((encodeZigZag data).setWidth 64) = Nat.log 128 (encodeZigZag data).toNat + 1 := by
  rw [groupCount_eq 64 (BitVec.isLt _), BitVec.toNat_setWidth_of_le (bits_le T)]

theorem getTypeSize_false (value : BitVec T.bits) :
    getTypeSize T value false = Nat.log 128 (encodeZigZag value).toNat + 1 := by
  rw [← groupCount_zigzag]
  exact Nat.zero_add _

theorem readsBack_compressed (h : data.toInt < -65535 ∨ 65535 < data.toInt) :
    ∃ bytes, ReadsBack T data (IntegerTypeCode.COMPRESSED T) bytes := by
  have hne : data ≠ 0#T.bits := fun heq => by simp [heq] at h
  obtain ⟨bytes, hbytes, hlength, hread⟩ := read_writeCompressed T data
  have hone : ¬ (-255 ≤ data.toInt ∧ data.toInt ≤ 255) := by omega
  have htwo : ¬ (-65535 ≤ data.toInt ∧ data.toInt ≤ 65535) := by omega
  refine ⟨bytes, by simp [codes], ?_, ?_, fun rest => ?_⟩
  · unfold write
    rw [if_pos rfl, if_neg hne]
    by_cases hpos : 0 < data.toInt
    · rw [if_pos hpos, if_neg (by omega), if_neg (by omega), hbytes]
      rfl
    · rw [if_neg hpos, if_neg (by omega), if_neg (by omega), hbytes]
      rfl
  · unfold getTypeSize
    simp only [if_true, if_neg hne, if_neg hone, if_neg htwo]
    rw [groupCount_zigzag, hlength, Nat.add_comm]
  · rw [read_COMPRESSED]
    exact hread rest

variable (T) in
/-- Every integer is read back, and takes the room that was made for it. -/
theorem exists_readsBack (data : BitVec T.bits) : ∃ C bytes, ReadsBack T data C bytes := by
  by_cases hne : data = 0#T.bits
  · rw [hne]
    exact ⟨_, _, readsBack_zero⟩
  by_cases hcompressed : data.toInt < -65535 ∨ 65535 < data.toInt
  · exact ⟨_, readsBack_compressed hcompressed⟩
  by_cases hpos : 0 < data.toInt
  · by_cases hone : data.toInt ≤ 255
    · exact ⟨_, _, readsBack_oneByte hne hpos hone⟩
    · exact ⟨_, _, readsBack_twoByte (by omega) (by omega)⟩
  · by_cases hone : -255 ≤ data.toInt
    · exact ⟨_, _, readsBack_oneByte_ hne hpos hone⟩
    · exact ⟨_, _, readsBack_twoByte_ (by omega) (by omega)⟩

end

/-! ## numbers, one after the other -/

/-- A number, with its type. -/
structure Number where
  type : IntegerType
  value : BitVec type.bits

namespace Number

/-- `push` of an `int` or `int64` with its type: the value is handed to the `write` of its type. -/
def push (n : Number) : Option (List NByte) := write n.type n.value true

def size (n : Number) : Nat := getTypeSize n.type n.value true

/-- `pop<C>` for the type codes of `int` and `int64`: what is popped has the type of the code. -/
def popCode (C : NByte) (bytes : List NByte) : Option (Number × List NByte) :=
  match read .int C bytes with
  | some r => some (⟨.int, r.1⟩, r.2)
  | none => (read .int64 C bytes).map fun r => (⟨.int64, r.1⟩, r.2)

/-- `pop<UNKNOWN>`: the type code comes first, and `pop<C>` of it follows. -/
def pop (bytes : List NByte) : Option (Number × List NByte) :=
  (readByte bytes).bind fun r => popCode r.1 r.2

theorem popCode_of_read {T : IntegerType} {C : NByte} {bytes rest : List NByte}
    {data : BitVec T.bits} (hC : C ∈ codes T) (h : read T C bytes = some (data, rest)) :
    popCode C bytes = some (⟨T, data⟩, rest) := by
  unfold popCode
  cases T with
  | int => rw [h]
  | int64 =>
    have hother : ∀ C ∈ codes .int64, C ∉ codes .int := by decide +kernel
    rw [read_of_not_mem .int (hother C hC), h]
    rfl

theorem readsBack (n : Number) : Codec.ReadsBack push pop size n := by
  obtain ⟨C, bytes, hC, hwrite, hlength, hread⟩ := exists_readsBack n.type n.value
  refine ⟨C :: bytes, hwrite, hlength, fun rest => ?_⟩
  exact popCode_of_read hC (hread rest)

/-- **Numbers are read back**: any sequence of numbers that is pushed with their types takes the room
that was made for it, and is popped again with the same types, whatever comes behind it. -/
theorem numbers_read_back (l : List Number) :
    ∃ bytes, Codec.writeAll push l = some bytes ∧ bytes.length = (l.map size).sum
      ∧ ∀ rest, Codec.readAll pop l.length (bytes ++ rest) = some (l, rest) :=
  Codec.readsBack_all l fun n _ => n.readsBack

end Number

/-- The same for the elements of an array, which `pop` reads as after `COMPRESSED`. -/
theorem elements_read_back (T : IntegerType) (l : List (BitVec T.bits)) :
    ∃ bytes, Codec.writeAll (write T · false) l = some bytes
      ∧ bytes.length = (l.map (getTypeSize T · false)).sum
      ∧ ∀ rest, Codec.readAll (read T (IntegerTypeCode.COMPRESSED T)) l.length (bytes ++ rest)
        = some (l, rest) := by
  apply Codec.readsBack_all l
  intro data _
  obtain ⟨bytes, hbytes, hlength, hread⟩ := read_writeCompressed T data
  refine ⟨bytes, hbytes, ?_, fun rest => ?_⟩
  · rw [hlength]
    exact (getTypeSize_false data).symm
  · rw [read_COMPRESSED]
    exact hread rest

/-! ## whatever is read -/

theorem readUnsigned_used {w : Nat} (hw : 8 ≤ w) {bytes rest : List NByte} {value : BitVec w}
    (h : readUnsigned w bytes = some (value, rest)) :
    ∃ used, bytes = used ++ rest ∧ used.length ≤ bufferSize w := by
  have hread := toNat_readUnsigned hw bytes
  rw [h, Option.map_some] at hread
  obtain ⟨r, hr, heq⟩ := Option.map_eq_some_iff.1 hread.symm
  obtain ⟨used, hbytes, hlength⟩ := Varint.decode_used hr
  rw [(Prod.mk.inj heq).2] at hbytes
  obtain ⟨front, back, rfl, rfl, hback⟩ := List.map_eq_append_iff.1 hbytes
  have hsame : back = rest := List.map_injective_iff.2 (fun _ _ h => UInt8.toNat_inj.1 h) hback
  refine ⟨front, by rw [hsame], ?_⟩
  rwa [List.length_map] at hlength

theorem exists_readUnsigned {w : Nat} (hw : 8 ≤ w) {bytes : List NByte}
    (h : bufferSize w ≤ bytes.length) : ∃ r, readUnsigned w bytes = some r := by
  have hread := toNat_readUnsigned hw bytes
  have hlength : bufferSize w ≤ (bytes.map UInt8.toNat).length := by rwa [List.length_map]
  obtain ⟨v, rest, hdecode⟩ := Varint.exists_decode (b := 128) hlength 1 0
  rw [hdecode, Option.map_some] at hread
  obtain ⟨r, hr, -⟩ := Option.map_eq_some_iff.1 hread
  exact ⟨r, hr⟩

section
variable (T : IntegerType)

theorem five_le_bufferSize : 5 ≤ bufferSize T.bits := by cases T <;> decide

variable {T} {C : NByte} {bytes rest : List NByte}

/-- What a code reads, of the bytes behind it. -/
theorem read_cases (h : C ∈ codes T) (bytes : List NByte) :
    read T C bytes = some (0#T.bits, bytes)
      ∨ (∃ f : NByte → BitVec T.bits, read T C bytes = (readByte bytes).map fun r => (f r.1, r.2))
      ∨ (∃ f : BitVec 16 → BitVec T.bits,
          read T C bytes = (readShort bytes).map fun r => (f r.1, r.2))
      ∨ read T C bytes = (readUnsigned T.bits bytes).map fun r => (decodeZigZag r.1, r.2) := by
  simp only [codes, List.mem_cons, List.not_mem_nil, or_false] at h
  obtain rfl | rfl | rfl | rfl | rfl | rfl := h
  · exact .inl (read_ZERO T bytes)
  · exact .inr (.inl ⟨fun b => b.toBitVec.setWidth T.bits, read_ONE_BYTE T bytes⟩)
  · exact .inr (.inl ⟨fun b => -(b.toBitVec.setWidth T.bits), read_ONE_BYTE_ T bytes⟩)
  · exact .inr (.inr (.inl ⟨fun s => s.setWidth T.bits, read_TWO_BYTE T bytes⟩))
  · exact .inr (.inr (.inl ⟨fun s => -(s.setWidth T.bits), read_TWO_BYTE_ T bytes⟩))
  · exact .inr (.inr (.inr (read_COMPRESSED T bytes)))

theorem mem_codes_of_read {r : BitVec T.bits × List NByte} (h : read T C bytes = some r) :
    C ∈ codes T := by
  by_contra hC
  rw [read_of_not_mem T hC] at h
  cases h

theorem read_used {value : BitVec T.bits} (h : read T C bytes = some (value, rest)) :
    ∃ used, bytes = used ++ rest ∧ used.length ≤ bufferSize T.bits := by
  have hfive := five_le_bufferSize T
  obtain heq | ⟨f, heq⟩ | ⟨f, heq⟩ | heq := read_cases (mem_codes_of_read h) bytes
  · rw [heq] at h
    exact ⟨[], (Prod.mk.inj (Option.some.inj h)).2, Nat.zero_le _⟩
  · rw [heq] at h
    obtain ⟨r, hr, hpair⟩ := Option.map_eq_some_iff.1 h
    cases bytes with
    | nil => cases hr
    | cons b bytes =>
      obtain rfl := Option.some.inj hr
      refine ⟨[b], congrArg (b :: ·) (Prod.mk.inj hpair).2, ?_⟩
      show 1 ≤ bufferSize T.bits
      omega
  · rw [heq] at h
    obtain ⟨r, hr, hpair⟩ := Option.map_eq_some_iff.1 h
    match bytes, hr with
    | lo :: hi :: bytes, hr =>
      obtain rfl := Option.some.inj hr
      refine ⟨[lo, hi], congrArg (lo :: hi :: ·) (Prod.mk.inj hpair).2, ?_⟩
      show 2 ≤ bufferSize T.bits
      omega
  · rw [heq] at h
    obtain ⟨r, hr, hpair⟩ := Option.map_eq_some_iff.1 h
    rw [← (Prod.mk.inj hpair).2]
    exact readUnsigned_used (eight_le_bits T) hr

theorem exists_read (hC : C ∈ codes T) (h : bufferSize T.bits ≤ bytes.length) :
    ∃ r, read T C bytes = some r := by
  have hfive := five_le_bufferSize T
  obtain heq | ⟨f, heq⟩ | ⟨f, heq⟩ | heq := read_cases hC bytes
  · exact ⟨_, heq⟩
  · match bytes, h with
    | [], h => exact absurd (hfive.trans h) (by decide)
    | b :: bytes, _ => exact ⟨_, heq⟩
  · match bytes, h with
    | [], h => exact absurd (hfive.trans h) (by decide)
    | [_], h => exact absurd (hfive.trans h) (by simp)
    | lo :: hi :: bytes, _ => exact ⟨_, heq⟩
  · obtain ⟨r, hr⟩ := exists_readUnsigned (eight_le_bits T) h
    rw [heq, hr]
    exact ⟨_, rfl⟩

end

/-- **Reading stays near the front, whatever is read**: a number takes its type code and at most as
many bytes as its groups, and behind a type code that many bytes are always enough. -/
theorem pop_bounded (bytes : List NByte) :
    (∀ n rest, Number.pop bytes = some (n, rest) →
      ∃ C used, bytes = C :: used ++ rest ∧ C ∈ codes n.type
        ∧ used.length ≤ bufferSize n.type.bits)
      ∧ ∀ C tail T, bytes = C :: tail → C ∈ codes T → bufferSize T.bits ≤ tail.length →
        ∃ n rest, Number.pop bytes = some (n, rest) ∧ n.type = T := by
  constructor
  · intro n rest h
    cases bytes with
    | nil => cases h
    | cons C bytes =>
      have hpop : Number.popCode C bytes = some (n, rest) := h
      unfold Number.popCode at hpop
      split at hpop
      · rename_i r hr
        obtain ⟨rfl, rfl⟩ := Prod.mk.inj (Option.some.inj hpop)
        obtain ⟨used, rfl, hlength⟩ := read_used hr
        exact ⟨C, used, rfl, mem_codes_of_read hr, hlength⟩
      · obtain ⟨r, hr, hpair⟩ := Option.map_eq_some_iff.1 hpop
        obtain ⟨rfl, rfl⟩ := Prod.mk.inj hpair
        obtain ⟨used, rfl, hlength⟩ := read_used hr
        exact ⟨C, used, rfl, mem_codes_of_read hr, hlength⟩
  · intro C tail T heq hC hlength
    obtain ⟨r, hr⟩ := exists_read hC hlength
    refine ⟨⟨T, r.1⟩, r.2, ?_, rfl⟩
    rw [heq]
    exact Number.popCode_of_read hC hr

/-! ## how large a number is -/

section
variable {T : IntegerType}

theorem zigzag_toInt {n : Nat} (value : BitVec (n + 1)) :
    ((encodeZigZag value).toNat : Int)
      = if 0 ≤ value.toInt then 2 * value.toInt else -2 * value.toInt - 1 := by
  have hlt : value.toNat < 2 ^ (n + 1) := value.isLt
  have hpow : 2 ^ (n + 2) = 4 * 2 ^ n := by ring
  have htoInt := BitVec.toInt_eq_toNat_cond value
  rw [Nat.pow_succ] at hlt htoInt
  rw [toNat_encodeZigZag, hpow]
  by_cases h : value.toNat < 2 ^ n
  · rw [if_pos (by omega)] at htoInt
    rw [if_pos h, if_pos (by omega)]
    omega
  · rw [if_neg (by omega)] at htoInt
    rw [if_neg h, if_neg (by omega)]
    omega

theorem zigzag_toInt_bits (value : BitVec T.bits) :
    ((encodeZigZag value).toNat : Int)
      = if 0 ≤ value.toInt then 2 * value.toInt else -2 * value.toInt - 1 := by
  cases T with
  | int => exact zigzag_toInt (n := 31) value
  | int64 => exact zigzag_toInt (n := 63) value

theorem size_le_iff (value : BitVec T.bits) (k : Nat) :
    getTypeSize T value false ≤ k + 1 ↔ -(64 * 128 ^ k) ≤ value.toInt ∧ value.toInt < 64 * 128 ^ k := by
  have hzigzag := zigzag_toInt_bits value
  have hpow : 128 ^ (k + 1) = 2 * (64 * 128 ^ k) := by ring
  have hlog : Nat.log 128 (encodeZigZag value).toNat < k + 1
      ↔ (encodeZigZag value).toNat < 128 ^ (k + 1) :=
    ⟨Nat.lt_pow_of_log_lt (by omega), fun h => Nat.log_lt_of_lt_pow' (Nat.succ_ne_zero k) h⟩
  rw [getTypeSize_false, Nat.succ_le_iff, hlog, hpow]
  have hcast : ((64 * 128 ^ k : Nat) : Int) = 64 * 128 ^ k := by push_cast; ring
  split at hzigzag <;> omega

/-- **How much room a number takes**: without a type code as many bytes as its distance from zero
needs, on either side, and with one at most a byte more. -/
theorem number_size (value : BitVec T.bits) :
    (∀ k, getTypeSize T value false ≤ k + 1
        ↔ -(64 * 128 ^ k) ≤ value.toInt ∧ value.toInt < 64 * 128 ^ k)
      ∧ getTypeSize T value true ≤ getTypeSize T value false + 1 := by
  refine ⟨size_le_iff value, ?_⟩
  have hsmall := size_le_iff value 0
  have hone : 1 ≤ getTypeSize T value false := by
    rw [getTypeSize_false]
    exact Nat.succ_le_succ (Nat.zero_le _)
  by_cases hzero : value = 0#T.bits
  · simp [getTypeSize, hzero]
  by_cases hbyte : -255 ≤ value.toInt ∧ value.toInt ≤ 255
  · have hsize : getTypeSize T value true = 2 := by simp [getTypeSize, hzero, hbyte]
    omega
  by_cases hshort : -65535 ≤ value.toInt ∧ value.toInt ≤ 65535
  · -- a number that no byte holds takes two groups
    have hsize : getTypeSize T value true = 3 := by simp [getTypeSize, hzero, hbyte, hshort]
    omega
  · have hsize : getTypeSize T value true = 1 + (Nat.log 128 (encodeZigZag value).toNat + 1) := by
      rw [← groupCount_zigzag]
      simp [getTypeSize, hzero, hbyte, hshort]
    rw [hsize, getTypeSize_false, Nat.add_comm]

end

end Protocol18

end Common
