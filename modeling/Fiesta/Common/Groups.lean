import Fiesta.Client.Photon
import Fiesta.Lib.Varint
import Mathlib.Data.Nat.Bitwise

/-!
# Compressed integers

The serialization protocol 1.8 writes integers in groups of seven bits, signed ones after a zigzag
that makes small negative numbers small.

* `encodeZigZag`, `decodeZigZag`    the zigzag, which gives every number back;
* `writeUnsigned`, `readUnsigned`   the groups;
* `toNat_writeGroups`, `toNat_readGroups`   they are the symbols of `Varint`;
* `read_writeUnsigned`              **unsigned numbers are read back**, whatever comes behind them.
-/

namespace Common

open Photon (NByte)

namespace Protocol18

/-! ## zigzag -/

section
variable {w : Nat}

def encodeZigZag (value : BitVec w) : BitVec w := (value <<< 1) ^^^ value.sshiftRight (w - 1)

def decodeZigZag (value : BitVec w) : BitVec w := (value >>> 1) ^^^ -(value &&& 1#w)

/-! ## groups of seven bits -/

/-- `sizeof(T)*CHAR_BIT/(CHAR_BIT-1)+(sizeof(T)*CHAR_BIT%(CHAR_BIT-1)?1:0)` -/
def bufferSize (w : Nat) : Nat := w / 7 + if w % 7 ≠ 0 then 1 else 0

/-- The loop of `write`, with what is left of its buffer: `none` if it writes past the end. -/
def writeGroups : Nat → BitVec w → Option (List NByte)
  | 0, _ => none
  | room + 1, data =>
    let group : NByte := .ofBitVec ((data &&& 0x7F#w).setWidth 8)
    let data := data >>> 7
    if data ≠ 0#w then (writeGroups room data).map ((group ||| 0x80) :: ·) else some [group]

/-- `write(T data)` for the unsigned types -/
def writeUnsigned (data : BitVec w) : Option (List NByte) := writeGroups (bufferSize w) data

/-- The loop of `read`, with how often it may go on: `none` if it reads past the end of the data. -/
def readGroups : Nat → Nat → BitVec w → List NByte → Option (BitVec w × List NByte)
  | 0, _, value, bytes => some (value, bytes)
  | _ + 1, _, _, [] => none
  | left + 1, shift, value, b :: bytes =>
    let value := value ||| ((b &&& 0x7F).toBitVec.setWidth w <<< shift)
    if b &&& 0x80 = 0 then some (value, bytes) else readGroups left (shift + 7) value bytes

/-- `read<C>` for `COMPRESSED_UINT` and `COMPRESSED_ULONG` -/
def readUnsigned (w : Nat) (bytes : List NByte) : Option (BitVec w × List NByte) :=
  readGroups (bufferSize w) 0 0#w bytes

/-- `size` after the loop of `getTypeSize`, which takes as many rounds as there are bits at most. -/
def groupCount : Nat → BitVec w → Nat
  | 0, _ => 1
  | rounds + 1, zigVal => if zigVal >>> 7 ≠ 0#w then groupCount rounds (zigVal >>> 7) + 1 else 1

end

/-! ## the zigzag gives back -/

section
variable {n : Nat}

/-- The sign bit, spread over all bits. -/
theorem sshiftRight_sign (value : BitVec (n + 1)) :
    value.sshiftRight (n + 1 - 1) = if value.toNat < 2 ^ n then 0#(n + 1) else BitVec.allOnes (n + 1) := by
  have hsmall (x : BitVec (n + 1)) (h : x.toNat < 2 ^ n) : x >>> n = 0#(n + 1) := by
    apply BitVec.eq_of_toNat_eq
    rw [BitVec.toNat_ushiftRight, Nat.shiftRight_eq_div_pow, Nat.div_eq_of_lt h]
    rfl
  have hmsb : value.msb = decide (2 ^ n ≤ value.toNat) := value.msb_eq_decide
  by_cases h : value.toNat < 2 ^ n
  · rw [if_pos h, BitVec.sshiftRight_eq_of_msb_false (by rw [hmsb]; exact decide_eq_false (by omega))]
    exact hsmall value h
  · have hnot : (~~~value).toNat < 2 ^ n := by
      rw [BitVec.toNat_not, Nat.pow_succ]
      omega
    rw [if_neg h, BitVec.sshiftRight_eq_of_msb_true (by rw [hmsb]; exact decide_eq_true (by omega))]
    show ~~~(~~~value >>> n) = _
    rw [hsmall _ hnot, BitVec.not_zero]

theorem toNat_encodeZigZag (value : BitVec (n + 1)) :
    (encodeZigZag value).toNat
      = if value.toNat < 2 ^ n then 2 * value.toNat else 2 ^ (n + 2) - 1 - 2 * value.toNat := by
  have hlt : value.toNat < 2 ^ (n + 1) := value.isLt
  have hshift : (value <<< 1).toNat = 2 * value.toNat % 2 ^ (n + 1) := by
    rw [BitVec.toNat_shiftLeft, Nat.shiftLeft_eq, pow_one, Nat.mul_comm]
  have hpow : 2 ^ (n + 2) = 4 * 2 ^ n := by ring
  rw [Nat.pow_succ] at hlt hshift
  unfold encodeZigZag
  rw [sshiftRight_sign]
  by_cases h : value.toNat < 2 ^ n
  · rw [if_pos h, if_pos h, BitVec.xor_zero, hshift, Nat.mod_eq_of_lt (by omega)]
  · have hover : 2 * value.toNat % (2 ^ n * 2) = 2 * value.toNat - 2 ^ n * 2 := by
      rw [Nat.mod_eq_sub_mod (by omega), Nat.mod_eq_of_lt (by omega)]
    rw [if_neg h, if_neg h, BitVec.xor_allOnes, BitVec.toNat_not, hshift, hover, Nat.pow_succ, hpow]
    omega

theorem toNat_decodeZigZag (value : BitVec (n + 1)) :
    (decodeZigZag value).toNat
      = if value.toNat % 2 = 0 then value.toNat / 2 else 2 ^ (n + 1) - 1 - value.toNat / 2 := by
  have hhalf : (value >>> 1).toNat = value.toNat / 2 := by
    rw [BitVec.toNat_ushiftRight, Nat.shiftRight_eq_div_pow, pow_one]
  have hlow : (value &&& 1#(n + 1)).toNat = value.toNat % 2 := by
    rw [BitVec.toNat_and, BitVec.toNat_ofNat,
      Nat.mod_eq_of_lt (Nat.one_lt_two_pow (Nat.succ_ne_zero n)), Nat.and_one_is_mod]
  unfold decodeZigZag
  by_cases h : value.toNat % 2 = 0
  · have hzero : value &&& 1#(n + 1) = 0#(n + 1) := BitVec.eq_of_toNat_eq (hlow.trans h)
    rw [if_pos h, hzero, BitVec.neg_zero, BitVec.xor_zero, hhalf]
  · have hone : value &&& 1#(n + 1) = 1#(n + 1) := by
      apply BitVec.eq_of_toNat_eq
      rw [hlow, BitVec.toNat_ofNat, Nat.mod_eq_of_lt (Nat.one_lt_two_pow (Nat.succ_ne_zero n))]
      omega
    rw [if_neg h, hone, BitVec.neg_one_eq_allOnes, BitVec.xor_allOnes, BitVec.toNat_not, hhalf]

/-- **The zigzag gives every number back.** -/
theorem decode_encodeZigZag (value : BitVec (n + 1)) : decodeZigZag (encodeZigZag value) = value := by
  have hlt : value.toNat < 2 ^ (n + 1) := value.isLt
  have hpow : 2 ^ (n + 2) = 4 * 2 ^ n := by ring
  rw [Nat.pow_succ] at hlt
  apply BitVec.eq_of_toNat_eq
  rw [toNat_decodeZigZag, toNat_encodeZigZag, hpow, Nat.pow_succ]
  split
  · split <;> omega
  · split <;> omega

end

/-! ## the groups are those of `Varint` -/

section
variable {w : Nat}

theorem and_mark : ∀ n < 256, (n &&& 128 = 0 ↔ n < 128) := by decide +kernel

theorem or_mark {n : Nat} (h : n < 128) : n ||| 128 = n + 128 := by
  have hor := Nat.two_pow_add_eq_or_of_lt (i := 7) h 1
  rw [Nat.or_comm]
  exact hor.symm.trans (Nat.add_comm 128 n)

theorem unmarked_iff (b : NByte) : b &&& 0x80 = 0 ↔ b.toNat < 128 := by
  rw [← and_mark b.toNat b.toNat_lt, ← UInt8.toNat_inj, UInt8.toNat_and]
  rfl

theorem toNat_group (hw : 8 ≤ w) (data : BitVec w) :
    (UInt8.ofBitVec ((data &&& 0x7F#w).setWidth 8)).toNat = data.toNat % 128 := by
  have hpow : 2 ^ 8 ≤ 2 ^ w := Nat.pow_le_pow_right (by omega) hw
  have hmask : 127 % 2 ^ w = 127 := Nat.mod_eq_of_lt (by omega)
  have hmod : data.toNat &&& 127 = data.toNat % 128 := Nat.and_two_pow_sub_one_eq_mod data.toNat 7
  show ((data &&& 0x7F#w).setWidth 8).toNat = _
  rw [BitVec.toNat_setWidth, BitVec.toNat_and, BitVec.toNat_ofNat, hmask, hmod]
  exact Nat.mod_eq_of_lt (by omega)

theorem toNat_writeGroups (hw : 8 ≤ w) (room : Nat) (data : BitVec w) :
    (writeGroups room data).map (List.map UInt8.toNat) = Varint.encode 128 room data.toNat := by
  induction room generalizing data with
  | zero => rfl
  | succ room ih =>
    have hshift : (data >>> 7).toNat = data.toNat / 128 := by
      rw [BitVec.toNat_ushiftRight, Nat.shiftRight_eq_div_pow]
    have hzero : data >>> 7 = 0#w ↔ data.toNat / 128 = 0 := by
      rw [← hshift, ← BitVec.toNat_inj, BitVec.toNat_ofNat, Nat.zero_mod]
    unfold writeGroups
    simp only
    by_cases h : data.toNat / 128 = 0
    · rw [if_neg (not_not_intro (hzero.2 h)), Varint.encode_last h, Option.map_some, List.map_singleton,
        toNat_group hw]
    · have hmark : (UInt8.ofBitVec ((data &&& 0x7F#w).setWidth 8) ||| 0x80).toNat
          = data.toNat % 128 + 128 := by
        rw [UInt8.toNat_or, toNat_group hw]
        exact or_mark (Nat.mod_lt _ (by omega))
      rw [if_pos (fun h' => h (hzero.1 h')), Varint.encode_more h, ← hshift, ← ih, Option.map_map,
        Option.map_map]
      refine Option.map_congr fun l _ => ?_
      exact congrArg (· :: l.map UInt8.toNat) hmark

theorem toNat_readGroups (hw : 8 ≤ w) (left shift : Nat) {value : BitVec w} {v : Nat}
    (hv : v < 2 ^ shift) (hvalue : value.toNat = v % 2 ^ w) (bytes : List NByte) :
    (readGroups left shift value bytes).map (fun r => (r.1.toNat, r.2.map UInt8.toNat))
      = (Varint.decode 128 left (2 ^ shift) v (bytes.map UInt8.toNat)).map
          fun r => (r.1 % 2 ^ w, r.2) := by
  induction left generalizing shift value v bytes with
  | zero => exact congrArg (fun n => some (n, bytes.map UInt8.toNat)) hvalue
  | succ left ih =>
    cases bytes with
    | nil => rfl
    | cons b bytes =>
      have hpow : 2 ^ 8 ≤ 2 ^ w := Nat.pow_le_pow_right (by omega) hw
      have hgroup : ((b &&& 0x7F).toBitVec.setWidth w).toNat = b.toNat % 128 := by
        have hmod : b.toNat &&& 127 = b.toNat % 128 := Nat.and_two_pow_sub_one_eq_mod b.toNat 7
        rw [BitVec.toNat_setWidth]
        show (b &&& 0x7F).toNat % 2 ^ w = _
        rw [UInt8.toNat_and]
        show (b.toNat &&& 127) % 2 ^ w = _
        rw [hmod, Nat.mod_eq_of_lt (by omega)]
      have hnext : (value ||| ((b &&& 0x7F).toBitVec.setWidth w <<< shift)).toNat
          = (v + b.toNat % 128 * 2 ^ shift) % 2 ^ w := by
        rw [BitVec.toNat_or, BitVec.toNat_shiftLeft, hgroup, Nat.shiftLeft_eq, hvalue,
          ← Nat.or_mod_two_pow, Nat.or_comm, Nat.mul_comm (b.toNat % 128),
          ← Nat.two_pow_add_eq_or_of_lt hv, Nat.add_comm]
      unfold readGroups
      rw [List.map_cons, Varint.decode]
      simp only
      by_cases hmark : b.toNat < 128
      · rw [if_pos ((unmarked_iff b).2 hmark), if_pos hmark, Option.map_some, Option.map_some, hnext]
      · have hlt : v + b.toNat % 128 * 2 ^ shift < 2 ^ (shift + 7) := by
          have hb : b.toNat % 128 ≤ 127 := by omega
          have hle : b.toNat % 128 * 2 ^ shift ≤ 127 * 2 ^ shift := Nat.mul_le_mul_right _ hb
          have hsplit : 2 ^ (shift + 7) = 128 * 2 ^ shift := by ring
          omega
        rw [if_neg (fun h => hmark ((unmarked_iff b).1 h)), if_neg hmark, ih (shift + 7) hlt hnext,
          Nat.pow_add]

theorem groupCount_eq (rounds : Nat) {zigVal : BitVec w} (h : zigVal.toNat < 2 ^ rounds) :
    groupCount rounds zigVal = Nat.log 128 zigVal.toNat + 1 := by
  induction rounds generalizing zigVal with
  | zero =>
    rw [pow_zero, Nat.lt_one_iff] at h
    rw [h, Nat.log_zero_right]
    rfl
  | succ rounds ih =>
    have hshift : (zigVal >>> 7).toNat = zigVal.toNat / 128 := by
      rw [BitVec.toNat_ushiftRight, Nat.shiftRight_eq_div_pow]
    have hzero : zigVal >>> 7 = 0#w ↔ zigVal.toNat / 128 = 0 := by
      rw [← hshift, ← BitVec.toNat_inj, BitVec.toNat_ofNat, Nat.zero_mod]
    unfold groupCount
    by_cases hsmall : zigVal.toNat / 128 = 0
    · have hlt : zigVal.toNat < 128 := (Nat.div_eq_zero_iff.1 hsmall).resolve_left (by omega)
      rw [if_neg (not_not_intro (hzero.2 hsmall)), Nat.log_of_lt hlt]
    · have hle : 128 ≤ zigVal.toNat := Nat.le_of_not_lt fun hlt => hsmall (Nat.div_eq_of_lt hlt)
      have hdiv : (zigVal >>> 7).toNat < 2 ^ rounds := by
        rw [hshift]
        rw [Nat.pow_succ] at h
        omega
      rw [if_pos (fun h' => hsmall (hzero.1 h')), ih hdiv, hshift,
        Nat.log_of_one_lt_of_le (by omega) hle]

/-- Reading the groups is reading the symbols, up to what does not fit. -/
theorem toNat_readUnsigned (hw : 8 ≤ w) (bytes : List NByte) :
    (readUnsigned w bytes).map (fun r => (r.1.toNat, r.2.map UInt8.toNat))
      = (Varint.decode 128 (bufferSize w) 1 0 (bytes.map UInt8.toNat)).map
          fun r => (r.1 % 2 ^ w, r.2) :=
  toNat_readGroups hw (bufferSize w) 0 Nat.zero_lt_one (BitVec.toNat_ofNat 0 w) bytes

/-- The groups of `w` bits hold every number of `w` bits. -/
theorem lt_pow_bufferSize (data : BitVec w) : data.toNat < 128 ^ bufferSize w := by
  have hle : w ≤ 7 * bufferSize w := by
    unfold bufferSize
    split <;> omega
  have hpow : 128 ^ bufferSize w = 2 ^ (7 * bufferSize w) := (pow_mul 2 7 (bufferSize w)).symm
  rw [hpow]
  exact lt_of_lt_of_le data.isLt (Nat.pow_le_pow_right (by omega) hle)

theorem bufferSize_ne_zero (hw : 8 ≤ w) : bufferSize w ≠ 0 := by
  unfold bufferSize
  omega

/-- **Unsigned numbers are read back**, also where a wider type has written them: the buffer of the
writer is long enough, and whatever comes behind the number is left. -/
theorem read_writeUnsigned {v : Nat} (hw : 8 ≤ w) (hv : w ≤ v) (data : BitVec w) :
    ∃ bytes, writeUnsigned (data.setWidth v) = some bytes
      ∧ bytes.length = Nat.log 128 data.toNat + 1
      ∧ ∀ rest, readUnsigned w (bytes ++ rest) = some (data, rest) := by
  have hwide : (data.setWidth v).toNat = data.toNat := BitVec.toNat_setWidth_of_le hv
  obtain ⟨l, hl⟩ := Varint.exists_encode (bufferSize_ne_zero (hw.trans hv))
    (lt_pow_bufferSize (data.setWidth v))
  obtain ⟨l', hl'⟩ := Varint.exists_encode (bufferSize_ne_zero hw) (lt_pow_bufferSize data)
  have hwrite := toNat_writeGroups (hw.trans hv) (bufferSize v) (data.setWidth v)
  rw [hl] at hwrite
  rw [hwide] at hl
  obtain rfl : l = l' := Varint.encode_unique hl hl'
  obtain ⟨bytes, hbytes, hmap⟩ := Option.map_eq_some_iff.1 hwrite
  refine ⟨bytes, hbytes, ?_, fun rest => ?_⟩
  · rw [← Varint.length_encode (by omega) hl, ← hmap, List.length_map]
  · have hread := toNat_readUnsigned hw (bytes ++ rest)
    rw [List.map_append, hmap, Varint.decode_encode (by omega) hl', Option.map_some] at hread
    obtain ⟨r, hr, heq⟩ := Option.map_eq_some_iff.1 hread
    obtain ⟨hvalue, hrest⟩ := Prod.mk.inj heq
    have hdata : r.1 = data := by
      apply BitVec.eq_of_toNat_eq
      rw [hvalue, Nat.mul_one, Nat.zero_add, Nat.mod_eq_of_lt data.isLt]
    have htail : r.2 = rest := 
      List.map_injective_iff.2 (fun _ _ h => UInt8.toNat_inj.1 h) hrest
    rw [hr, ← hdata, ← htail]

end

end Protocol18

end Common
