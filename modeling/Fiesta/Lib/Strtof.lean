import Fiesta.Lib.Binary32
import Mathlib.Data.List.Basic

/-!
# Numerals in text

The C library's reading of a number at the start of a text (`strtof`, `std::stof`) and its
writing with six decimals (`%f`), over exact fractions.

* `scan`            blanks, a sign and the longest numeral, as an exact value;
* `scan_isSome`     what a text must start with to be read;
* `stof`            the rounded value, or the exception `std::stof` throws;
* `stof_ok_iff`     `stof` returns exactly on the numerals that are in range;
* `stof_stores`     and returns their value;
* `sixDecimals`     the `%f` rendering, and the characters it is made of.
-/

namespace Strtof

open Binary32

/-! ## reading digits -/

/-- `std::isspace` of the C locale -/
def isSpace (c : Char) : Bool := c = ' ' || ('\t' ≤ c && c ≤ '\r')

def digitVal (base : Nat) (c : Char) : Option Nat :=
  let v :=
    if c.isDigit then c.toNat - '0'.toNat
    else if 'a' ≤ c ∧ c ≤ 'f' then c.toNat - 'a'.toNat + 10
    else if 'A' ≤ c ∧ c ≤ 'F' then c.toNat - 'A'.toNat + 10
    else base
  if v < base then some v else none

def digits (base : Nat) : List Char → List Nat × List Char
  | [] => ([], [])
  | c :: cs =>
    match digitVal base c with
    | some d => (d :: (digits base cs).1, (digits base cs).2)
    | none => ([], c :: cs)

def value (base : Nat) (ds : List Nat) : Nat := ds.foldl (fun v d => v * base + d) 0

theorem digits_fst_eq_nil {base : Nat} {cs : List Char} :
    (digits base cs).1 = [] ↔ ∀ c ∈ cs.head?, digitVal base c = none := by
  cases cs with
  | nil => simp [digits]
  | cons c cs =>
    unfold digits
    cases h : digitVal base c <;> simp [h]

/-! ## reading a number -/

/-- The exponent part. A mark without digits after it is not part of the number. -/
def exponent (mark : Char) : List Char → Int
  | [] => 0
  | c :: cs =>
    if c.toLower = mark then
      match cs with
      | '-' :: ds => -(value 10 (digits 10 ds).1 : Int)
      | '+' :: ds => value 10 (digits 10 ds).1
      | ds => value 10 (digits 10 ds).1
    else 0

/-- The digits after the radix character, and what follows them. -/
def fraction (base : Nat) : List Char → List Nat × List Char
  | '.' :: cs => digits base cs
  | cs => ([], cs)

/-- Numerator and denominator of the number at the start of the text. -/
def mantissa (base expBase : Nat) (mark : Char) (cs : List Char) : Option (Nat × Nat) :=
  let int := digits base cs
  let frac := fraction base int.2
  if int.1 = [] ∧ frac.1 = [] then none
  else
    let e := exponent mark frac.2
    some (value base (int.1 ++ frac.1) * expBase ^ e.toNat,
      base ^ frac.1.length * expBase ^ (-e).toNat)

/-- A decimal or a hexadecimal number. A bare `0x` reads as the zero before the letter. -/
def magnitude : List Char → Option (Nat × Nat)
  | '0' :: x :: cs =>
    if x.toLower = 'x' then some ((mantissa 16 2 'p' cs).getD (0, 1))
    else mantissa 10 10 'e' ('0' :: x :: cs)
  | cs => mantissa 10 10 'e' cs

inductive Numeral where
  | number (neg : Bool) (num den : Nat)
  | infinity (neg : Bool)
  | nan (neg : Bool)
deriving DecidableEq

/-- The text starts with the word, in any case. -/
def startsWith (word cs : List Char) : Bool := (cs.take word.length).map Char.toLower = word

def numeral (neg : Bool) (cs : List Char) : Option Numeral :=
  if startsWith ['i', 'n', 'f'] cs then some (.infinity neg)
  else if startsWith ['n', 'a', 'n'] cs then some (.nan neg)
  else (magnitude cs).map fun m => .number neg m.1 m.2

def sign : List Char → Bool × List Char
  | '-' :: cs => (true, cs)
  | '+' :: cs => (false, cs)
  | cs => (false, cs)

/-- The text after blanks and a sign. -/
def body (cs : List Char) : List Char := (sign (cs.dropWhile isSpace)).2

def scan (cs : List Char) : Option Numeral := numeral (sign (cs.dropWhile isSpace)).1 (body cs)

/-! ## what is read as a number -/

def startsDigit (cs : List Char) : Bool := cs.head?.any Char.isDigit

/-- The first characters that make a text a numeral, after blanks and a sign. -/
def opensNumeral (cs : List Char) : Bool :=
  startsWith ['i', 'n', 'f'] cs || startsWith ['n', 'a', 'n'] cs
    || startsDigit cs || (cs.head? = some '.' && startsDigit cs.tail)

theorem digitVal_ten (c : Char) : digitVal 10 c = none ↔ c.isDigit = false := by
  unfold digitVal
  have e0 : '0'.toNat = 48 := rfl
  have e9 : '9'.toNat = 57 := rfl
  by_cases h : c.isDigit = true
  · have hle : '0' ≤ c ∧ c ≤ '9' := by
      unfold Char.isDigit at h
      rw [Bool.and_eq_true, decide_eq_true_iff, decide_eq_true_iff] at h
      exact h
    have h9 : c.toNat ≤ '9'.toNat := hle.2
    have hval : c.toNat - '0'.toNat < 10 := by omega
    simp only [h, if_true, if_pos hval]
    exact iff_of_false (by simp) (by simp)
  · have hf : c.isDigit = false := by
      rw [Bool.not_eq_true] at h
      exact h
    simp only [hf, Bool.false_eq_true, if_false, iff_true]
    split
    · rw [if_neg (by omega)]
    · split
      · rw [if_neg (by omega)]
      · rw [if_neg (by omega)]

theorem startsDigit_iff (cs : List Char) : startsDigit cs = true ↔ (digits 10 cs).1 ≠ [] := by
  rw [ne_eq, digits_fst_eq_nil]
  cases cs with
  | nil => simp [startsDigit]
  | cons c cs => simp [startsDigit, digitVal_ten]

theorem mantissa_isSome (cs : List Char) :
    (mantissa 10 10 'e' cs).isSome
      = (startsDigit cs || (cs.head? = some '.' && startsDigit cs.tail)) := by
  have hcond : (mantissa 10 10 'e' cs).isSome
      = !decide ((digits 10 cs).1 = [] ∧ (fraction 10 (digits 10 cs).2).1 = []) := by
    unfold mantissa
    by_cases h : (digits 10 cs).1 = [] ∧ (fraction 10 (digits 10 cs).2).1 = []
    · simp [h]
    · simp [h]
  rw [hcond]
  by_cases hint : (digits 10 cs).1 = []
  · have hstart : startsDigit cs = false := by
      rw [Bool.eq_false_iff, ne_eq, startsDigit_iff]
      exact fun h => h hint
    have hrest : (digits 10 cs).2 = cs := by
      cases cs with
      | nil => rfl
      | cons c cs =>
        have hc : digitVal 10 c = none := digits_fst_eq_nil.1 hint c (by simp)
        simp [digits, hc]
    rw [hint, hrest, hstart]
    cases cs with
    | nil => rfl
    | cons c cs =>
      by_cases hdot : c = '.'
      · subst hdot
        have hfrac : fraction 10 ('.' :: cs) = digits 10 cs := rfl
        rw [hfrac]
        by_cases hd : (digits 10 cs).1 = []
        · have : startsDigit cs = false := by
            rw [Bool.eq_false_iff, ne_eq, startsDigit_iff]
            exact fun h => h hd
          simp [hd, this]
        · have : startsDigit cs = true := (startsDigit_iff cs).2 hd
          simp [hd, this]
      · have hfrac : fraction 10 (c :: cs) = ([], c :: cs) := by
          unfold fraction
          split
          · rename_i h
            exact absurd (List.cons.inj h).1 hdot
          · rfl
        rw [hfrac]
        simp [hdot]
  · have hstart : startsDigit cs = true := (startsDigit_iff cs).2 hint
    simp [hint, hstart]

theorem magnitude_isSome (cs : List Char) :
    (magnitude cs).isSome = (startsDigit cs || (cs.head? = some '.' && startsDigit cs.tail)) := by
  unfold magnitude
  split
  · split
    · rename_i x cs h
      have hd : startsDigit ('0' :: x :: cs) = true := rfl
      rw [hd]
      rfl
    · exact mantissa_isSome _
  · exact mantissa_isSome _

/-- **A text is read as a number exactly when one opens after its blanks and sign.** -/
theorem scan_isSome (cs : List Char) : (scan cs).isSome = opensNumeral (body cs) := by
  unfold scan numeral opensNumeral
  cases hi : startsWith ['i', 'n', 'f'] (body cs)
  · cases hn : startsWith ['n', 'a', 'n'] (body cs)
    · simp only [Bool.false_eq_true, if_false, Option.isSome_map, magnitude_isSome,
        Bool.false_or]
    · rfl
  · rfl

theorem mantissa_den_pos {base expBase : Nat} (hb : 0 < base) (he : 0 < expBase) {mark : Char}
    {cs : List Char} {m : Nat × Nat} (h : mantissa base expBase mark cs = some m) : 0 < m.2 := by
  unfold mantissa at h
  simp only at h
  split at h
  · cases h
  · cases h
    exact Nat.mul_pos (Nat.pow_pos hb) (Nat.pow_pos he)

theorem magnitude_den_pos {cs : List Char} {m : Nat × Nat} (h : magnitude cs = some m) :
    0 < m.2 := by
  unfold magnitude at h
  split at h
  · split at h
    · rename_i x cs _
      cases hm : mantissa 16 2 'p' cs with
      | none =>
        rw [hm] at h
        cases h
        decide
      | some m' =>
        rw [hm] at h
        cases h
        exact mantissa_den_pos (by decide) (by decide) hm
    · exact mantissa_den_pos (by decide) (by decide) h
  · exact mantissa_den_pos (by decide) (by decide) h

theorem scan_den_pos {cs : List Char} {neg : Bool} {n d : Nat}
    (h : scan cs = some (.number neg n d)) : 0 < d := by
  unfold scan numeral at h
  split at h
  · cases h
  · split at h
    · cases h
    · cases hm : magnitude (body cs) with
      | none =>
        rw [hm] at h
        cases h
      | some m =>
        rw [hm] at h
        cases h
        exact magnitude_den_pos hm

/-! ## the conversion -/

inductive Thrown where
  | invalidArgument
  | outOfRange
deriving DecidableEq

section
variable (erange : Nat → Nat → Bool)

/-- `std::stof`. Whether a value below the normal range sets `errno` to `ERANGE` is the
library's own choice: it is the parameter `erange`, asked for no other value. -/
def stof (cs : List Char) : Except Thrown Single :=
  match scan cs with
  | none => .error .invalidArgument
  | some (.infinity neg) => .ok (.infinity neg)
  | some (.nan neg) => .ok (.nan neg)
  | some (.number neg n d) =>
    match round neg n d with
    | none => .error .outOfRange
    | some x =>
      if Subnormal n d ∧ erange n d then .error .outOfRange else .ok (.finite x)

/-- The numerals `stof` has a value for. -/
def InRange : Numeral → Prop
  | .number _ n d => n < overflow * d ∧ ¬ (Subnormal n d ∧ erange n d)
  | .infinity _ => True
  | .nan _ => True

instance : DecidablePred (InRange erange) := fun v =>
  match v with
  | .number _ n d =>
    inferInstanceAs (Decidable (n < overflow * d ∧ ¬ (Subnormal n d ∧ erange n d)))
  | .infinity _ => isTrue trivial
  | .nan _ => isTrue trivial

/-- The text starts with a numeral, and its value is in range. -/
def Convertible (cs : List Char) : Prop :=
  opensNumeral (body cs) = true ∧ ∀ v, scan cs = some v → InRange erange v

instance : DecidablePred (Convertible erange) := fun cs =>
  inferInstanceAs (Decidable (opensNumeral (body cs) = true ∧ ∀ v ∈ scan cs, InRange erange v))

/-- **`std::stof` returns exactly on the texts that start with a numeral in range.** -/
theorem stof_ok_iff (cs : List Char) :
    (∃ x, stof erange cs = .ok x) ↔ Convertible erange cs := by
  unfold Convertible
  rw [← scan_isSome]
  cases hs : scan cs with
  | none => simp [stof, hs]
  | some v =>
    have hone : ((some v).isSome = true ∧ ∀ w, some v = some w → InRange erange w)
        ↔ InRange erange v := by simp
    rw [hone]
    cases v with
    | infinity neg => simp [stof, hs, InRange]
    | nan neg => simp [stof, hs, InRange]
    | number neg n d =>
      have hd : 0 < d := scan_den_pos hs
      have hover := round_eq_none_iff neg (n := n) hd
      cases hr : round neg n d with
      | none =>
        have hle : overflow * d ≤ n := hover.1 hr
        refine iff_of_false ?_ (fun h => ?_)
        · rintro ⟨x, hx⟩
          simp [stof, hs, hr] at hx
        · exact absurd h.1 (Nat.not_lt.2 hle)
      | some x =>
        have hlt : n < overflow * d := by
          by_contra hge
          have hnone := hover.2 (Nat.not_lt.1 hge)
          rw [hr] at hnone
          cases hnone
        by_cases hu : Subnormal n d ∧ erange n d
        · simp only [stof, hs, hr, if_pos hu, InRange]
          refine iff_of_false ?_ (fun h => h.2 hu)
          rintro ⟨y, hy⟩
          cases hy
        · simp only [stof, hs, hr, if_neg hu, InRange]
          exact iff_of_true ⟨_, rfl⟩ ⟨hlt, hu⟩

/-! ## the value returned -/

def Numeral.isNumber : Numeral → Bool
  | .number _ _ _ => true
  | _ => false

/-- The datum that a numeral is converted to. -/
def Stores : Numeral → Single → Prop
  | .number neg n d, .finite x => round neg n d = some x
  | .infinity neg, .infinity neg' => neg = neg'
  | .nan neg, .nan neg' => neg = neg'
  | _, _ => False

theorem Stores.isFinite {v : Numeral} {s : Single} (h : Stores v s) :
    s.isFinite = v.isNumber := by
  cases v <;> cases s <;> first | rfl | exact absurd h id

theorem stof_stores {cs : List Char} {s : Single} (h : stof erange cs = .ok s) :
    ∃ v, scan cs = some v ∧ Stores v s := by
  unfold stof at h
  split at h
  · cases h
  · rename_i neg hscan
    cases h
    exact ⟨_, hscan, rfl⟩
  · rename_i neg hscan
    cases h
    exact ⟨_, hscan, rfl⟩
  · rename_i neg n d hscan
    split at h
    · cases h
    · rename_i x hround
      split at h
      · cases h
      · cases h
        exact ⟨_, hscan, hround⟩

/-- The text spells an infinity or a nan. -/
def spellsSpecial (cs : List Char) : Bool :=
  startsWith ['i', 'n', 'f'] (body cs) || startsWith ['n', 'a', 'n'] (body cs)

theorem scan_isNumber {cs : List Char} {v : Numeral} (h : scan cs = some v) :
    v.isNumber = !spellsSpecial cs := by
  unfold scan numeral at h
  unfold spellsSpecial
  split at h
  · rename_i hinf
    cases h
    rw [hinf]
    rfl
  · rename_i hinf
    split at h
    · rename_i hnan
      cases h
      rw [hnan, Bool.or_true]
      rfl
    · rename_i hnan
      obtain ⟨m, _, rfl⟩ := Option.map_eq_some_iff.1 h
      rw [Bool.not_eq_true] at hinf hnan
      rw [hinf, hnan]
      rfl

end

/-! ## writing a number -/

/-- The six digits of a number below a million. -/
def sixDigits (n : Nat) : List Char :=
  [100000, 10000, 1000, 100, 10, 1].map fun p => Nat.digitChar (n / p % 10)

def signText (neg : Bool) : List Char := if neg then ['-'] else []

/-- The `%f` rendering: the exact value to six decimals, ties to even. -/
def sixDecimals : Single → List Char
  | .finite x =>
    let k := roundHalfEven (10 ^ 6 * 2 ^ x.exp * x.mant) (2 ^ 149)
    signText x.neg ++ Nat.toDigits 10 (k / 10 ^ 6) ++ '.' :: sixDigits (k % 10 ^ 6)
  | .infinity neg => signText neg ++ ['i', 'n', 'f']
  | .nan neg => signText neg ++ ['n', 'a', 'n']

/-- The characters a rendering is made of. -/
def isPlain (c : Char) : Bool :=
  c.isDigit || c == '-' || c == '.' || c == 'i' || c == 'n' || c == 'f' || c == 'a'

theorem digitChar_plain {n : Nat} (h : n < 10) : isPlain (Nat.digitChar n) = true := by
  have hall : ∀ n < 10, isPlain (Nat.digitChar n) = true := by decide
  exact hall n h

theorem toDigits_plain (n : Nat) : ∀ c ∈ Nat.toDigits 10 n, isPlain c = true := by
  intro c hc
  have hd : c.isDigit = true := Nat.isDigit_of_mem_toDigits (by decide) (by decide) hc
  simp only [isPlain, hd, Bool.true_or]

theorem sixDigits_plain (n : Nat) : ∀ c ∈ sixDigits n, isPlain c = true := by
  intro c hc
  obtain ⟨p, _, rfl⟩ := List.mem_map.1 hc
  exact digitChar_plain (Nat.mod_lt _ (by decide))

theorem signText_plain (neg : Bool) : ∀ c ∈ signText neg, isPlain c = true := by
  have hall : (signText neg).all isPlain = true := by cases neg <;> decide
  exact List.all_eq_true.1 hall

theorem sixDecimals_plain (x : Single) : ∀ c ∈ sixDecimals x, isPlain c = true := by
  cases x with
  | finite x =>
    intro c hc
    simp only [sixDecimals, List.mem_append, List.mem_cons] at hc
    rcases hc with (hc | hc) | rfl | hc
    · exact signText_plain _ c hc
    · exact toDigits_plain _ c hc
    · decide
    · exact sixDigits_plain _ c hc
  | infinity neg =>
    have hall : (sixDecimals (.infinity neg)).all isPlain = true := by cases neg <;> decide
    exact List.all_eq_true.1 hall
  | nan neg =>
    have hall : (sixDecimals (.nan neg)).all isPlain = true := by cases neg <;> decide
    exact List.all_eq_true.1 hall

theorem notMem_sixDecimals {c : Char} (h : isPlain c = false) (x : Single) :
    c ∉ sixDecimals x := by
  intro hc
  rw [sixDecimals_plain x c hc] at h
  cases h

example : (stof (fun _ _ => false) [' ', '+', '0', 'x', '1', '.', '8', 'p', '1', ';']).toOption
    = some (Single.ofNat 3) := by decide +kernel

end Strtof
