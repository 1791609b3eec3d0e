import Fiesta.Lib.Strtof
import Mathlib.Data.List.Induction

/-!
# Reading back what `%f` writes

* `value_left`       the value of the leading digits of a number;
* `scan_decimal`     a decimal text is read as its exact value;
* `rendering_eq`     the `%f` rendering of a finite number is one, of `millionths`;
* `scan_rendering`   a rendering, also without its last characters, is read as what is left of it;
* `length_rendering` how long a rendering is.
-/

namespace Strtof

open Binary32

/-! ## digit strings -/

def digitText (ds : List Nat) : List Char := ds.map Nat.digitChar

def IsDecimal (ds : List Nat) : Prop := ∀ d ∈ ds, d < 10

theorem value_snoc (base : Nat) (ds : List Nat) (d : Nat) :
    value base (ds ++ [d]) = value base ds * base + d := by
  unfold value
  rw [List.foldl_append]
  rfl

theorem value_append (base : Nat) (ds es : List Nat) :
    value base (ds ++ es) = value base ds * base ^ es.length + value base es := by
  induction es using List.reverseRecOn with
  | nil => simp [value]
  | append_singleton es e ih =>
    rw [← List.append_assoc, value_snoc, ih, value_snoc, List.length_append, List.length_singleton]
    ring

theorem value_lt {ds : List Nat} (h : IsDecimal ds) : value 10 ds < 10 ^ ds.length := by
  induction ds using List.reverseRecOn with
  | nil => simp [value]
  | append_singleton ds d ih =>
    have hd : d < 10 := h d (by simp)
    have hds := ih fun e he => h e (List.mem_append_left _ he)
    rw [value_snoc, List.length_append, List.length_singleton, Nat.pow_succ]
    omega

/-- The leading digits make the quotient. -/
theorem value_left {es : List Nat} (h : IsDecimal es) (ds : List Nat) :
    value 10 ds = value 10 (ds ++ es) / 10 ^ es.length := by
  rw [value_append, Nat.mul_comm, Nat.mul_add_div (Nat.pow_pos (by decide)),
    Nat.div_eq_of_lt (value_lt h), Nat.add_zero]

theorem value_take {ds : List Nat} (h : IsDecimal ds) (n : Nat) :
    value 10 (ds.take n) = value 10 ds / 10 ^ (ds.length - n) := by
  have hdrop : IsDecimal (ds.drop n) := fun d hd => h d (List.mem_of_mem_drop hd)
  have hleft := value_left hdrop (ds.take n)
  rwa [List.take_append_drop, List.length_drop] at hleft

theorem digitVal_digitChar {d : Nat} (h : d < 10) : digitVal 10 (Nat.digitChar d) = some d := by
  have hall : ∀ d < 10, digitVal 10 (Nat.digitChar d) = some d := by decide
  exact hall d h

theorem digits_text {ds : List Nat} (h : IsDecimal ds) (rest : List Char)
    (hrest : startsDigit rest = false) : digits 10 (digitText ds ++ rest) = (ds, rest) := by
  induction ds with
  | nil =>
    cases rest with
    | nil => rfl
    | cons c rest =>
      have hc : digitVal 10 c = none := (digitVal_ten c).2 hrest
      show digits 10 (c :: rest) = ([], c :: rest)
      simp only [digits, hc]
  | cons d ds ih =>
    have hd := digitVal_digitChar (h d List.mem_cons_self)
    have hds := ih fun e he => h e (List.mem_cons_of_mem _ he)
    show digits 10 (Nat.digitChar d :: (digitText ds ++ rest)) = _
    simp only [digits, hd, hds]

/-- `to_string` of a number, digit by digit. -/
theorem toDigits_text (n : Nat) :
    ∃ ds, IsDecimal ds ∧ ds ≠ [] ∧ Nat.toDigits 10 n = digitText ds ∧ value 10 ds = n := by
  induction n using Nat.strong_induction_on with
  | _ n ih =>
    rcases Nat.lt_or_ge n 10 with hlt | hge
    · refine ⟨[n], fun d hd => ?_, List.cons_ne_nil _ _, Nat.toDigits_of_lt_base hlt, ?_⟩
      · rwa [List.mem_singleton.1 hd]
      · simp [value]
    · obtain ⟨ds, hds, _, htext, hval⟩ := ih (n / 10) (by omega)
      refine ⟨ds ++ [n % 10], ?_, List.append_ne_nil_of_right_ne_nil _ (List.cons_ne_nil _ _),
        ?_, ?_⟩
      · intro d hd
        rcases List.mem_append.1 hd with hd | hd
        · exact hds d hd
        · rw [List.mem_singleton.1 hd]
          exact Nat.mod_lt _ (by decide)
      · rw [Nat.toDigits_of_base_le (by decide) hge, htext]
        rw [digitText, digitText, List.map_append]
        rfl
      · rw [value_snoc, hval]
        omega

theorem sixDigits_text {n : Nat} (h : n < 10 ^ 6) :
    ∃ fs, IsDecimal fs ∧ fs.length = 6 ∧ sixDigits n = digitText fs ∧ value 10 fs = n := by
  refine ⟨[100000, 10000, 1000, 100, 10, 1].map fun p => n / p % 10, ?_, rfl, ?_, ?_⟩
  · intro d hd
    obtain ⟨p, _, rfl⟩ := List.mem_map.1 hd
    exact Nat.mod_lt _ (by decide)
  · unfold sixDigits digitText
    rw [List.map_map]
    rfl
  · simp only [value, List.map_cons, List.map_nil, List.foldl_cons, List.foldl_nil]
    omega

/-! ## decimal texts -/

/-- A sign, digits and perhaps a point with more digits. -/
def decimalText (neg : Bool) (ds : List Nat) : Option (List Nat) → List Char
  | none => signText neg ++ digitText ds
  | some fs => signText neg ++ digitText ds ++ '.' :: digitText fs

theorem digitChar_not_x {d : Nat} (h : d < 10) : (Nat.digitChar d).toLower ≠ 'x' := by
  have hall : ∀ d < 10, (Nat.digitChar d).toLower ≠ 'x' := by decide
  exact hall d h

theorem mantissa_decimal {ds fs : List Nat} (hds : IsDecimal ds) (hne : ds ≠ [])
    (hfs : IsDecimal fs) :
    mantissa 10 10 'e' (digitText ds) = some (value 10 ds, 1)
      ∧ mantissa 10 10 'e' (digitText ds ++ '.' :: digitText fs)
        = some (value 10 (ds ++ fs), 10 ^ fs.length) := by
  refine ⟨?_, ?_⟩
  · have hint : digits 10 (digitText ds) = (ds, []) := by
      simpa using digits_text hds [] rfl
    unfold mantissa
    simp [hint, fraction, exponent, hne]
  · have hint := digits_text hds ('.' :: digitText fs) rfl
    have hfrac : digits 10 (digitText fs) = (fs, []) := by
      simpa using digits_text hfs [] rfl
    unfold mantissa
    simp [hint, fraction, hfrac, exponent, hne]

/-- A text whose second character is no letter is not hexadecimal. -/
theorem magnitude_eq (cs : List Char) (hx : ∀ c ∈ cs.tail.head?, c.toLower ≠ 'x') :
    magnitude cs = mantissa 10 10 'e' cs := by
  unfold magnitude
  split
  · rename_i x cs'
    rw [if_neg (hx x rfl)]
  · rfl

/-- What is read after the sign, when the text there begins with a digit. -/
theorem scan_signed (neg : Bool) {d : Nat} (hd : d < 10) (cs : List Char)
    (hx : ∀ c ∈ cs.head?, c.toLower ≠ 'x') :
    scan (signText neg ++ Nat.digitChar d :: cs)
      = (mantissa 10 10 'e' (Nat.digitChar d :: cs)).map fun m => .number neg m.1 m.2 := by
  have hplain : ∀ d < 10, isSpace (Nat.digitChar d) = false ∧ Nat.digitChar d ≠ '-'
      ∧ Nat.digitChar d ≠ '+' ∧ (Nat.digitChar d).toLower ≠ 'i'
      ∧ (Nat.digitChar d).toLower ≠ 'n' := by decide
  obtain ⟨hspace, hminus, hplus, hi, hn⟩ := hplain d hd
  have hsign : sign ((signText neg ++ Nat.digitChar d :: cs).dropWhile isSpace)
      = (neg, Nat.digitChar d :: cs) := by
    cases neg with
    | true => rfl
    | false =>
      show sign ((Nat.digitChar d :: cs).dropWhile isSpace) = _
      rw [List.dropWhile_cons_of_neg (by rw [hspace]; exact Bool.false_ne_true)]
      unfold sign
      split
      · rename_i heq
        exact absurd (List.cons.inj heq).1 hminus
      · rename_i heq
        exact absurd (List.cons.inj heq).1 hplus
      · rfl
  unfold scan body
  rw [hsign]
  unfold numeral
  have hinf : startsWith ['i', 'n', 'f'] (Nat.digitChar d :: cs) = false := by
    simp [startsWith, hi]
  have hnan : startsWith ['n', 'a', 'n'] (Nat.digitChar d :: cs) = false := by
    simp [startsWith, hn]
  simp only [hinf, hnan, Bool.false_eq_true, if_false]
  rw [magnitude_eq (Nat.digitChar d :: cs) hx]

/-- **A decimal text is read as its exact value.** -/
theorem scan_decimal (neg : Bool) {ds fs : List Nat} (hds : IsDecimal ds) (hne : ds ≠ [])
    (hfs : IsDecimal fs) :
    scan (decimalText neg ds none) = some (.number neg (value 10 ds) 1)
      ∧ scan (decimalText neg ds (some fs))
        = some (.number neg (value 10 (ds ++ fs)) (10 ^ fs.length)) := by
  obtain ⟨hint, hfrac⟩ := mantissa_decimal hds hne hfs
  obtain ⟨d, ds, rfl⟩ := List.exists_cons_of_ne_nil hne
  have hd : d < 10 := hds d List.mem_cons_self
  have hx : ∀ rest : List Char, (∀ c ∈ rest.head?, c.toLower ≠ 'x') →
      ∀ c ∈ (digitText ds ++ rest).head?, c.toLower ≠ 'x' := by
    intro rest hrest c hc
    cases ds with
    | nil => exact hrest c hc
    | cons e ds =>
      obtain rfl : Nat.digitChar e = c := Option.some.inj hc
      exact digitChar_not_x (hds e (by simp))
  refine ⟨?_, ?_⟩
  · have hscan := scan_signed neg hd (digitText ds ++ []) (hx [] (by simp))
    rw [List.append_nil] at hscan
    change mantissa 10 10 'e' (Nat.digitChar d :: digitText ds) = _ at hint
    rw [hint] at hscan
    exact hscan
  · have hscan := scan_signed neg hd (digitText ds ++ '.' :: digitText fs)
      (hx ('.' :: digitText fs) (by simp))
    change mantissa 10 10 'e' (Nat.digitChar d :: (digitText ds ++ '.' :: digitText fs)) = _
      at hfrac
    rw [hfrac] at hscan
    show scan (signText neg ++ digitText (d :: ds) ++ '.' :: digitText fs) = _
    rw [List.append_assoc]
    exact hscan

/-! ## renderings -/

/-- The value in millionths, ties to even. -/
def millionths (x : Finite) : Nat := roundHalfEven (10 ^ 6 * 2 ^ x.exp * x.mant) (2 ^ 149)

theorem rendering_eq (x : Finite) :
    ∃ ds fs, IsDecimal ds ∧ ds ≠ [] ∧ IsDecimal fs ∧ fs.length = 6
      ∧ digitText ds = Nat.toDigits 10 (millionths x / 10 ^ 6)
      ∧ sixDecimals (.finite x) = decimalText x.neg ds (some fs)
      ∧ value 10 (ds ++ fs) = millionths x := by
  obtain ⟨ds, hds, hne, hint, hvint⟩ := toDigits_text (millionths x / 10 ^ 6)
  obtain ⟨fs, hfs, hlen, hfrac, hvfrac⟩ :=
    sixDigits_text (n := millionths x % 10 ^ 6) (Nat.mod_lt _ (by decide))
  refine ⟨ds, fs, hds, hne, hfs, hlen, hint.symm, ?_, ?_⟩
  · show signText x.neg ++ Nat.toDigits 10 (millionths x / 10 ^ 6)
      ++ '.' :: sixDigits (millionths x % 10 ^ 6) = _
    rw [hint, hfrac]
    rfl
  · rw [value_append, hvint, hvfrac, hlen, Nat.mul_comm]
    exact Nat.div_add_mod _ _

/-- What is left of `k` millionths when the last `lost` characters of their rendering are: the
point counts as one of them. -/
def cutNumeral (neg : Bool) (k lost : Nat) : Numeral :=
  if lost ≤ 6 then .number neg (k / 10 ^ lost) (10 ^ (6 - lost))
  else .number neg (k / 10 ^ (lost - 1)) 1

theorem cutNumeral_zero (neg : Bool) (k : Nat) :
    cutNumeral neg k 0 = .number neg k (10 ^ 6) := by
  unfold cutNumeral
  rw [if_pos (Nat.zero_le _), Nat.pow_zero, Nat.div_one]

theorem length_signText (neg : Bool) : (signText neg).length ≤ 1 := by cases neg <;> decide

theorem take_decimal (neg : Bool) (ds fs : List Nat) {n : Nat}
    (hn : (signText neg).length ≤ n) :
    (decimalText neg ds (some fs)).take n
      = if n ≤ (signText neg).length + ds.length
        then decimalText neg (ds.take (n - (signText neg).length)) none
        else decimalText neg ds (some (fs.take (n - (signText neg).length - ds.length - 1))) := by
  have hmap : ∀ (l : List Nat) j, (digitText l).take j = digitText (l.take j) := fun l j =>
    List.map_take.symm
  have hlen : (digitText ds).length = ds.length := List.length_map _
  show (signText neg ++ digitText ds ++ '.' :: digitText fs).take n = _
  rw [List.append_assoc, List.take_append, List.take_of_length_le hn, List.take_append, hlen, hmap]
  split
  · rename_i h
    rw [show n - (signText neg).length - ds.length = 0 by omega, List.take_zero, List.append_nil]
    rfl
  · rename_i h
    obtain ⟨j, hj⟩ : ∃ j, n - (signText neg).length - ds.length = j + 1 :=
      ⟨n - (signText neg).length - ds.length - 1, by omega⟩
    rw [List.take_of_length_le (by omega), hj, List.take_succ_cons, hmap, ← List.append_assoc]
    rfl

/-- **A rendering that has lost characters at its end, but not all its digits, is read as what is
left of its digits.** -/
theorem scan_rendering (x : Finite) {n : Nat} (hn : 2 ≤ n) :
    scan ((sixDecimals (.finite x)).take n)
      = some (cutNumeral x.neg (millionths x) ((sixDecimals (.finite x)).length - n)) := by
  obtain ⟨ds, fs, hds, hne, hfs, hlen, _, htext, hval⟩ := rendering_eq x
  have hsign := length_signText x.neg
  have htotal : (decimalText x.neg ds (some fs)).length
      = (signText x.neg).length + ds.length + 7 := by
    simp [decimalText, digitText, hlen]
    omega
  have hall : IsDecimal (ds ++ fs) := fun d hd =>
    (List.mem_append.1 hd).elim (hds d) (hfs d)
  rw [htext, htotal, take_decimal x.neg ds fs (by omega)]
  generalize hs : (signText x.neg).length = s at *
  split
  · rename_i hint
    have hpos : ds.take (n - s) ≠ [] := by
      rw [ne_eq, List.take_eq_nil_iff]
      rintro (h | h)
      · omega
      · exact hne h
    have hlow : IsDecimal (ds.take (n - s)) := fun d hd => hds d (List.mem_of_mem_take hd)
    rw [(scan_decimal x.neg hlow hpos hfs).1]
    have htake := value_take hall (n - s)
    rw [List.take_append_of_le_length (by omega), hval, List.length_append, hlen] at htake
    rw [htake]
    unfold cutNumeral
    rw [if_neg (by omega),
      show s + ds.length + 7 - n - 1 = ds.length + 6 - (n - s) by omega]
  · rename_i hfrac
    have hlow : IsDecimal (fs.take (n - s - ds.length - 1)) := fun d hd =>
      hfs d (List.mem_of_mem_take hd)
    rw [(scan_decimal x.neg hds hne hlow).2]
    have htake := value_take hall (n - s - 1)
    rw [List.take_append, List.take_of_length_le (by omega), hval, List.length_append, hlen,
      show n - s - 1 - ds.length = n - s - ds.length - 1 by omega] at htake
    rw [htake, List.length_take, hlen]
    unfold cutNumeral
    rw [if_pos (by omega),
      show s + ds.length + 7 - n = ds.length + 6 - (n - s - 1) by omega,
      show min (n - s - ds.length - 1) 6 = 6 - (ds.length + 6 - (n - s - 1)) by omega]

/-! ## sizes -/

theorem roundHalfEven_le (n d : Nat) : roundHalfEven n d ≤ n / d + 1 := by
  unfold roundHalfEven
  split
  · exact Nat.le_succ _
  · split <;> omega

theorem roundHalfEven_mul (n : Nat) {d : Nat} (hd : 0 < d) : roundHalfEven (n * d) d = n := by
  unfold roundHalfEven
  rw [Nat.mul_mod_left, Nat.mul_div_cancel n hd, if_pos (by omega)]

/-- The millionths are exact from `2 ^ 23` on, and few below. -/
theorem millionths_cases (x : Finite) :
    (149 ≤ x.exp ∧ millionths x = 10 ^ 6 * (2 ^ (x.exp - 149) * x.mant))
      ∨ (x.exp < 149 ∧ millionths x ≤ 10 ^ 6 * 2 ^ 23) := by
  rcases Nat.lt_or_ge x.exp 149 with hlt | hge
  · refine Or.inr ⟨hlt, (roundHalfEven_le _ _).trans ?_⟩
    have hpow : 2 ^ x.exp ≤ 2 ^ 148 := Nat.pow_le_pow_right (by decide) (by omega)
    have hprod : 2 ^ x.exp * x.mant < 2 ^ 148 * 2 ^ 24 :=
      Nat.mul_lt_mul_of_le_of_lt hpow x.mant_lt (Nat.two_pow_pos _)
    rw [Nat.succ_le_iff, Nat.div_lt_iff_lt_mul (Nat.two_pow_pos _), Nat.mul_assoc]
    omega
  · refine Or.inl ⟨hge, ?_⟩
    have hsplit : 10 ^ 6 * 2 ^ x.exp * x.mant
        = 10 ^ 6 * (2 ^ (x.exp - 149) * x.mant) * 2 ^ 149 := by
      have hexp : 2 ^ x.exp = 2 ^ (x.exp - 149) * 2 ^ 149 := by
        rw [← Nat.pow_add, Nat.sub_add_cancel hge]
      rw [hexp]
      ring
    unfold millionths
    rw [hsplit, roundHalfEven_mul _ (Nat.two_pow_pos _)]

theorem millionths_lt (x : Finite) : millionths x < overflow * 10 ^ 6 := by
  rcases millionths_cases x with ⟨_, heq⟩ | ⟨_, hle⟩
  · have hpow : 2 ^ (x.exp - 149) ≤ 2 ^ 104 :=
      Nat.pow_le_pow_right (by decide) (by have := x.exp_le; omega)
    have hmant : x.mant ≤ 2 ^ 24 - 1 := Nat.le_pred_of_lt x.mant_lt
    have hprod := Nat.mul_le_mul hpow hmant
    rw [heq]
    unfold overflow
    omega
  · unfold overflow
    omega

/-- The number is below `10 ^ 23` in size. -/
def BelowLimit (x : Finite) : Prop := 2 ^ x.exp * x.mant < 10 ^ 23 * 2 ^ 149

theorem millionths_below {x : Finite} (h : BelowLimit x) : millionths x < 10 ^ 23 * 10 ^ 6 := by
  rcases millionths_cases x with ⟨hge, heq⟩ | ⟨_, hle⟩
  · have hexp : 2 ^ x.exp * x.mant = 2 ^ (x.exp - 149) * x.mant * 2 ^ 149 := by
      have hpow : 2 ^ x.exp = 2 ^ (x.exp - 149) * 2 ^ 149 := by
        rw [← Nat.pow_add, Nat.sub_add_cancel hge]
      rw [hpow]
      ring
    unfold BelowLimit at h
    rw [hexp] at h
    have hlt := Nat.lt_of_mul_lt_mul_right h
    rw [heq]
    omega
  · omega

theorem length_rendering (x : Finite) {n : Nat} (hn : 0 < n)
    (h : millionths x < 10 ^ n * 10 ^ 6) : (sixDecimals (.finite x)).length ≤ n + 8 := by
  have hint : (Nat.toDigits 10 (millionths x / 10 ^ 6)).length ≤ n := by
    rw [Nat.length_toDigits_le_iff (by decide) hn]
    exact (Nat.div_lt_iff_lt_mul (by decide)).2 h
  have hsign := length_signText x.neg
  show (signText x.neg ++ Nat.toDigits 10 (millionths x / 10 ^ 6)
    ++ '.' :: sixDigits (millionths x % 10 ^ 6)).length ≤ n + 8
  rw [List.length_append, List.length_append, List.length_cons,
    show (sixDigits (millionths x % 10 ^ 6)).length = 6 from rfl]
  omega

/-- A rendering has at most 47 characters. -/
theorem length_rendering_le (x : Finite) : (sixDecimals (.finite x)).length ≤ 47 := by
  refine length_rendering x (n := 39) (by decide) ((millionths_lt x).trans_le ?_)
  unfold overflow
  decide

/-! ## rounding what was read -/

theorem cutNumeral_le (neg : Bool) (k lost : Nat) :
    ∃ n d, cutNumeral neg k lost = .number neg n d ∧ 0 < d ∧ d ≤ 10 ^ 6
      ∧ n * 10 ^ 6 ≤ k * d := by
  unfold cutNumeral
  split
  · rename_i h
    refine ⟨_, _, rfl, Nat.pow_pos (by decide), Nat.pow_le_pow_right (by decide) (by omega), ?_⟩
    have hpow : 10 ^ 6 = 10 ^ lost * 10 ^ (6 - lost) := by
      rw [← Nat.pow_add, Nat.add_sub_cancel' h]
    rw [hpow, ← Nat.mul_assoc]
    exact Nat.mul_le_mul_right _ (Nat.div_mul_le_self k _)
  · rename_i h
    refine ⟨_, _, rfl, Nat.one_pos, by decide, ?_⟩
    rw [Nat.mul_one]
    have hpow : 10 ^ 6 ≤ 10 ^ (lost - 1) := Nat.pow_le_pow_right (by decide) (by omega)
    exact (Nat.mul_le_mul_left _ hpow).trans (Nat.div_mul_le_self k _)

/-- **What is left of a rendering is never out of range.** -/
theorem stof_cutNumeral (erange : Nat → Nat → Bool) (x : Finite) (lost : Nat) {cs : List Char}
    (h : scan cs = some (cutNumeral x.neg (millionths x) lost)) :
    ∃ n d r, cutNumeral x.neg (millionths x) lost = .number x.neg n d
      ∧ round x.neg n d = some r ∧ stof erange cs = .ok (.finite r) := by
  obtain ⟨n, d, heq, hd, hsmall, hle⟩ := cutNumeral_le x.neg (millionths x) lost
  have hover : ¬ overflow * d ≤ n := by
    intro hbig
    have hlt := Nat.mul_lt_mul_of_pos_right (millionths_lt x) hd
    have hmul := Nat.mul_le_mul_right (10 ^ 6) hbig
    rw [Nat.mul_right_comm] at hmul
    omega
  have hnormal : ¬ Subnormal n d := by
    rintro ⟨hpos, hlow⟩
    omega
  obtain ⟨r, hr⟩ : ∃ r, round x.neg n d = some r := by
    rw [← Option.ne_none_iff_exists']
    intro hnone
    exact hover ((round_eq_none_iff x.neg hd).1 hnone)
  refine ⟨n, d, r, heq, hr, ?_⟩
  rw [heq] at h
  have hcond : ¬ (Subnormal n d ∧ erange n d = true) := fun hc => hnormal hc.1
  simp only [stof, h, hr, if_neg hcond]

end Strtof
