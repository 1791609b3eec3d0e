import Fiesta.Client.Events
import Fiesta.Client.Frame
import Fiesta.Lib.Decimal

/-!
# The position codec

What `snprintf` leaves of a position in its 64 bytes, and what `storeDirection` reads there.

* `buf_split`                 the cut never reaches the comma;
* `dec`                       the two numerals of a text, before they are rounded;
* `scan_first`, `scan_kept`   the first is exact, the second is what is left of it;
* `codec_round_trip`          the round trip, with its limit.
-/

namespace Game

open Binary32 Strtof

/-! ## the text -/

def rendering (x : Finite) : List Char := sixDecimals (.finite x)

/-- The text of a finite position, as the receiver gets it. -/
def sent (x y : Finite) : List Char := cstr (buf ⟨.finite x, .finite y⟩)

/-- What is left of the second number. -/
def kept (x y : Finite) : List Char := (rendering y).take (62 - (rendering x).length)

/-- **The cut never reaches the first number or the comma.** -/
theorem buf_split (x y : Finite) : FirstComma (sent x y) (rendering x) (kept x y) := by
  have hlen : (rendering x).length ≤ 47 := length_rendering_le x
  refine ⟨?_, notMem_sixDecimals (by decide) _⟩
  show cstr (buf _) = _
  rw [cstr_buf]
  show (rendering x ++ ',' :: rendering y).take 63 = _
  rw [List.take_append, List.take_of_length_le (by omega),
    show 63 - (rendering x).length = 62 - (rendering x).length + 1 by omega, List.take_succ_cons]
  rfl

theorem kept_ne_nil (x y : Finite) : kept x y ≠ [] := by
  have hlen : (rendering x).length ≤ 47 := length_rendering_le x
  have hpos : rendering y ≠ [] := by
    intro h
    have hscan := scan_rendering y (n := 2) (by decide)
    unfold rendering at h
    rw [h] at hscan
    cases hscan
  unfold kept
  rw [ne_eq, List.take_eq_nil_iff, not_or]
  exact ⟨by omega, hpos⟩

/-! ## the numbers -/

/-- The numerals on the two sides of the first comma. -/
def dec (text : List Char) : Option (Numeral × Numeral) :=
  match text.idxOf? ',' with
  | none => none
  | some i =>
    match scan (text.take i), scan (text.drop (i + 1)) with
    | some u, some v => some (u, v)
    | _, _ => none

theorem dec_split {text a b : List Char} (h : FirstComma text a b) {u v : Numeral}
    (hu : scan a = some u) (hv : scan b = some v) : dec text = some (u, v) := by
  rcases find_comma text with ⟨_, hnot⟩ | ⟨i, hi, hfirst⟩
  · obtain ⟨rfl, _⟩ := h
    simp at hnot
  · obtain ⟨rfl, rfl⟩ := h.unique hfirst
    simp only [dec, hi, hu, hv]

theorem scan_first (x : Finite) :
    scan (rendering x) = some (.number x.neg (millionths x) (10 ^ 6)) := by
  have hlen : (rendering x).length ≤ 47 := length_rendering_le x
  have hscan := scan_rendering x (n := 47) (by decide)
  rw [show (sixDecimals (.finite x)).take 47 = rendering x from List.take_of_length_le hlen,
    show (sixDecimals (.finite x)).length - 47 = 0 from Nat.sub_eq_zero_of_le hlen] at hscan
  rw [hscan, cutNumeral_zero]

theorem scan_kept (x y : Finite) :
    scan (kept x y) = some (cutNumeral y.neg (millionths y)
      ((rendering x).length + (rendering y).length - 62)) := by
  have hlen : (rendering x).length ≤ 47 := length_rendering_le x
  have hscan := scan_rendering y (n := 62 - (rendering x).length) (by omega)
  have hlost : (rendering y).length - (62 - (rendering x).length)
      = (rendering x).length + (rendering y).length - 62 := by omega
  rw [← hlost]
  exact hscan

/-- The stored number is the numeral, rounded. -/
def Rounded : Numeral → Finite → Prop
  | .number neg n d, r => round neg n d = some r
  | _, _ => False

/-- **The position codec**: the receiver never fails, its first number is exactly the rendering of
the first, and its second that of the second as long as the two have at most 62 characters, and
otherwise what the cut has left of it. -/
theorem codec_round_trip (x y : Finite) :
    FirstComma (sent x y) (rendering x) (kept x y)
      ∧ kept x y ≠ []
      ∧ dec (sent x y) = some (.number x.neg (millionths x) (10 ^ 6),
        cutNumeral y.neg (millionths y) ((rendering x).length + (rendering y).length - 62))
      ∧ scan (kept x y)
        = some (cutNumeral y.neg (millionths y)
          ((rendering x).length + (rendering y).length - 62))
      ∧ ((rendering x).length + (rendering y).length ≤ 62 → kept x y = rendering y
        ∧ dec (sent x y) = some (.number x.neg (millionths x) (10 ^ 6),
          .number y.neg (millionths y) (10 ^ 6)))
      ∧ (BelowLimit x → BelowLimit y → (rendering x).length + (rendering y).length ≤ 62)
      ∧ ∀ (erange : Nat → Nat → Bool) (c : MyClient) (nr : Int), ∃ u v rx ry,
        dec (sent x y) = some (u, v) ∧ Rounded u rx ∧ Rounded v ry
          ∧ c.storeDirection erange nr (buf ⟨.finite x, .finite y⟩)
            = .ok { c with
                directions_ := Function.update c.directions_ nr (some ⟨.finite rx, .finite ry⟩) } := by
  have hsplit := buf_split x y
  have hx := scan_first x
  have hy := scan_kept x y
  have hdec := dec_split hsplit hx hy
  refine ⟨hsplit, kept_ne_nil x y, hdec, hy, ?_, ?_, ?_⟩
  · intro hfit
    have hall : kept x y = rendering y := List.take_of_length_le (by omega)
    refine ⟨hall, dec_split hsplit hx ?_⟩
    rw [hall]
    exact scan_first y
  · intro hbx hby
    have hlx : (rendering x).length ≤ 31 :=
      length_rendering x (n := 23) (by decide) (millionths_below hbx)
    have hly : (rendering y).length ≤ 31 :=
      length_rendering y (n := 23) (by decide) (millionths_below hby)
    omega
  · intro erange c nr
    have hfirst := cutNumeral_zero x.neg (millionths x)
    obtain ⟨n, d, rx, hnum, hrx, hstofx⟩ :=
      stof_cutNumeral erange x 0 (hx.trans (congrArg some hfirst.symm))
    obtain ⟨n', d', ry, hnum', hry, hstofy⟩ := stof_cutNumeral erange y _ hy
    refine ⟨_, _, rx, ry, hdec, ?_, ?_, ?_⟩
    · rw [← hfirst, hnum]
      exact hrx
    · rw [hnum']
      exact hry
    · exact storeDirection_decoded erange c nr
        ((decode_eq_some erange).2 ⟨_, _, hsplit, hstofx, hstofy⟩)

end Game
