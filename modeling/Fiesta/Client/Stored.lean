import Fiesta.Client.Events
import Fiesta.Lib.Decimal

/-!
# What the entries of `directions_` come from

* `Opens`              a text whose two parts begin with the numerals of a position;
* `WellFormed`         a text that is two decimal numbers and a comma, and nothing else;
* `stored_positions`   every entry was opened by a text of its player, a well-formed one is
                       stored, and a text that opens none changes nothing.
-/

namespace Game

open Photon Binary32 Strtof

section
variable (erange : Nat → Nat → Bool)

/-! ## texts -/

def textOf (e : Event) : List Char := cstr (ValueObject.getDataCopy e.eventContent)

/-- The parts around the first comma begin, after blanks and a sign, with the numerals of `v`; what
follows a numeral does not count. -/
def Opens (text : List Char) (v : Vector2f) : Prop :=
  ∃ a b u w, FirstComma text a b
    ∧ opensNumeral (body a) = true ∧ scan a = some u ∧ Stores u v.x
    ∧ opensNumeral (body b) = true ∧ scan b = some w ∧ Stores w v.y

/-- One of the two parts spells an infinity or a nan. -/
def Special (text : List Char) : Prop :=
  ∃ a b, FirstComma text a b ∧ (spellsSpecial a = true ∨ spellsSpecial b = true)

/-- The text is one decimal number, one comma and one decimal number. -/
def WellFormed (text : List Char) : Prop :=
  ∃ neg ds fs neg' ds' fs', IsDecimal ds ∧ ds ≠ [] ∧ (∀ l ∈ fs, IsDecimal l)
    ∧ IsDecimal ds' ∧ ds' ≠ [] ∧ (∀ l ∈ fs', IsDecimal l)
    ∧ text = decimalText neg ds fs ++ ',' :: decimalText neg' ds' fs'

def Vector2f.isFinite (v : Vector2f) : Bool := v.x.isFinite && v.y.isFinite

theorem opens_of_decode {text : List Char} {v : Vector2f} (h : decode erange text = some v) :
    Opens text v := by
  obtain ⟨a, b, hfirst, hx, hy⟩ := (decode_eq_some erange).1 h
  obtain ⟨u, hu, hux⟩ := stof_stores erange hx
  obtain ⟨w, hw, hwy⟩ := stof_stores erange hy
  refine ⟨a, b, u, w, hfirst, ?_, hu, hux, ?_, hw, hwy⟩
  · rw [← scan_isSome, hu]
    rfl
  · rw [← scan_isSome, hw]
    rfl

/-- A position is finite unless its text spells something else. -/
theorem Opens.special {text : List Char} {v : Vector2f} (h : Opens text v) :
    Special text ↔ v.isFinite = false := by
  obtain ⟨a, b, u, w, hfirst, _, hu, hux, _, hw, hwy⟩ := h
  have honly : Special text ↔ spellsSpecial a = true ∨ spellsSpecial b = true := by
    refine ⟨?_, ?_⟩
    · rintro ⟨a', b', hfirst', hspell⟩
      obtain ⟨rfl, rfl⟩ := hfirst.unique hfirst'
      exact hspell
    · intro hspell
      exact ⟨a, b, hfirst, hspell⟩
  rw [honly]
  unfold Vector2f.isFinite
  rw [hux.isFinite, hwy.isFinite, scan_isNumber hu, scan_isNumber hw]
  cases spellsSpecial a <;> cases spellsSpecial b <;> decide

theorem decimalText_no_comma (neg : Bool) {ds : List Nat} (hds : IsDecimal ds)
    {fs : Option (List Nat)} (hfs : ∀ l ∈ fs, IsDecimal l) : ',' ∉ decimalText neg ds fs := by
  have hdigit : ∀ d < 10, Nat.digitChar d ≠ ',' := by decide
  have hdigits : ∀ {l : List Nat}, IsDecimal l → ',' ∉ digitText l := by
    intro l hl hmem
    obtain ⟨d, hd, heq⟩ := List.mem_map.1 hmem
    exact hdigit d (hl d hd) heq
  have hsign : ',' ∉ signText neg := by cases neg <;> decide
  cases fs with
  | none =>
    show ',' ∉ signText neg ++ digitText ds
    rw [List.mem_append, not_or]
    exact ⟨hsign, hdigits hds⟩
  | some fs =>
    show ',' ∉ signText neg ++ digitText ds ++ '.' :: digitText fs
    rw [List.mem_append, List.mem_append, List.mem_cons, not_or, not_or, not_or]
    exact ⟨⟨hsign, hdigits hds⟩, by decide, hdigits (hfs fs rfl)⟩

/-- A well-formed text spells no infinity and no nan. -/
theorem WellFormed.not_special {text : List Char} (h : WellFormed text) : ¬ Special text := by
  obtain ⟨neg, ds, fs, neg', ds', fs', hds, hne, hfs, hds', hne', hfs', rfl⟩ := h
  have hnumber : ∀ (neg : Bool) {ds : List Nat} {fs : Option (List Nat)}, IsDecimal ds → ds ≠ [] →
      (∀ l ∈ fs, IsDecimal l) → spellsSpecial (decimalText neg ds fs) = false := by
    intro neg ds fs hds hne hfs
    cases fs with
    | none =>
      have hscan := (scan_decimal neg hds hne (show IsDecimal [] by intro d hd; cases hd)).1
      simpa [Numeral.isNumber] using scan_isNumber hscan
    | some fs =>
      have hscan := (scan_decimal neg hds hne (hfs fs rfl)).2
      simpa [Numeral.isNumber] using scan_isNumber hscan
  have hfirst : FirstComma (decimalText neg ds fs ++ ',' :: decimalText neg' ds' fs')
      (decimalText neg ds fs) (decimalText neg' ds' fs') :=
    ⟨rfl, decimalText_no_comma neg hds hfs⟩
  rintro ⟨a, b, hab, hspell⟩
  obtain ⟨rfl, rfl⟩ := hfirst.unique hab
  rw [hnumber neg hds hne hfs, hnumber neg' hds' hne' hfs'] at hspell
  simp at hspell

/-! ## entries -/

theorem written_some {e : Event} {p : Int} {v : Vector2f} (h : written erange e = some (p, v)) :
    e.eventCode = 2 ∧ e.playerNr = p ∧ Opens (textOf e) v := by
  obtain ⟨hcode, hnr, hnumbers⟩ := (written_eq_some erange).1 h
  exact ⟨hcode, hnr, opens_of_decode erange ((decode_eq_some erange).2 hnumbers)⟩

theorem entry_opened {es : List Event} {p : Int} {v : Vector2f}
    (h : (Runs.run (received erange) MyClient.new es).directions_ p = some v) :
    ∃ e ∈ es, e.eventCode = 2 ∧ e.playerNr = p ∧ Opens (textOf e) v := by
  rw [entry_run] at h
  obtain ⟨before, e, after, rfl, hw, _⟩ := (Store.lastWrite_eq_some _).1 h
  exact ⟨e, by simp, written_some erange hw⟩

/-- An event whose text does not open two numerals in range writes nothing. -/
theorem written_none {e : Event} (h : ∀ a b, FirstComma (textOf e) a b →
    ¬ (Convertible erange a ∧ Convertible erange b)) (p : Int) (v : Vector2f) :
    written erange e ≠ some (p, v) := by
  intro hw
  obtain ⟨_, _, a, b, hfirst, hx, hy⟩ := (written_eq_some erange).1 hw
  exact h a b hfirst ⟨(stof_ok_iff erange a).1 ⟨_, hx⟩, (stof_ok_iff erange b).1 ⟨_, hy⟩⟩

theorem written_wellFormed {e : Event} (h2 : e.eventCode = 2) (hwell : WellFormed (textOf e))
    (hrange : Harmless erange e) :
    ∃ v, Opens (textOf e) v ∧ v.isFinite = true ∧ written erange e = some (e.playerNr, v) := by
  obtain ⟨neg, ds, fs, neg', ds', fs', hds, _, hfs, _, _, _, htext⟩ := id hwell
  have hfirst : FirstComma (textOf e) (decimalText neg ds fs) (decimalText neg' ds' fs') :=
    ⟨htext, decimalText_no_comma neg hds hfs⟩
  obtain ⟨hx, hy⟩ := hrange h2 _ _ hfirst
  obtain ⟨x, hx⟩ := (stof_ok_iff erange _).2 hx
  obtain ⟨y, hy⟩ := (stof_ok_iff erange _).2 hy
  have hw : written erange e = some (e.playerNr, ⟨x, y⟩) :=
    (written_eq_some erange).2 ⟨h2, rfl, _, _, hfirst, hx, hy⟩
  have hopens := (written_some erange hw).2.2
  refine ⟨_, hopens, ?_, hw⟩
  rw [← Bool.not_eq_false, ← hopens.special]
  exact hwell.not_special

/-- **Every entry was opened by a text of its player, and is finite unless that text spells an
infinity or a nan; so is what `getDirection` returns. A text that opens no two numerals in range
changes nothing, and a well-formed one in range is stored.** -/
theorem stored_positions (es : List Event) :
    (∀ p v, (Runs.run (received erange) MyClient.new es).directions_ p = some v →
        ∃ e ∈ es, e.eventCode = 2 ∧ e.playerNr = p ∧ Opens (textOf e) v
          ∧ (Special (textOf e) ↔ v.isFinite = false))
      ∧ (∀ p, ((Runs.run (received erange) MyClient.new es).getDirection p).isFinite = false →
        ∃ e ∈ es, e.eventCode = 2 ∧ e.playerNr = p ∧ Special (textOf e))
      ∧ (∀ (c : MyClient) (e : Event) (q : Int), (∀ a b, FirstComma (textOf e) a b →
          ¬ (Convertible erange a ∧ Convertible erange b)) →
        (received erange c e).directions_ q = c.directions_ q)
      ∧ ∀ (c : MyClient) (e : Event), e.eventCode = 2 → WellFormed (textOf e) →
        Harmless erange e → ∃ v, Opens (textOf e) v ∧ v.isFinite = true
          ∧ (received erange c e).directions_ e.playerNr = some v := by
  refine ⟨?_, ?_, ?_, ?_⟩
  · intro p v hv
    obtain ⟨e, he, hcode, hnr, hopens⟩ := entry_opened erange hv
    exact ⟨e, he, hcode, hnr, hopens, hopens.special⟩
  · intro p hp
    unfold MyClient.getDirection at hp
    cases hv : (Runs.run (received erange) MyClient.new es).directions_ p with
    | none =>
      rw [hv] at hp
      exact absurd hp (by decide +kernel)
    | some v =>
      rw [hv] at hp
      obtain ⟨e, he, hcode, hnr, hopens⟩ := entry_opened erange hv
      exact ⟨e, he, hcode, hnr, hopens.special.2 hp⟩
  · intro c e q hnone
    rw [received_directions]
    exact Store.write_of_ne (written erange) (written_none erange hnone q)
  · intro c e hcode hwell hrange
    obtain ⟨v, hopens, hfinite, hw⟩ := written_wellFormed erange hcode hwell hrange
    refine ⟨v, hopens, hfinite, ?_⟩
    rw [received_directions]
    exact Store.write_of_eq (written erange) hw

end

/-- The text "nan,1" is stored. -/
theorem stored_positions_nan :
    ¬ ∀ (erange : Nat → Nat → Bool) (es : List Event) (p : Int) (v : Vector2f),
      (Runs.run (received erange) MyClient.new es).directions_ p = some v →
        v.isFinite = true ∧ ∃ e ∈ es, e.eventCode = 2 ∧ e.playerNr = p ∧ WellFormed (textOf e) := by
  intro h
  obtain ⟨v, hv, hnan⟩ : ∃ v, (Runs.run (received fun _ _ => false) MyClient.new
      [⟨2, 2, .jstring ['n', 'a', 'n', ',', '1']⟩]).directions_ 2 = some v ∧ v.isFinite = false := by
    refine ⟨⟨.nan false, Single.ofNat 1⟩, ?_, rfl⟩
    decide +kernel
  have hfinite := (h _ _ _ v hv).1
  rw [hnan] at hfinite
  cases hfinite

end Game
