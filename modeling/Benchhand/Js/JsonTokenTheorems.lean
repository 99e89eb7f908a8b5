/-
Benchhand.Js.JsonTokenTheorems — numerals and strings in a JSON text.

A numeral is read back from its text (`parseNumeral_text`), and the numeral of
a finite number denotes that number again, up to the sign of zero
(`Double.value_numeral`), wherever the point was put. A quoted string is read
back unit by unit, lone surrogates included (`parseChars_quoteUnits`). Both
are well formed UTF-16 whatever they were written for.
-/
import Benchhand.Js.Json

namespace Benchhand.Js

open Benchhand.Text

/-! ## Digits -/

theorem ofDecimalDigits_decimalDigits (n : Nat) : ofDecimalDigits (decimalDigits n) = n := by
  rw [ofDecimalDigits, decimalDigits, List.foldl_reverse]
  simpa [Nat.ofDigits_eq_foldr, add_comm] using Nat.ofDigits_digits 10 n

theorem decimalDigits_lt {n d : Nat} (hd : d ∈ decimalDigits n) : d < 10 :=
  Nat.digits_lt_base (by norm_num) (List.mem_reverse.mp hd)

theorem length_decimalDigits (n : Nat) : (decimalDigits n).length = (Nat.digits 10 n).length :=
  List.length_reverse

theorem decimalDigits_ne_nil {n : Nat} (hn : n ≠ 0) : decimalDigits n ≠ [] := by
  rw [decimalDigits, ne_eq, List.reverse_eq_nil_iff]
  exact Nat.digits_ne_nil_iff_ne_zero.mpr hn

theorem head?_decimalDigits_ne_zero {n : Nat} (hn : n ≠ 0) :
    (decimalDigits n).head? ≠ some 0 := by
  have hne : Nat.digits 10 n ≠ [] := Nat.digits_ne_nil_iff_ne_zero.mpr hn
  rw [decimalDigits, List.head?_reverse, List.getLast?_eq_getLast_of_ne_nil hne]
  simpa using Nat.getLast_digit_ne_zero 10 hn

theorem ofDecimalDigits_append (ds es : List Nat) :
    ofDecimalDigits (ds ++ es) = ofDecimalDigits ds * 10 ^ es.length + ofDecimalDigits es := by
  have hfold : ∀ (es : List Nat) (acc : Nat),
      es.foldl (fun acc d => 10 * acc + d) acc = acc * 10 ^ es.length + ofDecimalDigits es := by
    intro es
    induction es with
    | nil => intro acc; simp [ofDecimalDigits]
    | cons e es ih =>
        intro acc
        have hcons : ofDecimalDigits (e :: es) = e * 10 ^ es.length + ofDecimalDigits es := by
          rw [ofDecimalDigits, List.foldl_cons, ih, Nat.mul_zero, Nat.zero_add]
        rw [List.foldl_cons, ih, hcons, List.length_cons]
        ring
  rw [ofDecimalDigits, List.foldl_append, hfold es]
  rfl

theorem ofDecimalDigits_replicate_zero (n : Nat) : ofDecimalDigits (List.replicate n 0) = 0 := by
  induction n with
  | zero => rfl
  | succ n ih => rw [List.replicate_succ', ofDecimalDigits_append, ih]; rfl

/-! ## Reading a numeral -/

/-- The units that would continue a number. -/
def isNumeralUnit (u : UInt16) : Bool :=
  isDigitUnit u || u == ch '.' || u == ch 'e' || u == ch 'E'

/-- The text goes on with something that is not part of a number. -/
def EndsNumeral (s : JsString) : Prop := ∀ u ∈ s.head?, isNumeralUnit u = false

/-- The text does not go on with a digit. -/
def EndsDigits (s : JsString) : Prop := ∀ u ∈ s.head?, isDigitUnit u = false

theorem EndsNumeral.endsDigits {s : JsString} (h : EndsNumeral s) : EndsDigits s :=
  fun u hu => by simpa [isNumeralUnit] using (Bool.or_eq_false_iff.mp
    (Bool.or_eq_false_iff.mp (Bool.or_eq_false_iff.mp (h u hu)).1).1).1

theorem endsNumeral_cons {u : UInt16} (h : isNumeralUnit u = false) (s : JsString) :
    EndsNumeral (u :: s) := by
  rintro v hv
  obtain rfl := Option.some.inj hv
  exact h

theorem toNat_digitUnit {d : Nat} (hd : d < 10) : (UInt16.ofNat (48 + d)).toNat = 48 + d :=
  toNat_ofNat16 (by omega)

theorem spanDigits_append : ∀ (ds : List Nat) {rest : JsString}, (∀ d ∈ ds, d < 10) →
    EndsDigits rest → spanDigits (digitsText ds ++ rest) = (ds, rest)
  | [], [], _, _ => rfl
  | [], u :: rest, _, hr => by
      simp only [digitsText, List.map_nil, List.nil_append, spanDigits,
        hr u rfl, Bool.false_eq_true, if_false]
  | d :: ds, rest, hds, hr => by
      have hd := toNat_digitUnit (hds d List.mem_cons_self)
      have hdigit : isDigitUnit (UInt16.ofNat (48 + d)) = true := by
        have := hds d List.mem_cons_self
        simp only [isDigitUnit, hd, Bool.and_eq_true, decide_eq_true_eq]
        omega
      have ih := spanDigits_append ds (fun e he => hds e (List.mem_cons_of_mem _ he)) hr
      simp only [digitsText] at ih
      simp only [digitsText, List.map_cons, List.cons_append, spanDigits, hdigit, if_true, ih, hd]
      rw [Nat.add_sub_cancel_left]

/-- The numerals the grammar has: digits, no leading zero, an exponent whose
digits are not none. -/
structure Numeral.Valid (m : Numeral) : Prop where
  int_digits : ∀ d ∈ m.int, d < 10
  frac_digits : ∀ d ∈ m.frac, d < 10
  int_ne_nil : m.int ≠ []
  no_leading_zero : m.int.head? = some 0 → m.int = [0]
  exp_ne_zero : m.exp ≠ some 0

theorem parseInt_append {m : Numeral} (hm : m.Valid) {rest : JsString} (hr : EndsDigits rest) :
    parseInt (digitsText m.int ++ rest) = some (m.int, rest) := by
  have hspan := spanDigits_append m.int hm.int_digits hr
  rw [parseInt, hspan]
  cases hint : m.int with
  | nil => exact absurd hint hm.int_ne_nil
  | cons d ds =>
      cases d with
      | zero =>
          obtain rfl : ds = [] := by simpa [hint] using hm.no_leading_zero (by simp [hint])
          rfl
      | succ d => rfl

theorem parseFrac_append {m : Numeral} (hm : m.Valid) {rest : JsString} (hr : EndsDigits rest)
    (hdot : ∀ u ∈ rest.head?, u ≠ ch '.') :
    parseFrac (m.fracText ++ rest) = some (m.frac, rest) := by
  rw [Numeral.fracText]
  cases hfrac : m.frac with
  | nil =>
      cases rest with
      | nil => rfl
      | cons u rest =>
          rw [if_pos rfl, List.nil_append, parseFrac, if_neg (hdot u rfl)]
  | cons d ds =>
      have hspan := spanDigits_append m.frac hm.frac_digits hr
      rw [hfrac] at hspan
      rw [if_neg (List.cons_ne_nil _ _), List.cons_append, parseFrac, if_pos rfl, hspan]

theorem parseExpDigits_append {e : Int} (he : e ≠ 0) {rest : JsString} (hr : EndsDigits rest) :
    parseExpDigits (decide (e < 0)) (digitsText (decimalDigits e.natAbs) ++ rest)
      = some (some e, rest) := by
  have hspan := spanDigits_append (decimalDigits e.natAbs) (fun _ => decimalDigits_lt) hr
  have hval := ofDecimalDigits_decimalDigits e.natAbs
  rw [parseExpDigits, hspan]
  cases hds : decimalDigits e.natAbs with
  | nil => exact absurd hds (decimalDigits_ne_nil (by omega))
  | cons d ds =>
      rw [hds] at hval
      simp only [hval, decide_eq_true_eq, Option.some.injEq, Prod.mk.injEq, and_true]
      split <;> omega

theorem parseExp_append {m : Numeral} (hm : m.Valid) {rest : JsString} (hr : EndsNumeral rest) :
    parseExp (m.expText ++ rest) = some (m.exp, rest) := by
  rw [Numeral.expText]
  cases hexp : m.exp with
  | none =>
      cases rest with
      | nil => rfl
      | cons u rest =>
          have hu := hr u rfl
          simp only [isNumeralUnit, Bool.or_eq_false_iff, beq_eq_false_iff_ne] at hu
          simp [parseExp, hu.1.2, hu.2]
  | some e =>
      have he : e ≠ 0 := fun h => hm.exp_ne_zero (by rw [hexp, h])
      have hdigits := parseExpDigits_append he hr.endsDigits
      by_cases hneg : e < 0
      · have hsign : ch '-' ≠ ch '+' := by decide
        simpa [parseExp, hneg] using hdigits
      · have hsign : ch '+' ≠ ch '-' := by decide
        simpa [parseExp, hneg, hsign] using hdigits

theorem head?_expText (m : Numeral) (rest : JsString) :
    (m.expText ++ rest).head? = some (ch 'e') ∨ (m.expText ++ rest).head? = rest.head? := by
  unfold Numeral.expText
  cases m.exp with
  | none => exact .inr rfl
  | some e => exact .inl rfl

theorem endsDigits_expText {m : Numeral} {rest : JsString} (hr : EndsNumeral rest) :
    EndsDigits (m.expText ++ rest) ∧ ∀ u ∈ (m.expText ++ rest).head?, u ≠ ch '.' := by
  rcases head?_expText m rest with h | h
  · simp only [EndsDigits, h, Option.mem_def, Option.some.injEq]
    constructor <;> (rintro u rfl; decide)
  · refine ⟨fun u hu => hr.endsDigits u (h ▸ hu), fun u hu => ?_⟩
    have := hr u (h ▸ hu)
    simp only [isNumeralUnit, Bool.or_eq_false_iff, beq_eq_false_iff_ne] at this
    exact this.1.1.2

theorem endsDigits_fracText {m : Numeral} {rest : JsString} (hr : EndsDigits rest) :
    EndsDigits (m.fracText ++ rest) := by
  rw [Numeral.fracText]
  split
  · exact hr
  · rintro u hu
    obtain rfl := Option.some.inj hu
    decide

/-- A valid numeral is read back from its text. -/
theorem parseNumeral_text {m : Numeral} (hm : m.Valid) {rest : JsString} (hr : EndsNumeral rest) :
    parseNumeral (m.text ++ rest) = some (m, rest) := by
  obtain ⟨hexp, hdot⟩ := endsDigits_expText (m := m) hr
  have hunsigned : parseUnsigned m.neg
      (digitsText m.int ++ (m.fracText ++ (m.expText ++ rest))) = some (m, rest) := by
    rw [parseUnsigned, parseInt_append hm (endsDigits_fracText hexp)]
    dsimp only [bind, Option.bind]
    rw [parseFrac_append hm hexp hdot]
    dsimp only
    rw [parseExp_append hm hr]
    rfl
  rw [Numeral.text, Numeral.signText]
  cases hneg : m.neg with
  | true =>
      rw [hneg] at hunsigned
      simpa [parseNumeral, List.append_assoc] using hunsigned
  | false =>
      rw [hneg] at hunsigned
      cases hint : m.int with
      | nil => exact absurd hint hm.int_ne_nil
      | cons d ds =>
          -- a digit is not a minus sign
          have hd : UInt16.ofNat (48 + d) ≠ ch '-' := fun h => by
            have := congrArg UInt16.toNat h
            rw [toNat_digitUnit (hm.int_digits d (by simp [hint]))] at this
            have : (ch '-').toNat = 45 := by decide
            omega
          rw [hint, digitsText, List.map_cons, List.cons_append] at hunsigned
          simp only [Bool.false_eq_true, if_false, List.nil_append, digitsText, List.map_cons,
            List.cons_append, List.append_assoc]
          rw [parseNumeral, if_neg hd]
          exact hunsigned

/-! ## The numeral of a number -/

theorem mem_take_lt {ds : List Nat} (h : ∀ d ∈ ds, d < 10) (n : Nat) : ∀ d ∈ ds.take n, d < 10 :=
  fun d hd => h d (List.mem_of_mem_take hd)

theorem mem_drop_lt {ds : List Nat} (h : ∀ d ∈ ds, d < 10) (n : Nat) : ∀ d ∈ ds.drop n, d < 10 :=
  fun d hd => h d (List.mem_of_mem_drop hd)

/-- Cutting digits after the first `n` keeps a nonzero leading digit. -/
theorem head?_take_ne_zero {ds : List Nat} (h : ds.head? ≠ some 0) {n : Nat} (hn : 0 < n) :
    (ds.take n).head? ≠ some 0 := by
  rwa [List.head?_take, if_neg (by omega)]

theorem take_ne_nil {ds : List Nat} (h : ds ≠ []) {n : Nat} (hn : 0 < n) : ds.take n ≠ [] := by
  simp [h, Nat.ne_of_gt hn]

theorem Numeral.format_valid {neg : Bool} {ds : List Nat} {n : Int} (hlt : ∀ d ∈ ds, d < 10)
    (hne : ds ≠ []) (hhead : ds.head? ≠ some 0) : (Numeral.format neg ds n).Valid := by
  have hzeros : ∀ (j : Nat), ∀ d ∈ List.replicate j 0, d < 10 := fun j d hd => by
    rw [(List.mem_replicate.mp hd).2]; decide
  have hlen : 0 < ds.length := List.length_pos_iff.mpr hne
  unfold Numeral.format
  dsimp only
  split <;> [skip; split <;> [skip; split]]
  · refine ⟨List.forall_mem_append.mpr ⟨hlt, hzeros _⟩, by simp, by simp [hne], fun h => ?_,
      by simp⟩
    rw [List.head?_append_of_ne_nil _ hne] at h
    exact absurd h hhead
  · have hn : 0 < n.toNat := by omega
    exact ⟨mem_take_lt hlt _, mem_drop_lt hlt _, take_ne_nil hne hn,
      fun h => absurd h (head?_take_ne_zero hhead hn), by simp⟩
  · exact ⟨by simp, List.forall_mem_append.mpr ⟨hzeros _, hlt⟩, by simp, fun _ => rfl, by simp⟩
  · refine ⟨mem_take_lt hlt _, mem_drop_lt hlt _, take_ne_nil hne Nat.one_pos,
      fun h => absurd h (head?_take_ne_zero hhead Nat.one_pos), ?_⟩
    simp only [ne_eq, Option.some.injEq]
    omega

theorem Double.numeral_valid (x : Double) : x.numeral.Valid := by
  unfold Double.numeral
  split
  · exact ⟨by simp, by simp, by simp, fun _ => rfl, by simp⟩
  · rename_i hx
    have hmant : x.mant ≠ 0 := by simpa [Double.isZero] using hx
    have hs := (shortestDigits_spec hmant).1
    exact Numeral.format_valid (fun _ => decimalDigits_lt) (decimalDigits_ne_nil hs)
      (head?_decimalDigits_ne_zero hs)

/-- The digits and the place of the first are a number's value however the
point is written. -/
theorem value_eq_ofMagnitude {m : Numeral} {ds : List Nat} {n : Int} (zeros : Nat)
    (hdigits : ofDecimalDigits (m.int ++ m.frac) = ofDecimalDigits ds * 10 ^ zeros)
    (hplace : (zeros : Int) + (m.exp.getD 0 - m.frac.length) = n - ds.length) :
    m.value = .ofMagnitude m.neg (ofDecimalDigits ds * 10 ^ (n - ds.length)) := by
  have h10 : (10 : ℚ) ≠ 0 := by norm_num
  rw [Numeral.value, hdigits, ← hplace, zpow_add₀ h10, zpow_natCast]
  push_cast
  rw [mul_assoc]

theorem Numeral.value_format (neg : Bool) {ds : List Nat} (hne : ds ≠ []) (n : Int) :
    (Numeral.format neg ds n).value
      = .ofMagnitude neg (ofDecimalDigits ds * 10 ^ (n - ds.length)) := by
  have hlen : 0 < ds.length := List.length_pos_iff.mpr hne
  unfold Numeral.format
  dsimp only
  split <;> [skip; split <;> [skip; split]]
  · refine value_eq_ofMagnitude (n - ds.length).toNat ?_ ?_
    · rw [List.append_nil, ofDecimalDigits_append, ofDecimalDigits_replicate_zero,
        List.length_replicate, Nat.add_zero]
    · simp only [Option.getD_none, List.length_nil]
      omega
  · refine value_eq_ofMagnitude 0 ?_ ?_
    · rw [List.take_append_drop, pow_zero, mul_one]
    · simp only [Option.getD_none, List.length_drop]
      omega
  · refine value_eq_ofMagnitude 0 ?_ ?_
    · have hzero : ofDecimalDigits [0] = 0 := rfl
      rw [ofDecimalDigits_append, ofDecimalDigits_append, hzero, ofDecimalDigits_replicate_zero,
        zero_mul, zero_add, zero_mul, zero_add, pow_zero, mul_one]
    · simp only [Option.getD_none, List.length_append, List.length_replicate]
      omega
  · refine value_eq_ofMagnitude 0 ?_ ?_
    · rw [List.take_append_drop, pow_zero, mul_one]
    · simp only [Option.getD_some, List.length_drop]
      omega

/-- Printing a finite value and reading it loses at most the sign of zero. -/
theorem Double.value_numeral (x : Double) :
    x.numeral.value = .finite (if x.isZero then .zero false else x) := by
  unfold Double.numeral
  split
  · have hzero : ofDecimalDigits ([0] ++ []) = 0 := rfl
    rw [Numeral.value, hzero, Nat.cast_zero, zero_mul, Number.ofMagnitude, if_pos rfl]
  · rename_i hx
    have hmant : x.mant ≠ 0 := by simpa [Double.isZero] using hx
    obtain ⟨hs, hspec⟩ := shortestDigits_spec hmant
    rw [Numeral.value_format _ (decimalDigits_ne_nil hs), ofDecimalDigits_decimalDigits,
      length_decimalDigits, hspec]

/-! ## Strings -/

theorem hexValue_hexDigitUnit : ∀ d < 16, hexValue (hexDigitUnit d) = some d := by decide

theorem toNat_lt (u : UInt16) : u.toNat < 65536 := u.toNat_lt

theorem parseChars_close (rest : JsString) : parseChars (ch '"' :: rest) = some ([], rest) := by
  rw [parseChars.eq_def]
  rfl

/-- A unit that is not a mark or a control character stands for itself. -/
theorem parseChars_plain {u : UInt16} (hmark : u ≠ ch '"') (hslash : u ≠ ch '\\')
    (hu : 0x20 ≤ u.toNat) (rest : JsString) :
    parseChars (u :: rest) = (parseChars rest).map fun p => (u :: p.1, p.2) := by
  rw [parseChars.eq_def]
  simp only [if_neg hmark, if_neg hslash, if_neg (Nat.not_lt.mpr hu)]
  cases parseChars rest <;> rfl

theorem parseChars_short {letter v : UInt16} (hletter : letter ≠ ch 'u')
    (hv : shortEscapeValue letter = some v) (rest : JsString) :
    parseChars (ch '\\' :: letter :: rest) = (parseChars rest).map fun p => (v :: p.1, p.2) := by
  have hmark : ch '\\' ≠ ch '"' := by decide
  rw [parseChars.eq_def]
  simp only [if_neg hmark, if_neg hletter, hv, bind, Option.bind, pure, if_true]
  cases parseChars rest <;> rfl

/-- An escaped unit is read back. -/
theorem parseChars_unicodeEscape (u : UInt16) (rest : JsString) :
    parseChars (unicodeEscape u ++ rest) = (parseChars rest).map fun p => (u :: p.1, p.2) := by
  have hu := toNat_lt u
  have h1 := hexValue_hexDigitUnit (u.toNat / 4096) (by omega)
  have h2 := hexValue_hexDigitUnit (u.toNat / 256 % 16) (by omega)
  have h3 := hexValue_hexDigitUnit (u.toNat / 16 % 16) (by omega)
  have h4 := hexValue_hexDigitUnit (u.toNat % 16) (by omega)
  have hback : 4096 * (u.toNat / 4096) + 256 * (u.toNat / 256 % 16) + 16 * (u.toNat / 16 % 16)
      + u.toNat % 16 = u.toNat := by omega
  have hmark : ch '\\' ≠ ch '"' := by decide
  rw [parseChars.eq_def]
  simp only [unicodeEscape, List.cons_append, List.nil_append, if_neg hmark, h1, h2, h3, h4,
    hback, UInt16.ofNat_toNat, bind, Option.bind, pure, if_true]
  cases parseChars rest <;> rfl

theorem shortEscape_spec : ∀ e ∈ shortEscapes,
    e.2 ≠ ch 'u' ∧ shortEscapeValue e.2 = some e.1 := by
  have hall : shortEscapes.all
      (fun e => decide (e.2 ≠ ch 'u' ∧ shortEscapeValue e.2 = some e.1)) = true := by decide
  exact fun e he => of_decide_eq_true (List.all_eq_true.mp hall e he)

theorem mem_shortEscapes {u letter : UInt16} (h : shortEscapes.lookup u = some letter) :
    (u, letter) ∈ shortEscapes := by
  obtain ⟨before, after, hsplit, -⟩ := List.lookup_eq_some_iff.mp h
  rw [hsplit]
  exact List.mem_append_right _ List.mem_cons_self

theorem parseChars_quoteUnit (u : UInt16) (rest : JsString) :
    parseChars (quoteUnit u ++ rest) = (parseChars rest).map fun p => (u :: p.1, p.2) := by
  unfold quoteUnit
  cases hesc : shortEscapes.lookup u with
  | some letter =>
      obtain ⟨hletter, hvalue⟩ := shortEscape_spec _ (mem_shortEscapes hesc)
      exact parseChars_short hletter hvalue rest
  | none =>
      dsimp only
      split
      · exact parseChars_unicodeEscape u rest
      · rename_i hplain
        simp only [Bool.or_eq_true, decide_eq_true_eq, not_or, Nat.not_lt] at hplain
        -- the two marks have short escapes
        exact parseChars_plain (by rintro rfl; exact absurd hesc (by decide))
          (by rintro rfl; exact absurd hesc (by decide)) hplain.1.1 rest

/-- A surrogate stands for itself inside a string. -/
theorem parseChars_surrogate {u : UInt16} (hu : 0xD800 ≤ u.toNat) (rest : JsString) :
    parseChars (u :: rest) = (parseChars rest).map fun p => (u :: p.1, p.2) :=
  parseChars_plain (by rintro rfl; exact absurd hu (by decide))
    (by rintro rfl; exact absurd hu (by decide)) (by omega) rest

/-- A quoted string is read back, lone surrogates included. -/
theorem parseChars_quoteUnits (s rest : JsString) :
    parseChars (quoteUnits s ++ ch '"' :: rest) = some (s, rest) := by
  fun_induction quoteUnits s with
  | case1 => exact parseChars_close rest
  | case2 u =>
      rw [parseChars_quoteUnit, parseChars_close]
      rfl
  | case3 u v s hpair ih =>
      obtain ⟨hu, hv⟩ := Bool.and_eq_true_iff.mp hpair
      have hu := ((isHigh_iff u).mp hu).1
      have hv := ((isLow_iff v).mp hv).1
      rw [List.cons_append, List.cons_append, parseChars_surrogate hu,
        parseChars_surrogate (by omega), ih]
      rfl
  | case4 u v s hpair ih =>
      rw [List.append_assoc, parseChars_quoteUnit, ih]
      rfl

/-! ## Tokens are well formed -/

theorem wellFormed_digitsText {ds : List Nat} (h : ∀ d ∈ ds, d < 10) :
    WellFormed (digitsText ds) := by
  refine wellFormed_of_lt fun u hu => ?_
  obtain ⟨d, hd, rfl⟩ := List.mem_map.mp hu
  rw [toNat_digitUnit (h d hd)]
  have := h d hd
  omega

theorem wellFormed_numeral {m : Numeral} (hm : m.Valid) : WellFormed m.text := by
  have hsign : WellFormed m.signText := by
    rw [Numeral.signText]; split
    · exact wellFormed_one (by decide)
    · exact wellFormed_nil
  have hfrac : WellFormed m.fracText := by
    rw [Numeral.fracText]; split
    · exact wellFormed_nil
    · exact (wellFormed_digitsText hm.frac_digits).cons (by decide)
  have hexp : WellFormed m.expText := by
    rw [Numeral.expText]
    cases m.exp with
    | none => exact wellFormed_nil
    | some e =>
        have hdigits := wellFormed_digitsText fun _ => decimalDigits_lt (n := e.natAbs)
        refine WellFormed.cons (by decide) ?_
        split
        · exact hdigits.cons (by decide)
        · exact hdigits.cons (by decide)
  exact hsign.append ((wellFormed_digitsText hm.int_digits).append (hfrac.append hexp))

theorem hexDigitUnit_lt : ∀ d < 16, (hexDigitUnit d).toNat < 0xD800 := by decide

theorem shortEscapes_lt : ∀ e ∈ shortEscapes, e.2.toNat < 0xD800 := by
  have hall : shortEscapes.all (fun e => decide (e.2.toNat < 0xD800)) = true := by decide
  exact fun e he => of_decide_eq_true (List.all_eq_true.mp hall e he)

theorem wellFormed_quoteUnit (u : UInt16) : WellFormed (quoteUnit u) := by
  unfold quoteUnit
  cases hesc : shortEscapes.lookup u with
  | some letter =>
      exact WellFormed.cons (by decide) (wellFormed_of_lt fun v hv =>
        List.mem_singleton.mp hv ▸ shortEscapes_lt _ (mem_shortEscapes hesc))
  | none =>
      dsimp only
      split
      · have hu := toNat_lt u
        refine WellFormed.cons (by decide) (WellFormed.cons (by decide)
          (wellFormed_of_lt fun v hv => ?_))
        simp only [List.mem_cons, List.not_mem_nil, or_false] at hv
        rcases hv with rfl | rfl | rfl | rfl <;> exact hexDigitUnit_lt _ (by omega)
      · rename_i hplain
        simp only [Bool.or_eq_true, not_or, Bool.not_eq_true] at hplain
        rw [wellFormed_iff]
        refine ⟨[scalarOf u.toNat], ?_⟩
        rw [List.flatMap_cons, List.flatMap_nil, List.append_nil, units_scalarOf_unit]
        -- neither kind of surrogate
        have h1 := hplain.1.2
        have h2 := hplain.2
        rw [Bool.eq_false_iff, ne_eq, isHigh_iff] at h1
        rw [Bool.eq_false_iff, ne_eq, isLow_iff] at h2
        have := toNat_lt u
        unfold Nat.isValidChar
        omega

theorem wellFormed_quoteUnits (s : JsString) : WellFormed (quoteUnits s) := by
  fun_induction quoteUnits s with
  | case1 => exact wellFormed_nil
  | case2 u => exact wellFormed_quoteUnit u
  | case3 u v s hpair ih =>
      obtain ⟨hu, hv⟩ := Bool.and_eq_true_iff.mp hpair
      have hpair : WellFormed [u, v] := (wellFormed_iff _).mpr
        ⟨[scalarOf (pairPoint u v)], by
          rw [List.flatMap_cons, List.flatMap_nil, List.append_nil,
            units_scalarOf_pairPoint hu hv]⟩
      exact hpair.append ih
  | case4 u v s hpair ih => exact (wellFormed_quoteUnit u).append ih

theorem wellFormed_quote (s : JsString) : WellFormed (quote s) :=
  ((wellFormed_quoteUnits s).append (wellFormed_one (by decide))).cons (by decide)

end Benchhand.Js
