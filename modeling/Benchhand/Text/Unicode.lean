/-
Benchhand.Text.Unicode — JavaScript strings, UTF-16 and UTF-8.

A JavaScript string is a sequence of UTF-16 code units and need not be well
formed: a surrogate can stand alone. `codePoints` is the sequence
`Array.from(s)` iterates over, lone surrogates included. `Buffer.from(s,
'utf8')` is `encodeUtf8`: every lone surrogate is written as U+FFFD.
`decodeChars?` is the fatal decoder on the way back; it accepts exactly the
bytes some list of scalar values encodes to (`decodeChars?_eq_some_iff`).

Scalar values are Lean's `Char`, and the byte codewords are the core library's
`String.utf8EncodeChar`, so the facts about a single codeword come from there.
`utf16` and `utf8` package the two codes as `SelfSync` codes.

Joining two strings is where the encoder stops being a homomorphism: a high
surrogate at the end of the first and a low one at the start of the second
merge into one scalar. `encodeUtf8_append` is the law away from that case.
-/
import Benchhand.Text.SelfSync

namespace Benchhand.Text

/-- A JavaScript string: UTF-16 code units, well formed or not. -/
abbrev JsString := List UInt16

instance : LawfulBEq JsString := inferInstance

abbrev Bytes := List UInt8

/-! ## Code units -/

def isHigh (u : UInt16) : Bool := 0xD800 ≤ u.toNat && u.toNat ≤ 0xDBFF

def isLow (u : UInt16) : Bool := 0xDC00 ≤ u.toNat && u.toNat ≤ 0xDFFF

theorem isHigh_iff (u : UInt16) : isHigh u = true ↔ 0xD800 ≤ u.toNat ∧ u.toNat ≤ 0xDBFF := by
  simp [isHigh]

theorem isLow_iff (u : UInt16) : isLow u = true ↔ 0xDC00 ≤ u.toNat ∧ u.toNat ≤ 0xDFFF := by
  simp [isLow]

/-- The code point of a surrogate pair. -/
def pairPoint (h l : UInt16) : Nat :=
  0x10000 + (h.toNat - 0xD800) * 0x400 + (l.toNat - 0xDC00)

theorem pairPoint_eq (h l : UInt16) :
    pairPoint h l = 0x10000 + (h.toNat - 0xD800) * 0x400 + (l.toNat - 0xDC00) := rfl

/-- The code units of a scalar value. -/
def units (c : Char) : JsString :=
  if c.toNat < 0x10000 then [UInt16.ofNat c.toNat]
  else [UInt16.ofNat (0xD800 + (c.toNat - 0x10000) / 0x400),
        UInt16.ofNat (0xDC00 + (c.toNat - 0x10000) % 0x400)]

/-- The JavaScript string of a Lean string literal. -/
def js (s : String) : JsString := s.toList.flatMap units

/-- The code unit of a character of the basic plane. -/
def ch (c : Char) : UInt16 := UInt16.ofNat c.toNat

/-- `Array.from(s, c => c.codePointAt(0))`: surrogate pairs are combined, lone
surrogates stand for themselves. -/
def codePoints : JsString → List Nat
  | [] => []
  | [u] => [u.toNat]
  | u :: v :: rest =>
      if isHigh u && isLow v then pairPoint u v :: codePoints rest
      else u.toNat :: codePoints (v :: rest)

/-- The scalar value a code point is encoded as: U+FFFD for a surrogate. -/
def scalarOf (n : Nat) : Char :=
  if h : n.isValidChar then Char.ofNatAux n h else '\uFFFD'

/-- The scalar values the UTF-8 encoder writes for a string. -/
def scalars (s : JsString) : List Char := (codePoints s).map scalarOf

/-- No surrogate stands alone. -/
def WellFormed (s : JsString) : Prop := ∀ n ∈ codePoints s, n.isValidChar

instance (s : JsString) : Decidable (WellFormed s) :=
  inferInstanceAs (Decidable (∀ n ∈ codePoints s, n.isValidChar))

/-- `s.toWellFormed()`: every lone surrogate becomes U+FFFD. -/
def toWellFormed (s : JsString) : JsString := (scalars s).flatMap units

/-- `Buffer.from(s, 'utf8')`. -/
def encodeUtf8 (s : JsString) : Bytes := (scalars s).flatMap String.utf8EncodeChar

/-- The scalar values a byte sequence encodes; none when it is not UTF-8. -/
def decodeChars? (bytes : Bytes) : Option (List Char) :=
  bytes.toByteArray.utf8Decode?.map Array.toList

/-! ## Scalar values and their units -/

theorem toNat_lt_or (c : Char) :
    c.toNat < 0xD800 ∨ (0xDFFF < c.toNat ∧ c.toNat < 0x110000) := c.valid

theorem toNat_scalarOf {n : Nat} (h : n.isValidChar) : (scalarOf n).toNat = n := by
  rw [scalarOf, dif_pos h]
  rfl

theorem scalarOf_toNat (c : Char) : scalarOf c.toNat = c :=
  Char.toNat_inj.mp (toNat_scalarOf c.valid)

theorem units_bmp {c : Char} (h : c.toNat < 0x10000) :
    units c = [UInt16.ofNat c.toNat] := if_pos h

theorem units_astral {c : Char} (h : ¬ c.toNat < 0x10000) :
    units c = [UInt16.ofNat (0xD800 + (c.toNat - 0x10000) / 0x400),
      UInt16.ofNat (0xDC00 + (c.toNat - 0x10000) % 0x400)] := if_neg h

theorem toNat_ofNat16 {n : Nat} (h : n < 0x10000) : (UInt16.ofNat n).toNat = n :=
  UInt16.toNat_ofNat_of_lt' h

/-- The units of a scalar combine back to it, whatever follows. -/
theorem codePoints_units_append (c : Char) (s : JsString) :
    codePoints (units c ++ s) = c.toNat :: codePoints s := by
  have hc := toNat_lt_or c
  by_cases hb : c.toNat < 0x10000
  · have hu := toNat_ofNat16 hb
    have hh : isHigh (UInt16.ofNat c.toNat) = false := by
      rw [Bool.eq_false_iff, ne_eq, isHigh_iff, hu]; omega
    rw [units_bmp hb]
    cases s with
    | nil => simp only [List.append_nil, codePoints, hu]
    | cons v s => simp only [List.cons_append, List.nil_append, codePoints, hh, hu,
        Bool.false_and, Bool.false_eq_true, if_false]
  · have h1 := toNat_ofNat16 (n := 0xD800 + (c.toNat - 0x10000) / 0x400) (by omega)
    have h2 := toNat_ofNat16 (n := 0xDC00 + (c.toNat - 0x10000) % 0x400) (by omega)
    have hh : isHigh (UInt16.ofNat (0xD800 + (c.toNat - 0x10000) / 0x400)) = true := by
      rw [isHigh_iff, h1]; omega
    have hl : isLow (UInt16.ofNat (0xDC00 + (c.toNat - 0x10000) % 0x400)) = true := by
      rw [isLow_iff, h2]; omega
    rw [units_astral hb]
    simp only [List.cons_append, List.nil_append, codePoints, hh, hl, Bool.and_self, if_true,
      pairPoint_eq, h1, h2, List.cons.injEq, and_true]
    omega

theorem codePoints_flatMap_units (cs : List Char) :
    codePoints (cs.flatMap units) = cs.map Char.toNat := by
  induction cs with
  | nil => rfl
  | cons c cs ih => rw [List.flatMap_cons, codePoints_units_append, ih, List.map_cons]

@[simp] theorem scalars_flatMap_units (cs : List Char) : scalars (cs.flatMap units) = cs := by
  rw [scalars, codePoints_flatMap_units, List.map_map]
  exact (List.map_congr_left fun c _ => scalarOf_toNat c).trans (List.map_id cs)

theorem wellFormed_flatMap_units (cs : List Char) : WellFormed (cs.flatMap units) := by
  intro n hn
  rw [codePoints_flatMap_units] at hn
  obtain ⟨c, -, rfl⟩ := List.mem_map.mp hn
  exact c.valid

/-- A code unit that is a valid scalar value is the single unit of it. -/
theorem units_scalarOf_unit {u : UInt16} (h : u.toNat.isValidChar) :
    units (scalarOf u.toNat) = [u] := by
  have hlt : u.toNat < 0x10000 := u.toNat_lt
  rw [units_bmp (by rw [toNat_scalarOf h]; exact hlt), toNat_scalarOf h, UInt16.ofNat_toNat]

theorem pairPoint_valid {h l : UInt16} (hh : isHigh h = true) (hl : isLow l = true) :
    (pairPoint h l).isValidChar := by
  rw [isHigh_iff] at hh
  rw [isLow_iff] at hl
  right
  rw [pairPoint_eq]
  omega

theorem units_scalarOf_pairPoint {h l : UInt16} (hh : isHigh h = true) (hl : isLow l = true) :
    units (scalarOf (pairPoint h l)) = [h, l] := by
  have hv := toNat_scalarOf (pairPoint_valid hh hl)
  rw [isHigh_iff] at hh
  rw [isLow_iff] at hl
  have hge : ¬ (scalarOf (pairPoint h l)).toNat < 0x10000 := by
    rw [hv, pairPoint_eq]; omega
  have e1 : 0xD800 + (pairPoint h l - 0x10000) / 0x400 = h.toNat := by
    rw [pairPoint_eq]; omega
  have e2 : 0xDC00 + (pairPoint h l - 0x10000) % 0x400 = l.toNat := by
    rw [pairPoint_eq]; omega
  rw [units_astral hge, hv, e1, e2, UInt16.ofNat_toNat, UInt16.ofNat_toNat]

/-- A well-formed string is the units of its scalars. -/
theorem WellFormed.flatMap_units_scalars {s : JsString} (h : WellFormed s) :
    (scalars s).flatMap units = s := by
  unfold WellFormed at h
  unfold scalars
  induction s using codePoints.induct with
  | case1 => rfl
  | case2 u =>
    have hu : u.toNat.isValidChar := h u.toNat (by simp [codePoints])
    simp [codePoints, units_scalarOf_unit hu]
  | case3 u v rest hp ih =>
    simp only [codePoints, if_pos hp, List.mem_cons, forall_eq_or_imp] at h ⊢
    simp only [Bool.and_eq_true] at hp
    rw [List.map_cons, List.flatMap_cons, units_scalarOf_pairPoint hp.1 hp.2, ih h.2]
    rfl
  | case4 u v rest hp ih =>
    simp only [codePoints, if_neg hp, List.mem_cons, forall_eq_or_imp] at h ⊢
    rw [List.map_cons, List.flatMap_cons, units_scalarOf_unit h.1, ih h.2]
    rfl

theorem wellFormed_iff (s : JsString) : WellFormed s ↔ ∃ cs : List Char, s = cs.flatMap units := by
  constructor
  · intro h; exact ⟨scalars s, h.flatMap_units_scalars.symm⟩
  · rintro ⟨cs, rfl⟩; exact wellFormed_flatMap_units cs

@[simp] theorem encodeUtf8_flatMap_units (cs : List Char) :
    encodeUtf8 (cs.flatMap units) = cs.flatMap String.utf8EncodeChar := by
  simp [encodeUtf8]

theorem wellFormed_nil : WellFormed [] := by decide

theorem WellFormed.append {s t : JsString} (hs : WellFormed s) (ht : WellFormed t) :
    WellFormed (s ++ t) := by
  obtain ⟨cs, rfl⟩ := (wellFormed_iff s).mp hs
  obtain ⟨ds, rfl⟩ := (wellFormed_iff t).mp ht
  rw [← List.flatMap_append]
  exact wellFormed_flatMap_units _

/-- Units below the surrogates are scalar values. -/
theorem wellFormed_of_lt {s : JsString} (h : ∀ u ∈ s, u.toNat < 0xD800) : WellFormed s := by
  rw [wellFormed_iff]
  refine ⟨s.map fun u => scalarOf u.toNat, ?_⟩
  induction s with
  | nil => rfl
  | cons u s ih =>
      have hu : u.toNat.isValidChar := .inl (h u List.mem_cons_self)
      rw [List.map_cons, List.flatMap_cons, units_scalarOf_unit hu,
        ← ih fun v hv => h v (List.mem_cons_of_mem _ hv), List.singleton_append]

theorem wellFormed_js (s : String) : WellFormed (js s) := wellFormed_flatMap_units _

theorem wellFormed_one {c : Char} (h : (ch c).toNat < 0xD800) : WellFormed [ch c] :=
  wellFormed_of_lt fun _ hu => List.mem_singleton.mp hu ▸ h

theorem WellFormed.cons {c : Char} (h : (ch c).toNat < 0xD800) {s : JsString}
    (hs : WellFormed s) : WellFormed (ch c :: s) := (wellFormed_one h).append hs

theorem toWellFormed_of_wellFormed {s : JsString} (h : WellFormed s) : toWellFormed s = s :=
  h.flatMap_units_scalars

theorem units_ne_nil (c : Char) : units c ≠ [] := by
  unfold units
  split <;> simp

theorem toWellFormed_ne_nil {s : JsString} (h : s ≠ []) : toWellFormed s ≠ [] := by
  have hscalars : scalars s ≠ [] := by
    unfold scalars
    fun_cases codePoints s <;> simp_all
  obtain ⟨c, cs, hcs⟩ := List.exists_cons_of_ne_nil hscalars
  rw [toWellFormed, hcs, List.flatMap_cons]
  exact List.append_ne_nil_of_left_ne_nil (units_ne_nil c) _

/-! ## The fatal decoder -/

/-- The decoder accepts exactly the encodings, and returns what they encode. -/
theorem decodeChars?_eq_some_iff (bytes : Bytes) (cs : List Char) :
    decodeChars? bytes = some cs ↔ bytes = cs.flatMap String.utf8EncodeChar := by
  have henc : ∀ ds : List Char, decodeChars? (ds.flatMap String.utf8EncodeChar) = some ds := by
    intro ds
    have h : (ds.flatMap String.utf8EncodeChar).toByteArray.utf8Decode? = some ds.toArray :=
      List.utf8Decode?_utf8Encode
    simp [decodeChars?, h]
  constructor
  · intro h
    have hs : bytes.toByteArray.utf8Decode?.isSome := by
      unfold decodeChars? at h
      cases hd : bytes.toByteArray.utf8Decode? with
      | none => simp [hd] at h
      | some a => rfl
    obtain ⟨ds, hds⟩ := ByteArray.isSome_utf8Decode?_iff.mp hs
    have hb : bytes = ds.flatMap String.utf8EncodeChar := by
      simpa [List.utf8Encode] using congrArg (fun b => b.data.toList) hds
    rw [hb, henc ds, Option.some.injEq] at h
    rw [hb, h]
  · rintro rfl; exact henc cs

/-- An ASCII byte is the code of its own character. -/
theorem toNat_of_mem_utf8EncodeChar {c : Char} {b : UInt8} (hb : b.toNat < 0x80)
    (h : b ∈ String.utf8EncodeChar c) : c.toNat = b.toNat := by
  have hv : c.val.toNat = c.toNat := rfl
  unfold String.utf8EncodeChar at h
  simp only [hv] at h
  split at h
  · obtain rfl := List.mem_singleton.mp h
    rw [UInt8.toNat_ofNat']
    omega
  · split at h
    · simp only [List.mem_cons, List.not_mem_nil, or_false] at h
      obtain rfl | rfl := h <;> rw [UInt8.toNat_ofNat'] at hb <;> omega
    · split at h
      · simp only [List.mem_cons, List.not_mem_nil, or_false] at h
        obtain rfl | rfl | rfl := h <;> rw [UInt8.toNat_ofNat'] at hb <;> omega
      · simp only [List.mem_cons, List.not_mem_nil, or_false] at h
        obtain rfl | rfl | rfl | rfl := h <;> rw [UInt8.toNat_ofNat'] at hb <;> omega
/-! ## The two codes -/

/-- UTF-16 over scalar values: a low surrogate never starts a codeword. -/
def utf16 : SelfSync Char UInt16 where
  word := units
  lead u := isLow u = false
  word_shape c := by
    have hc := toNat_lt_or c
    by_cases hb : c.toNat < 0x10000
    · refine ⟨_, [], units_bmp hb, ?_, by simp⟩
      rw [Bool.eq_false_iff, ne_eq, isLow_iff, toNat_ofNat16 hb]; omega
    · refine ⟨_, [_], units_astral hb, ?_, ?_⟩
      · rw [Bool.eq_false_iff, ne_eq, isLow_iff, toNat_ofNat16 (by omega)]; omega
      · intro u hu
        rw [List.mem_singleton] at hu
        rw [Bool.eq_false_iff, ne_eq, not_not, hu, isLow_iff, toNat_ofNat16 (by omega)]; omega
  prefix_free c d := by
    rintro ⟨t, ht⟩
    have h := congrArg codePoints ht
    have hd : codePoints (units d) = [d.toNat] := by
      simpa [codePoints] using codePoints_units_append d []
    rw [codePoints_units_append, hd, List.cons.injEq] at h
    exact Char.toNat_inj.mp h.1

/-- UTF-8 over scalar values: a continuation byte never starts a codeword. -/
def utf8 : SelfSync Char UInt8 where
  word := String.utf8EncodeChar
  lead := UInt8.IsUTF8FirstByte
  word_shape c := by
    cases hw : String.utf8EncodeChar c with
    | nil =>
      have := congrArg List.length hw
      simp [String.length_utf8EncodeChar] at this
      exact absurd this (by have := c.utf8Size_pos; omega)
    | cons b bs =>
      have hfirst : ∀ (i : Nat) (hi : i < (b :: bs).length),
          ((b :: bs)[i]).IsUTF8FirstByte ↔ i = 0 := by
        intro i hi
        simp only [← hw]
        exact UInt8.isUTF8FirstByte_getElem_utf8EncodeChar
      refine ⟨b, bs, rfl, (hfirst 0 (by simp)).mpr rfl, ?_⟩
      intro d hd
      obtain ⟨i, hi, rfl⟩ := List.getElem_of_mem hd
      have h := (hfirst (i + 1) (by simpa using hi)).not.mpr (by omega)
      simpa using h
  prefix_free c d := by
    rintro ⟨t, ht⟩
    have h := @ByteArray.utf8DecodeChar?_utf8EncodeChar_append t.toByteArray c
    have h' := @ByteArray.utf8DecodeChar?_utf8EncodeChar_append ByteArray.empty d
    rw [← List.toByteArray_append, ht] at h
    rw [ByteArray.append_empty, h] at h'
    exact Option.some.inj h'

theorem utf16_encode (cs : List Char) : utf16.encode cs = cs.flatMap units := rfl

theorem utf8_encode (cs : List Char) : utf8.encode cs = cs.flatMap String.utf8EncodeChar := rfl

/-! ## Joining strings -/

/-- The last unit is a high surrogate. -/
def endsHigh (s : JsString) : Bool := s.getLast?.any isHigh

/-- The first unit is a low surrogate. -/
def startsLow (s : JsString) : Bool := s.head?.any isLow

@[simp] theorem endsHigh_nil : endsHigh [] = false := rfl

@[simp] theorem startsLow_nil : startsLow [] = false := rfl

@[simp] theorem startsLow_cons (u : UInt16) (s : JsString) : startsLow (u :: s) = isLow u := rfl

@[simp] theorem endsHigh_singleton (u : UInt16) : endsHigh [u] = isHigh u := rfl

@[simp] theorem endsHigh_cons_cons (u v : UInt16) (s : JsString) :
    endsHigh (u :: v :: s) = endsHigh (v :: s) := by
  simp [endsHigh]

theorem codePoints_cons_of_not_pair {u : UInt16} {s : JsString}
    (h : ¬ (isHigh u = true ∧ startsLow s = true)) :
    codePoints (u :: s) = u.toNat :: codePoints s := by
  cases s with
  | nil => rfl
  | cons v s =>
    have hp : ¬ (isHigh u && isLow v) = true := by simpa using h
    rw [codePoints, if_neg hp]

/-- Code points of two strings that do not meet in a surrogate pair. -/
theorem codePoints_append {a b : JsString} (h : ¬ (endsHigh a = true ∧ startsLow b = true)) :
    codePoints (a ++ b) = codePoints a ++ codePoints b := by
  induction a using codePoints.induct with
  | case1 => rfl
  | case2 u => simpa [codePoints] using codePoints_cons_of_not_pair h
  | case3 u v rest hp ih =>
    have hrest : ¬ (endsHigh rest = true ∧ startsLow b = true) := by
      cases rest with
      | nil => simp
      | cons w rest => simpa using h
    simp only [List.cons_append, codePoints, if_pos hp, ih hrest]
  | case4 u v rest hp ih =>
    rw [endsHigh_cons_cons] at h
    simp only [List.cons_append, codePoints, if_neg hp] at ih ⊢
    rw [ih h]

theorem encodeUtf8_append {a b : JsString} (h : ¬ (endsHigh a = true ∧ startsLow b = true)) :
    encodeUtf8 (a ++ b) = encodeUtf8 a ++ encodeUtf8 b := by
  simp [encodeUtf8, scalars, codePoints_append h]

end Benchhand.Text
