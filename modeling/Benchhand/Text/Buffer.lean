/-
Benchhand.Text.Buffer — the strings of a Buffer.

`base64Url` is `buffer.toString('base64url')` and `ofBase64` is
`Buffer.from(s, 'base64url')`, which also reads the characters of plain base64
and passes over every other unit. `decodeUtf8Lossy` is
`buffer.toString('utf8')`: each ill-formed part becomes U+FFFD, as long a part
as the start of a well-formed sequence. Encoding and reading back gives the
same bytes and the same string. `decodeUtf8Fatal` is the decoder that throws
instead; it drops a byte order mark at the start.
-/
import Benchhand.Text.Unicode

namespace Benchhand.Text

/-! ## Base64 -/

/-- The base64url character of a number below 64. -/
def base64Digit (n : Nat) : UInt16 :=
  if n < 26 then UInt16.ofNat (65 + n)
  else if n < 52 then UInt16.ofNat (71 + n)
  else if n < 62 then UInt16.ofNat (n - 4)
  else if n = 62 then ch '-'
  else ch '_'

/-- The number of a character of either alphabet. -/
def base64Value (u : UInt16) : Option Nat :=
  let n := u.toNat
  if 65 ≤ n ∧ n ≤ 90 then some (n - 65)
  else if 97 ≤ n ∧ n ≤ 122 then some (n - 71)
  else if 48 ≤ n ∧ n ≤ 57 then some (n + 4)
  else if u = ch '-' ∨ u = ch '+' then some 62
  else if u = ch '_' ∨ u = ch '/' then some 63
  else none

/-- Three bytes as four numbers below 64; a shorter rest is filled with zero
bits. -/
def sextets : Bytes → List Nat
  | [] => []
  | [a] => [a.toNat / 4, a.toNat % 4 * 16]
  | [a, b] => [a.toNat / 4, a.toNat % 4 * 16 + b.toNat / 16, b.toNat % 16 * 4]
  | a :: b :: c :: rest =>
      (a.toNat / 4) :: (a.toNat % 4 * 16 + b.toNat / 16) ::
        (b.toNat % 16 * 4 + c.toNat / 64) :: (c.toNat % 64) :: sextets rest

/-- Bits that do not make up a byte are dropped. -/
def ofSextets : List Nat → Bytes
  | w :: x :: y :: z :: rest =>
      UInt8.ofNat (w * 4 + x / 16) :: UInt8.ofNat (x % 16 * 16 + y / 4) ::
        UInt8.ofNat (y % 4 * 64 + z) :: ofSextets rest
  | [w, x, y] => [UInt8.ofNat (w * 4 + x / 16), UInt8.ofNat (x % 16 * 16 + y / 4)]
  | [w, x] => [UInt8.ofNat (w * 4 + x / 16)]
  | _ => []

def base64Url (bytes : Bytes) : JsString := (sextets bytes).map base64Digit

def ofBase64 (s : JsString) : Bytes := ofSextets (s.filterMap base64Value)

theorem base64Value_digit : ∀ n < 64, base64Value (base64Digit n) = some n := by decide

theorem sextets_lt : ∀ (bytes : Bytes), ∀ n ∈ sextets bytes, n < 64
  | [] => fun _ h => absurd h List.not_mem_nil
  | [a] => by
      have ha := a.toNat_lt
      simp only [sextets, List.mem_cons, List.not_mem_nil, or_false]
      omega
  | [a, b] => by
      have ha := a.toNat_lt
      have hb := b.toNat_lt
      simp only [sextets, List.mem_cons, List.not_mem_nil, or_false]
      omega
  | a :: b :: c :: rest => by
      have ha := a.toNat_lt
      have hb := b.toNat_lt
      have hc := c.toNat_lt
      intro n hn
      simp only [sextets, List.mem_cons] at hn
      obtain rfl | rfl | rfl | rfl | hn := hn
      · omega
      · omega
      · omega
      · omega
      · exact sextets_lt rest n hn

theorem ofNat_eq_of_toNat {b : UInt8} {n : Nat} (h : n = b.toNat) : UInt8.ofNat n = b := by
  rw [h, UInt8.ofNat_toNat]

theorem ofSextets_sextets : ∀ bytes : Bytes, ofSextets (sextets bytes) = bytes
  | [] => rfl
  | [a] => by
      simp only [sextets, ofSextets, List.cons.injEq, and_true]
      exact ofNat_eq_of_toNat (by omega)
  | [a, b] => by
      have hb := b.toNat_lt
      simp only [sextets, ofSextets, List.cons.injEq, and_true]
      exact ⟨ofNat_eq_of_toNat (by omega), ofNat_eq_of_toNat (by omega)⟩
  | a :: b :: c :: rest => by
      have hb := b.toNat_lt
      have hc := c.toNat_lt
      simp only [sextets, ofSextets, ofSextets_sextets rest, List.cons.injEq, and_true]
      exact ⟨ofNat_eq_of_toNat (by omega), ofNat_eq_of_toNat (by omega),
        ofNat_eq_of_toNat (by omega)⟩

/-- The bytes written in base64url are read back. -/
theorem ofBase64_base64Url (bytes : Bytes) : ofBase64 (base64Url bytes) = bytes := by
  have hvalues : (base64Url bytes).filterMap base64Value = sextets bytes := by
    rw [base64Url, List.filterMap_map]
    have hall : ∀ l : List Nat, (∀ n ∈ l, n < 64) →
        l.filterMap (base64Value ∘ base64Digit) = l := by
      intro l
      induction l with
      | nil => exact fun _ => rfl
      | cons n l ih =>
          intro h
          rw [List.filterMap_cons, Function.comp_apply, base64Value_digit n (h n (by simp)),
            ih fun m hm => h m (List.mem_cons_of_mem n hm)]
    exact hall _ (sextets_lt bytes)
  rw [ofBase64, hvalues, ofSextets_sextets]

/-! ## Decoding with replacement -/

/-- A second byte that a well-formed sequence has after the first. -/
def isSecondByte (first second : UInt8) : Bool :=
  if first = 0xE0 then 0xA0 ≤ second && second ≤ 0xBF
  else if first = 0xED then 0x80 ≤ second && second ≤ 0x9F
  else if first = 0xF0 then 0x90 ≤ second && second ≤ 0xBF
  else if first = 0xF4 then 0x80 ≤ second && second ≤ 0x8F
  else 0xC2 ≤ first && first ≤ 0xF4 && (0x80 ≤ second && second ≤ 0xBF)

/-- How many bytes of an ill-formed sequence one U+FFFD stands for: its longest
part that a well-formed sequence starts with. -/
def illFormedLength : Bytes → Nat
  | first :: second :: rest =>
      if isSecondByte first second then
        match rest with
        | [] => 2
        | third :: _ => if 0xF0 ≤ first ∧ 0x80 ≤ third ∧ third ≤ 0xBF then 3 else 2
      else 1
  | _ => 1

def decodeLossyFrom : Nat → Bytes → List Char
  | 0, _ => []
  | _ + 1, [] => []
  | fuel + 1, b :: rest =>
      match (b :: rest).toByteArray.utf8DecodeChar? 0 with
      | some c => c :: decodeLossyFrom fuel ((b :: rest).drop c.utf8Size)
      | none => '\uFFFD' :: decodeLossyFrom fuel ((b :: rest).drop (illFormedLength (b :: rest)))

/-- `buffer.toString('utf8')`. -/
def decodeUtf8Lossy (bytes : Bytes) : JsString :=
  (decodeLossyFrom bytes.length bytes).flatMap units

theorem decodeLossyFrom_encode : ∀ (cs : List Char) (fuel : Nat),
    (cs.flatMap String.utf8EncodeChar).length ≤ fuel →
    decodeLossyFrom fuel (cs.flatMap String.utf8EncodeChar) = cs
  | [], 0, _ => rfl
  | [], _ + 1, _ => rfl
  | c :: cs, fuel, h => by
      rw [List.flatMap_cons] at h ⊢
      rw [List.length_append, String.length_utf8EncodeChar] at h
      have hpos := c.utf8Size_pos
      obtain ⟨fuel, rfl⟩ : ∃ n, fuel = n + 1 := ⟨fuel - 1, by omega⟩
      have hdecode := @ByteArray.utf8DecodeChar?_utf8EncodeChar_append
        (cs.flatMap String.utf8EncodeChar).toByteArray c
      rw [← List.toByteArray_append] at hdecode
      have hdrop : (String.utf8EncodeChar c ++ cs.flatMap String.utf8EncodeChar).drop c.utf8Size =
          cs.flatMap String.utf8EncodeChar := by
        rw [← String.length_utf8EncodeChar c, List.drop_left]
      have hrest := decodeLossyFrom_encode cs fuel (by omega)
      cases hw : String.utf8EncodeChar c ++ cs.flatMap String.utf8EncodeChar with
      | nil =>
          have hlen := congrArg List.length hw
          rw [List.length_append, String.length_utf8EncodeChar, List.length_nil] at hlen
          omega
      | cons b rest =>
          rw [hw] at hdecode hdrop
          rw [decodeLossyFrom, hdecode]
          dsimp only
          rw [hdrop, hrest]

/-- What is written without a lone surrogate is read back. -/
theorem decodeUtf8Lossy_encodeUtf8 {s : JsString} (h : WellFormed s) :
    decodeUtf8Lossy (encodeUtf8 s) = s := by
  rw [decodeUtf8Lossy, encodeUtf8, decodeLossyFrom_encode _ _ (Nat.le_refl _)]
  exact h.flatMap_units_scalars

/-! ## Decoding that throws -/

def byteOrderMark : Char := '\uFEFF'

/-- The scalar values behind a byte order mark. -/
def withoutMark (chars : List Char) : List Char :=
  if chars.head? = some byteOrderMark then chars.tail else chars

/-- `new TextDecoder('utf-8', { fatal: true }).decode(bytes)`; none when it
throws. -/
def decodeUtf8Fatal (bytes : Bytes) : Option JsString :=
  (decodeChars? bytes).map fun chars => (withoutMark chars).flatMap units

theorem decodeUtf8Fatal_eq_some_iff (bytes : Bytes) (s : JsString) :
    decodeUtf8Fatal bytes = some s ↔ ∃ chars : List Char,
      bytes = chars.flatMap String.utf8EncodeChar ∧ (withoutMark chars).flatMap units = s := by
  rw [decodeUtf8Fatal, Option.map_eq_some_iff]
  exact exists_congr fun chars => and_congr_left' (decodeChars?_eq_some_iff bytes chars)

end Benchhand.Text
