/-
Benchhand.Text.Order — codes that keep the order of symbols.

When a self-synchronising code writes a smaller symbol as a smaller codeword,
the code of a smaller list is a smaller list (`SelfSync.encode_lt`): codewords
are no prefixes of each other, so two codes first differ inside the codewords
of the first two symbols that differ. UTF-8 is such a code
(`utf8_word_lt`), and so `compareBytes` orders encoded strings as their scalar
values are ordered.
-/
import Benchhand.Text.Unicode
import Mathlib.Data.List.Lex

namespace Benchhand.Text

/-! ## Lists -/

section
variable {α β : Type} [LT α] [LT β]

theorem append_lt_append {l m : List β} (h : l < m) : ∀ w : List β, w ++ l < w ++ m
  | [] => h
  | _ :: w => List.cons_lt_cons_iff.mpr (.inr ⟨rfl, append_lt_append h w⟩)

/-- Lists that differ before either ends stay in order when they go on. -/
theorem append_lt_of_not_prefix : ∀ {l m : List β}, l < m → ¬ l <+: m →
    ∀ r r' : List β, l ++ r < m ++ r'
  | [], m, _, hprefix, _, _ => absurd (List.nil_prefix (l := m)) hprefix
  | _ :: _, [], h, _, _, _ => absurd h (List.not_lt_nil _)
  | a :: l, b :: m, h, hprefix, r, r' => by
      obtain hlt | ⟨rfl, hlt⟩ := List.cons_lt_cons_iff.mp h
      · exact List.cons_lt_cons_iff.mpr (.inl hlt)
      · have hrest : ¬ l <+: m := fun hp => hprefix (List.cons_prefix_cons.mpr ⟨rfl, hp⟩)
        exact List.cons_lt_cons_iff.mpr (.inr ⟨rfl, append_lt_of_not_prefix hlt hrest r r'⟩)

/-- A map that keeps and reflects the order of elements keeps that of lists. -/
theorem map_lt_map_iff {f : α → β} (hf : Function.Injective f) (hlt : ∀ a b, f a < f b ↔ a < b) :
    ∀ {l m : List α}, l.map f < m.map f ↔ l < m
  | [], [] => by simp
  | [], _ :: _ => by simp
  | _ :: _, [] => by simp
  | a :: l, b :: m => by
      rw [List.map_cons, List.map_cons, List.cons_lt_cons_iff, List.cons_lt_cons_iff, hlt,
        hf.eq_iff, map_lt_map_iff hf hlt]

/-- The code of a smaller list is smaller. -/
theorem SelfSync.encode_lt (S : SelfSync α β) (hirrefl : ∀ a : α, ¬ a < a)
    (hword : ∀ a b, a < b → S.word a < S.word b) : ∀ {xs ys : List α}, xs < ys →
      S.encode xs < S.encode ys
  | _, [], h => absurd h (List.not_lt_nil _)
  | [], y :: ys, _ => by
      obtain ⟨b, bs, hb, -, -⟩ := S.word_shape y
      rw [S.encode_nil, S.encode_cons, hb]
      exact List.nil_lt_cons _ _
  | x :: xs, y :: ys, h => by
      rw [S.encode_cons, S.encode_cons]
      obtain hlt | ⟨rfl, hlt⟩ := List.cons_lt_cons_iff.mp h
      · refine append_lt_of_not_prefix (hword x y hlt) (fun hp => ?_) _ _
        exact hirrefl x (S.prefix_free x y hp ▸ hlt)
      · exact append_lt_append (S.encode_lt hirrefl hword hlt) _

end

/-! ## UTF-8 -/

theorem uint8_lt_iff (a b : UInt8) : a.toNat < b.toNat ↔ a < b := UInt8.lt_iff_toNat_lt.symm

/-- The first digit of base `b` that differs decides. -/
theorem lt_digits (b : Nat) {v w : Nat} (h : v < w) :
    v / b < w / b ∨ v / b = w / b ∧ v % b < w % b := by
  obtain hlt | heq := Nat.lt_or_eq_of_le (Nat.div_le_div_right (c := b) (Nat.le_of_lt h))
  · exact .inl hlt
  · have hv := Nat.div_add_mod v b
    have hw := Nat.div_add_mod w b
    rw [heq] at hv
    exact .inr ⟨heq, by omega⟩

/-- The digits that an encoding of four bytes has. -/
theorem lt_sextets {v w : Nat} (h : v < w) : v / 262144 < w / 262144 ∨
    v / 262144 = w / 262144 ∧ (v / 4096 % 64 < w / 4096 % 64 ∨
      v / 4096 % 64 = w / 4096 % 64 ∧ (v / 64 % 64 < w / 64 % 64 ∨
        v / 64 % 64 = w / 64 % 64 ∧ v % 64 < w % 64)) := by
  have hdiv (n : Nat) : n / 64 / 64 = n / 4096 := Nat.div_div_eq_div_mul n 64 64
  have hdiv' (n : Nat) : n / 4096 / 64 = n / 262144 := Nat.div_div_eq_div_mul n 4096 64
  obtain h | ⟨heq, h⟩ := lt_digits 64 h
  · obtain h | ⟨heq, h⟩ := lt_digits 64 h
    · rw [hdiv, hdiv] at h
      obtain h | ⟨heq, h⟩ := lt_digits 64 h
      · rw [hdiv', hdiv'] at h
        exact .inl h
      · rw [hdiv', hdiv'] at heq
        exact .inr ⟨heq, .inl h⟩
    · rw [hdiv, hdiv] at heq
      exact .inr ⟨by rw [← hdiv', ← hdiv', heq], .inr ⟨by rw [heq], .inl h⟩⟩
  · have hnext : v / 4096 = w / 4096 := by rw [← hdiv, ← hdiv, heq]
    exact .inr ⟨by rw [← hdiv', ← hdiv', hnext], .inr ⟨by rw [hnext], .inr ⟨by rw [heq], h⟩⟩⟩

/-- A smaller scalar value has a smaller encoding. -/
theorem utf8_word_lt (c d : Char) (h : c.toNat < d.toNat) : utf8.word c < utf8.word d := by
  have hc : c.val.toNat = c.toNat := rfl
  have hd : d.val.toNat = d.toNat := rfl
  have hcmax := toNat_lt_or c
  have hdmax := toNat_lt_or d
  have hdigits := lt_sextets h
  rw [← map_lt_map_iff (fun a b => UInt8.toNat_inj.mp) uint8_lt_iff]
  change (String.utf8EncodeChar c).map _ < (String.utf8EncodeChar d).map _
  unfold String.utf8EncodeChar
  dsimp only
  rw [hc, hd]
  -- the lead bytes of longer encodings are larger; of two of one length the
  -- first digit that differs decides
  have hbyte (n : Nat) : (n % 64 + 128) % 2 ^ 8 = n % 64 + 128 := by omega
  have hlead (n : Nat) (hn : n < 0x110000) : (n / 262144 % 8 + 240) % 2 ^ 8 = n / 262144 + 240 := by
    omega
  split_ifs <;> simp only [List.map_cons, List.map_nil, List.cons_lt_cons_iff, UInt8.toNat_ofNat',
    List.not_lt_nil, and_false, or_false, hbyte, hlead c.toNat (by omega),
    hlead d.toNat (by omega)] <;> omega

/-- `Buffer.compare(left, right)`. -/
def compareBytes : Bytes → Bytes → Int
  | [], [] => 0
  | [], _ :: _ => -1
  | _ :: _, [] => 1
  | a :: left, b :: right => if a < b then -1 else if b < a then 1 else compareBytes left right

theorem compareBytes_of_lt : ∀ {left right : Bytes}, left < right → compareBytes left right = -1
  | _, [], h => absurd h (List.not_lt_nil _)
  | [], _ :: _, _ => rfl
  | a :: left, b :: right, h => by
      rw [compareBytes]
      obtain hlt | ⟨rfl, hlt⟩ := List.cons_lt_cons_iff.mp h
      · exact if_pos hlt
      · rw [if_neg (UInt8.lt_irrefl a), if_neg (UInt8.lt_irrefl a), compareBytes_of_lt hlt]

theorem compareBytes_self : ∀ bytes : Bytes, compareBytes bytes bytes = 0
  | [] => rfl
  | a :: bytes => by
      rw [compareBytes, if_neg (UInt8.lt_irrefl a), if_neg (UInt8.lt_irrefl a),
        compareBytes_self bytes]

theorem compareBytes_of_gt : ∀ {left right : Bytes}, right < left → compareBytes left right = 1
  | [], _, h => absurd h (List.not_lt_nil _)
  | _ :: _, [], _ => rfl
  | a :: left, b :: right, h => by
      rw [compareBytes]
      obtain hlt | ⟨rfl, hlt⟩ := List.cons_lt_cons_iff.mp h
      · rw [if_neg (UInt8.lt_asymm hlt), if_pos hlt]
      · rw [if_neg (UInt8.lt_irrefl b), if_neg (UInt8.lt_irrefl b), compareBytes_of_gt hlt]

/-! ## Well-formed strings -/

/-- The code points of a well-formed string are its scalar values. -/
theorem WellFormed.codePoints_eq {s : JsString} (h : WellFormed s) :
    codePoints s = (scalars s).map Char.toNat := by
  rw [scalars, List.map_map]
  refine (List.map_id _).symm.trans (List.map_congr_left fun n hn => ?_)
  exact (toNat_scalarOf (h n hn)).symm

/-- The order of code points is that of the bytes in UTF-8. -/
theorem encodeUtf8_lt {a b : JsString} (ha : WellFormed a) (hb : WellFormed b)
    (h : codePoints a < codePoints b) : encodeUtf8 a < encodeUtf8 b := by
  rw [ha.codePoints_eq, hb.codePoints_eq,
    map_lt_map_iff (fun c d => Char.toNat_inj.mp) fun c d => Iff.rfl] at h
  exact utf8.encode_lt (fun c => Char.lt_irrefl c) (fun c d hcd => utf8_word_lt c d hcd) h

end Benchhand.Text
