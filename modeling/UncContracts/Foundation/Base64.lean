import Mathlib.Algebra.Order.Ring.Nat
import Mathlib.Data.List.Basic

/-!
# Base64

The text of a list of bytes in the standard alphabet: four characters for three bytes, padded at the
end. The decoder is canonical: it wants the padding, and no bits under it. So each list of bytes is
the meaning of one text.

## Main definitions

* `Base64.encode`, `Base64.decode`: the text of bytes, and back

## Main results

* `Base64.decode_encode`: bytes are read back
* `Base64.encode_of_decode`: what is read is the text of its bytes
* `Base64.digit_or_pad_of_mem_encode`: of which characters a text is made
-/

namespace Foundation.Base64

/-- The characters for six bits. -/
def alphabet : List Char :=
  "ABCDEFGHIJKLMNOPQRSTUVWXYZabcdefghijklmnopqrstuvwxyz0123456789+/".toList

/-- The character that fills the last group. -/
def PAD : Char := '='

/-- The character of six bits. -/
def digit (n : ℕ) : Char := alphabet.getD n PAD

/-- The six bits of a character. -/
def sextet (c : Char) : Option ℕ := alphabet.idxOf? c

/-- The text of some bytes. -/
def encode : List UInt8 → List Char
  | [] => []
  | [a] => [digit (a.toNat / 4), digit (a.toNat % 4 * 16), PAD, PAD]
  | [a, b] =>
    [digit (a.toNat / 4), digit (a.toNat % 4 * 16 + b.toNat / 16), digit (b.toNat % 16 * 4), PAD]
  | a :: b :: c :: bytes =>
    digit (a.toNat / 4) :: digit (a.toNat % 4 * 16 + b.toNat / 16) ::
      digit (b.toNat % 16 * 4 + c.toNat / 64) :: digit (c.toNat % 64) :: encode bytes

/-- The byte of a group that is filled up with two characters. -/
def decodeOne (w x : Char) : Option (List UInt8) := do
  let w ← sextet w
  let x ← sextet x
  if x % 16 = 0 then some [.ofNat (w * 4 + x / 16)] else none

/-- The bytes of a group that is filled up with one character. -/
def decodeTwo (w x y : Char) : Option (List UInt8) := do
  let w ← sextet w
  let x ← sextet x
  let y ← sextet y
  if y % 4 = 0 then some [.ofNat (w * 4 + x / 16), .ofNat (x % 16 * 16 + y / 4)] else none

/-- The bytes of a full group. -/
def decodeThree (w x y z : Char) : Option (List UInt8) := do
  let w ← sextet w
  let x ← sextet x
  let y ← sextet y
  let z ← sextet z
  some [.ofNat (w * 4 + x / 16), .ofNat (x % 16 * 16 + y / 4), .ofNat (y % 4 * 64 + z)]

/-- The bytes of a text. -/
def decode : List Char → Option (List UInt8)
  | [] => some []
  | w :: x :: y :: z :: text =>
    if z = PAD ∧ text = [] then
      if y = PAD then decodeOne w x else decodeTwo w x y
    else do
      let bytes ← decodeThree w x y z
      let rest ← decode text
      return bytes ++ rest
  | _ => none

section Digits

variable {n : ℕ} {c : Char}

theorem sextet_digit (h : n < 64) : sextet (digit n) = some n := by
  have hall : ∀ n < 64, sextet (digit n) = some n := by decide +kernel
  exact hall n h

theorem digit_ne_pad (h : n < 64) : digit n ≠ PAD := by
  have hall : ∀ n < 64, digit n ≠ PAD := by decide +kernel
  exact hall n h

/-- A text is made of the characters for six bits, and padded. -/
theorem digit_or_pad_of_mem_encode {bytes : List UInt8} (h : c ∈ encode bytes) :
    c = PAD ∨ ∃ n < 64, digit n = c := by
  induction bytes using encode.induct with
  | case1 => cases h
  | case2 a =>
    have ha := a.toNat_lt
    simp only [encode, List.mem_cons, List.not_mem_nil, or_false] at h
    rcases h with rfl | rfl | rfl | rfl
    · exact .inr ⟨_, by omega, rfl⟩
    · exact .inr ⟨_, by omega, rfl⟩
    · exact .inl rfl
    · exact .inl rfl
  | case3 a b =>
    have ha := a.toNat_lt
    have hb := b.toNat_lt
    simp only [encode, List.mem_cons, List.not_mem_nil, or_false] at h
    rcases h with rfl | rfl | rfl | rfl
    · exact .inr ⟨_, by omega, rfl⟩
    · exact .inr ⟨_, by omega, rfl⟩
    · exact .inr ⟨_, by omega, rfl⟩
    · exact .inl rfl
  | case4 a b c' bytes ih =>
    have ha := a.toNat_lt
    have hb := b.toNat_lt
    have hc := c'.toNat_lt
    simp only [encode, List.mem_cons] at h
    rcases h with rfl | rfl | rfl | rfl | h
    · exact .inr ⟨_, by omega, rfl⟩
    · exact .inr ⟨_, by omega, rfl⟩
    · exact .inr ⟨_, by omega, rfl⟩
    · exact .inr ⟨_, by omega, rfl⟩
    · exact ih h

/-- A character that has six bits is the character of them. -/
theorem digit_of_sextet (h : sextet c = some n) : n < 64 ∧ digit n = c := by
  obtain ⟨hlt, hget, -⟩ := List.idxOf?_eq_some_iff.mp h
  refine ⟨hlt, ?_⟩
  rw [digit, List.getD_eq_getElem?_getD, List.getElem?_eq_getElem hlt, hget, Option.getD_some]

end Digits

/-! ## Reading the text of bytes -/

section Reading

variable {w x y z : ℕ}

theorem decodeOne_digit (hw : w < 64) (hx : x < 64) (hzero : x % 16 = 0) :
    decodeOne (digit w) (digit x) = some [.ofNat (w * 4 + x / 16)] := by
  simp [decodeOne, sextet_digit hw, sextet_digit hx, hzero]

theorem decodeTwo_digit (hw : w < 64) (hx : x < 64) (hy : y < 64) (hzero : y % 4 = 0) :
    decodeTwo (digit w) (digit x) (digit y) =
      some [.ofNat (w * 4 + x / 16), .ofNat (x % 16 * 16 + y / 4)] := by
  simp [decodeTwo, sextet_digit hw, sextet_digit hx, sextet_digit hy, hzero]

theorem decodeThree_digit (hw : w < 64) (hx : x < 64) (hy : y < 64) (hz : z < 64) :
    decodeThree (digit w) (digit x) (digit y) (digit z) =
      some [.ofNat (w * 4 + x / 16), .ofNat (x % 16 * 16 + y / 4), .ofNat (y % 4 * 64 + z)] := by
  simp [decodeThree, sextet_digit hw, sextet_digit hx, sextet_digit hy, sextet_digit hz]

/-- A byte is the number that its bits make. -/
theorem ofNat_eq {a : UInt8} {n : ℕ} (h : n = a.toNat) : UInt8.ofNat n = a := by
  rw [h, UInt8.ofNat_toNat]

/-- **Bytes are read back.** -/
theorem decode_encode (bytes : List UInt8) : decode (encode bytes) = some bytes := by
  induction bytes using encode.induct with
  | case1 => rfl
  | case2 a =>
    have ha := a.toNat_lt
    rw [encode, decode, if_pos ⟨rfl, rfl⟩, if_pos rfl,
      decodeOne_digit (by omega) (by omega) (by omega), ofNat_eq (a := a) (by omega)]
  | case3 a b =>
    have ha := a.toNat_lt
    have hb := b.toNat_lt
    rw [encode, decode, if_pos ⟨rfl, rfl⟩, if_neg (digit_ne_pad (by omega)),
      decodeTwo_digit (by omega) (by omega) (by omega) (by omega),
      ofNat_eq (a := a) (by omega), ofNat_eq (a := b) (by omega)]
  | case4 a b c bytes ih =>
    have ha := a.toNat_lt
    have hb := b.toNat_lt
    have hc := c.toNat_lt
    have hlast : ¬ (digit (c.toNat % 64) = PAD ∧ encode bytes = []) := fun h =>
      digit_ne_pad (by omega) h.1
    rw [encode, decode, if_neg hlast, decodeThree_digit (by omega) (by omega) (by omega) (by omega),
      ih, ofNat_eq (a := a) (by omega), ofNat_eq (a := b) (by omega), ofNat_eq (a := c) (by omega)]
    rfl

end Reading

/-! ## The text that is read -/

section Texts

variable {w x y z : Char} {bytes : List UInt8} {n : ℕ}

theorem toNat_ofNat (h : n < 256) : (UInt8.ofNat n).toNat = n := by
  rw [UInt8.toNat_ofNat', Nat.mod_eq_of_lt h]

theorem encode_of_decodeOne (h : decodeOne w x = some bytes) : encode bytes = [w, x, PAD, PAD] := by
  simp only [decodeOne, Option.bind_eq_bind, Option.bind_eq_some_iff] at h
  obtain ⟨w', hw, x', hx, h⟩ := h
  obtain ⟨hw', rfl⟩ := digit_of_sextet hw
  obtain ⟨hx', rfl⟩ := digit_of_sextet hx
  split_ifs at h with hzero
  cases h
  rw [encode, toNat_ofNat (by omega)]
  have h₁ : (w' * 4 + x' / 16) / 4 = w' := by omega
  have h₂ : (w' * 4 + x' / 16) % 4 * 16 = x' := by omega
  rw [h₁, h₂]

theorem encode_of_decodeTwo (h : decodeTwo w x y = some bytes) :
    encode bytes = [w, x, y, PAD] := by
  simp only [decodeTwo, Option.bind_eq_bind, Option.bind_eq_some_iff] at h
  obtain ⟨w', hw, x', hx, y', hy, h⟩ := h
  obtain ⟨hw', rfl⟩ := digit_of_sextet hw
  obtain ⟨hx', rfl⟩ := digit_of_sextet hx
  obtain ⟨hy', rfl⟩ := digit_of_sextet hy
  split_ifs at h with hzero
  cases h
  rw [encode, toNat_ofNat (by omega), toNat_ofNat (by omega)]
  have h₁ : (w' * 4 + x' / 16) / 4 = w' := by omega
  have h₂ : (w' * 4 + x' / 16) % 4 * 16 + (x' % 16 * 16 + y' / 4) / 16 = x' := by omega
  have h₃ : (x' % 16 * 16 + y' / 4) % 16 * 4 = y' := by omega
  rw [h₁, h₂, h₃]

theorem encode_of_decodeThree {rest : List UInt8} (h : decodeThree w x y z = some bytes) :
    encode (bytes ++ rest) = w :: x :: y :: z :: encode rest := by
  simp only [decodeThree, Option.bind_eq_bind, Option.bind_eq_some_iff] at h
  obtain ⟨w', hw, x', hx, y', hy, z', hz, h⟩ := h
  obtain ⟨hw', rfl⟩ := digit_of_sextet hw
  obtain ⟨hx', rfl⟩ := digit_of_sextet hx
  obtain ⟨hy', rfl⟩ := digit_of_sextet hy
  obtain ⟨hz', rfl⟩ := digit_of_sextet hz
  cases h
  simp only [List.cons_append, List.nil_append]
  rw [encode, toNat_ofNat (by omega), toNat_ofNat (by omega), toNat_ofNat (by omega)]
  have h₁ : (w' * 4 + x' / 16) / 4 = w' := by omega
  have h₂ : (w' * 4 + x' / 16) % 4 * 16 + (x' % 16 * 16 + y' / 4) / 16 = x' := by omega
  have h₃ : (x' % 16 * 16 + y' / 4) % 16 * 4 + (y' % 4 * 64 + z') / 64 = y' := by omega
  have h₄ : (y' % 4 * 64 + z') % 64 = z' := by omega
  rw [h₁, h₂, h₃, h₄]

/-- **What is read is the text of its bytes.** -/
theorem encode_of_decode {text : List Char} {bytes : List UInt8} (h : decode text = some bytes) :
    encode bytes = text := by
  induction text using decode.induct generalizing bytes with
  | case1 =>
    cases h
    rfl
  | case2 w x z text hlast =>
    obtain ⟨rfl, rfl⟩ := hlast
    rw [decode, if_pos ⟨rfl, rfl⟩, if_pos rfl] at h
    exact encode_of_decodeOne h
  | case3 w x y z text hlast hy =>
    obtain ⟨rfl, rfl⟩ := hlast
    rw [decode, if_pos ⟨rfl, rfl⟩, if_neg hy] at h
    exact encode_of_decodeTwo h
  | case4 w x y z text hlast ih =>
    rw [decode, if_neg hlast] at h
    simp only [Option.bind_eq_bind, Option.bind_eq_some_iff] at h
    obtain ⟨first, hfirst, rest, hrest, h⟩ := h
    cases h
    rw [encode_of_decodeThree hfirst, ih hrest]
  | case5 text hnil hcons =>
    match text, hnil, hcons, h with
    | [], hnil, _, _ => exact absurd rfl hnil
    | [_], _, _, h | [_, _], _, _, h | [_, _, _], _, _, h => cases h
    | w :: x :: y :: z :: text, _, hcons, _ => exact (hcons w x y z text rfl).elim

end Texts

end Foundation.Base64
