import Mathlib

/-! Padded base64 over the standard alphabet: groups of three bytes as four symbols, the last group
filled up with `=`. The decoder takes the canonical form only. -/
namespace Autopeer.Base64

section Alphabet

def symbol (n : ℕ) : Char :=
  if n < 26 then Char.ofNat (65 + n)
  else if n < 52 then Char.ofNat (97 + (n - 26))
  else if n < 62 then Char.ofNat (48 + (n - 52))
  else if n = 62 then '+'
  else '/'

def value (c : Char) : Option ℕ := (List.range 64).find? fun n => symbol n == c

lemma value_symbol {n : ℕ} (h : n < 64) : value (symbol n) = some n := by
  have hall : ∀ n ∈ List.range 64, value (symbol n) = some n := by decide
  exact hall n (List.mem_range.mpr h)

lemma symbol_of_value {c : Char} {n : ℕ} (h : value c = some n) : symbol n = c ∧ n < 64 := by
  unfold value at h
  have hc := List.find?_some h
  have hn := List.mem_of_find?_eq_some h
  exact ⟨by simpa using hc, List.mem_range.mp hn⟩

lemma symbol_ne_pad (n : ℕ) : symbol n ≠ '=' := by
  by_cases h : n < 64
  · have hall : ∀ n ∈ List.range 64, symbol n ≠ '=' := by decide
    exact hall n (List.mem_range.mpr h)
  · have : symbol n = '/' := by
      simp only [symbol, show ¬ n < 26 by omega, show ¬ n < 52 by omega, show ¬ n < 62 by omega,
        show n ≠ 62 by omega, if_false]
    rw [this]
    decide

lemma symbol_ascii (n : ℕ) : (symbol n).utf8Size = 1 := by
  by_cases h : n < 64
  · have hall : ∀ n ∈ List.range 64, (symbol n).utf8Size = 1 := by decide
    exact hall n (List.mem_range.mpr h)
  · have : symbol n = '/' := by
      simp only [symbol, show ¬ n < 26 by omega, show ¬ n < 52 by omega, show ¬ n < 62 by omega,
        show n ≠ 62 by omega, if_false]
    rw [this]
    decide

end Alphabet

section Encoder

def encodeChars : List UInt8 → List Char
  | [] => []
  | [a] => [symbol (a.toNat / 4), symbol (a.toNat % 4 * 16), '=', '=']
  | [a, b] =>
    [symbol (a.toNat / 4), symbol (a.toNat % 4 * 16 + b.toNat / 16), symbol (b.toNat % 16 * 4), '=']
  | a :: b :: c :: rest =>
    symbol (a.toNat / 4) :: symbol (a.toNat % 4 * 16 + b.toNat / 16) ::
      symbol (b.toNat % 16 * 4 + c.toNat / 64) :: symbol (c.toNat % 64) :: encodeChars rest

/-- The padded base64 text of some bytes. -/
def encode (bytes : List UInt8) : String := String.ofList (encodeChars bytes)

theorem length_encodeChars (bytes : List UInt8) :
    (encodeChars bytes).length = 4 * ((bytes.length + 2) / 3) := by
  induction bytes using encodeChars.induct with
  | case1 => rfl
  | case2 a => simp [encodeChars]
  | case3 a b => simp [encodeChars]
  | case4 a b c rest ih =>
    simp only [encodeChars, List.length_cons, ih]
    omega

lemma ascii_encodeChars (bytes : List UInt8) : ∀ c ∈ encodeChars bytes, c.utf8Size = 1 := by
  have hp : ('=' : Char).utf8Size = 1 := by decide
  induction bytes using encodeChars.induct with
  | case1 => simp [encodeChars]
  | case2 a => simp [encodeChars, symbol_ascii, hp]
  | case3 a b => simp [encodeChars, symbol_ascii, hp]
  | case4 a b c rest ih => simpa [encodeChars, symbol_ascii] using ih

lemma utf8Len_ascii {chars : List Char} (h : ∀ c ∈ chars, c.utf8Size = 1) :
    String.utf8Len chars = chars.length := by
  induction chars with
  | nil => rfl
  | cons c chars ih =>
    simp only [List.mem_cons, forall_eq_or_imp] at h
    simp only [String.utf8Len_cons, List.length_cons, ih h.2, h.1]

/-- Every started group of three bytes takes four bytes of text. -/
theorem utf8ByteSize_encode (bytes : List UInt8) :
    (encode bytes).utf8ByteSize = 4 * ((bytes.length + 2) / 3) := by
  rw [encode, String.utf8ByteSize_ofList, utf8Len_ascii (ascii_encodeChars bytes),
    length_encodeChars]

end Encoder

section Decoder

/-- The three bytes of four symbols. -/
def group (w x y z : ℕ) : UInt8 × UInt8 × UInt8 :=
  (.ofNat (w * 4 + x / 16), .ofNat (x % 16 * 16 + y / 4), .ofNat (y % 4 * 64 + z))

/-- The last group when it ends in padding; the bits that no byte uses are zero. -/
def decodePadded (w x : ℕ) (third fourth : Char) : Option (List UInt8) :=
  if third = '=' then
    if fourth = '=' ∧ x % 16 = 0 then some [(group w x 0 0).1] else none
  else
    match value third with
    | none => none
    | some y =>
      if y % 4 = 0 then some [(group w x y 0).1, (group w x y 0).2.1] else none

def decodeChars : List Char → Option (List UInt8)
  | [] => some []
  | first :: second :: third :: fourth :: rest =>
    match value first, value second with
    | some w, some x =>
      if fourth = '=' then
        if rest = [] then decodePadded w x third fourth else none
      else
        match value third, value fourth, decodeChars rest with
        | some y, some z, some bytes =>
          some ((group w x y z).1 :: (group w x y z).2.1 :: (group w x y z).2.2 :: bytes)
        | _, _, _ => none
    | _, _ => none
  | _ => none

/-- The bytes of a canonical padded base64 text. -/
def decode (text : String) : Option (List UInt8) := decodeChars text.toList

lemma ofNat_eq {a : UInt8} {n : ℕ} (h : n = a.toNat) : UInt8.ofNat n = a := by
  subst h
  exact UInt8.ofNat_toNat

lemma toNat_ofNat {n : ℕ} (h : n < 256) : (UInt8.ofNat n).toNat = n := by
  simpa using Nat.mod_eq_of_lt h

theorem decodeChars_encodeChars (bytes : List UInt8) :
    decodeChars (encodeChars bytes) = some bytes := by
  induction bytes using encodeChars.induct with
  | case1 => rfl
  | case2 a =>
    have ha := a.toNat_lt
    have hw := value_symbol (n := a.toNat / 4) (by omega)
    have hx := value_symbol (n := a.toNat % 4 * 16) (by omega)
    have hbyte : UInt8.ofNat (a.toNat / 4 * 4 + a.toNat % 4 * 16 / 16) = a := ofNat_eq (by omega)
    have hzero : a.toNat % 4 * 16 % 16 = 0 := by omega
    simp only [encodeChars, decodeChars, hw, hx, if_true, decodePadded, hzero, and_self, group,
      hbyte]
  | case3 a b =>
    have ha := a.toNat_lt
    have hb := b.toNat_lt
    have hw := value_symbol (n := a.toNat / 4) (by omega)
    have hx := value_symbol (n := a.toNat % 4 * 16 + b.toNat / 16) (by omega)
    have hy := value_symbol (n := b.toNat % 16 * 4) (by omega)
    have hfirst : UInt8.ofNat (a.toNat / 4 * 4 + (a.toNat % 4 * 16 + b.toNat / 16) / 16) = a :=
      ofNat_eq (by omega)
    have hsecond : UInt8.ofNat ((a.toNat % 4 * 16 + b.toNat / 16) % 16 * 16 +
        b.toNat % 16 * 4 / 4) = b := ofNat_eq (by omega)
    have hzero : b.toNat % 16 * 4 % 4 = 0 := by omega
    simp only [encodeChars, decodeChars, hw, hx, if_true, decodePadded, symbol_ne_pad, if_false,
      hy, hzero, group, hfirst, hsecond]
  | case4 a b c rest ih =>
    have ha := a.toNat_lt
    have hb := b.toNat_lt
    have hc := c.toNat_lt
    have hw := value_symbol (n := a.toNat / 4) (by omega)
    have hx := value_symbol (n := a.toNat % 4 * 16 + b.toNat / 16) (by omega)
    have hy := value_symbol (n := b.toNat % 16 * 4 + c.toNat / 64) (by omega)
    have hz := value_symbol (n := c.toNat % 64) (by omega)
    have hfirst : UInt8.ofNat (a.toNat / 4 * 4 + (a.toNat % 4 * 16 + b.toNat / 16) / 16) = a :=
      ofNat_eq (by omega)
    have hsecond : UInt8.ofNat ((a.toNat % 4 * 16 + b.toNat / 16) % 16 * 16 +
        (b.toNat % 16 * 4 + c.toNat / 64) / 4) = b := ofNat_eq (by omega)
    have hthird : UInt8.ofNat ((b.toNat % 16 * 4 + c.toNat / 64) % 4 * 64 + c.toNat % 64) = c :=
      ofNat_eq (by omega)
    simp only [encodeChars, decodeChars, hw, hx, symbol_ne_pad, if_false, hy, hz, ih, group,
      hfirst, hsecond, hthird]

lemma encodeChars_decodePadded {w x : ℕ} (hw : w < 64) (hx : x < 64) {third fourth : Char}
    {bytes : List UInt8} (hf : fourth = '=')
    (h : decodePadded w x third fourth = some bytes) :
    encodeChars bytes = [symbol w, symbol x, third, fourth] := by
  subst hf
  unfold decodePadded at h
  by_cases ht : third = '='
  · rw [if_pos ht] at h
    by_cases hzero : x % 16 = 0
    · rw [if_pos ⟨rfl, hzero⟩] at h
      obtain rfl := Option.some.inj h
      have hbyte : (UInt8.ofNat (w * 4 + x / 16)).toNat = w * 4 + x / 16 := toNat_ofNat (by omega)
      have hfirst : (w * 4 + x / 16) / 4 = w := by omega
      have hsecond : (w * 4 + x / 16) % 4 * 16 = x := by omega
      simp only [encodeChars, group, hbyte, hfirst, hsecond, ht]
    · rw [if_neg fun hc => hzero hc.2] at h
      cases h
  · rw [if_neg ht] at h
    cases hv : value third with
    | none =>
      rw [hv] at h
      cases h
    | some y =>
      rw [hv] at h
      simp only at h
      by_cases hzero : y % 4 = 0
      · rw [if_pos hzero] at h
        obtain rfl := Option.some.inj h
        obtain ⟨hsym, hy⟩ := symbol_of_value hv
        have hbyte : (UInt8.ofNat (w * 4 + x / 16)).toNat = w * 4 + x / 16 :=
          toNat_ofNat (by omega)
        have hnext : (UInt8.ofNat (x % 16 * 16 + y / 4)).toNat = x % 16 * 16 + y / 4 :=
          toNat_ofNat (by omega)
        have hfirst : (w * 4 + x / 16) / 4 = w := by omega
        have hsecond : (w * 4 + x / 16) % 4 * 16 + (x % 16 * 16 + y / 4) / 16 = x := by omega
        have hthird : (x % 16 * 16 + y / 4) % 16 * 4 = y := by omega
        simp only [encodeChars, group, hbyte, hnext, hfirst, hsecond, hthird, hsym]
      · rw [if_neg hzero] at h
        cases h

theorem encodeChars_decodeChars :
    ∀ (chars : List Char) {bytes : List UInt8},
      decodeChars chars = some bytes → encodeChars bytes = chars
  | [], bytes, h => by
    obtain rfl := Option.some.inj h
    rfl
  | [_], _, h | [_, _], _, h | [_, _, _], _, h => by cases h
  | first :: second :: third :: fourth :: rest, bytes, h => by
    unfold decodeChars at h
    cases hw : value first with
    | none => simp [hw] at h
    | some w =>
    cases hx : value second with
    | none => simp [hw, hx] at h
    | some x =>
    obtain ⟨hfirst, hwlt⟩ := symbol_of_value hw
    obtain ⟨hsecond, hxlt⟩ := symbol_of_value hx
    simp only [hw, hx] at h
    by_cases hpad : fourth = '='
    · rw [if_pos hpad] at h
      by_cases hrest : rest = []
      · rw [if_pos hrest] at h
        rw [encodeChars_decodePadded hwlt hxlt hpad h, hfirst, hsecond, hrest]
      · rw [if_neg hrest] at h
        cases h
    · rw [if_neg hpad] at h
      cases hy : value third with
      | none => simp [hy] at h
      | some y =>
      cases hz : value fourth with
      | none => simp [hy, hz] at h
      | some z =>
      cases hr : decodeChars rest with
      | none => simp [hy, hz, hr] at h
      | some more =>
      obtain ⟨hthird, hylt⟩ := symbol_of_value hy
      obtain ⟨hfourth, hzlt⟩ := symbol_of_value hz
      have ih := encodeChars_decodeChars rest hr
      simp only [hy, hz, hr, Option.some.injEq] at h
      subst h
      have ha : (UInt8.ofNat (w * 4 + x / 16)).toNat = w * 4 + x / 16 := toNat_ofNat (by omega)
      have hb : (UInt8.ofNat (x % 16 * 16 + y / 4)).toNat = x % 16 * 16 + y / 4 :=
        toNat_ofNat (by omega)
      have hc : (UInt8.ofNat (y % 4 * 64 + z)).toNat = y % 4 * 64 + z := toNat_ofNat (by omega)
      have h1 : (w * 4 + x / 16) / 4 = w := by omega
      have h2 : (w * 4 + x / 16) % 4 * 16 + (x % 16 * 16 + y / 4) / 16 = x := by omega
      have h3 : (x % 16 * 16 + y / 4) % 16 * 4 + (y % 4 * 64 + z) / 64 = y := by omega
      have h4 : (y % 4 * 64 + z) % 64 = z := by omega
      simp only [group, encodeChars, ha, hb, hc, h1, h2, h3, h4, hfirst, hsecond, hthird, hfourth,
        ih]

/-- The decoder takes exactly the texts that the encoder writes. -/
theorem decode_eq_some {text : String} {bytes : List UInt8} :
    decode text = some bytes ↔ encode bytes = text := by
  constructor
  · intro h
    rw [encode, encodeChars_decodeChars _ h, String.ofList_toList]
  · rintro rfl
    rw [decode, encode, String.toList_ofList, decodeChars_encodeChars]

theorem encode_injective : Function.Injective encode := by
  intro first second h
  have hfirst : decode (encode second) = some first := decode_eq_some.mpr h
  rw [decode_eq_some.mpr rfl] at hfirst
  exact (Option.some.inj hfirst).symm

end Decoder

end Autopeer.Base64
