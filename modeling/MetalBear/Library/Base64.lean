import Mathlib

/-!
# Base64 with padding

The encoding with padding, the texts that it gives, and a decoder that takes a text in blocks of
four and reads padding as zero bits wherever it stands.
-/

namespace Base64

/-- The characters in the order of their values. -/
def alphabet : List UInt8 :=
  "ABCDEFGHIJKLMNOPQRSTUVWXYZabcdefghijklmnopqrstuvwxyz0123456789+/".toUTF8.toList

/-- The character of padding. -/
def equals : UInt8 := 61

/-- The character of the low six bits. -/
def letter (n : Nat) : UInt8 := alphabet.getD (n % 64) 0

/-- The value of a character. -/
def value (c : UInt8) : Option Nat := alphabet.idxOf? c

/-- The encoding, with padding. -/
def encode : List UInt8 → List UInt8
  | [] => []
  | [a] =>
    let n := a.toNat * 65536
    [letter (n / 262144), letter (n / 4096), equals, equals]
  | [a, b] =>
    let n := a.toNat * 65536 + b.toNat * 256
    [letter (n / 262144), letter (n / 4096), letter (n / 64), equals]
  | a :: b :: c :: rest =>
    let n := a.toNat * 65536 + b.toNat * 256 + c.toNat
    letter (n / 262144) :: letter (n / 4096) :: letter (n / 64) :: letter n :: encode rest

/-- Groups of four characters, of which the last may have padding after bits that are zero. -/
inductive Canonical : List UInt8 → Prop where
  | nil : Canonical []
  | group (a b c d : UInt8) (rest : List UInt8) : a ∈ alphabet → b ∈ alphabet → c ∈ alphabet →
      d ∈ alphabet → Canonical rest → Canonical (a :: b :: c :: d :: rest)
  | three (a b c : UInt8) (v : Nat) : a ∈ alphabet → b ∈ alphabet → value c = some v →
      v % 4 = 0 → Canonical [a, b, c, equals]
  | two (a b : UInt8) (v : Nat) : a ∈ alphabet → value b = some v → v % 16 = 0 →
      Canonical [a, b, equals, equals]

/-- The value of a character, padding being zero. -/
def blockValue (c : UInt8) : Option Nat := if c = equals then some 0 else value c

/-- Three bytes for every four characters. -/
def decodeBlocks : List UInt8 → Option (List UInt8)
  | [] => some []
  | a :: b :: c :: d :: rest => do
    let x ← blockValue a
    let y ← blockValue b
    let z ← blockValue c
    let w ← blockValue d
    let n := ((x * 64 + y) * 64 + z) * 64 + w
    let tail ← decodeBlocks rest
    some (UInt8.ofNat (n / 65536) :: UInt8.ofNat (n / 256) :: UInt8.ofNat n :: tail)
  | _ => none

/-- How many characters of padding a text ends in. -/
def pads (text : List UInt8) : Nat := (text.rtakeWhile (· = equals)).length

/-- How many the encoding ends in. -/
def padding (length : Nat) : Nat := (3 - length % 3) % 3

variable {c : UInt8} {v n : Nat} {text bytes : List UInt8}

theorem value_letter (n : Nat) : value (letter n) = some (n % 64) := by
  have hall : ∀ m : Fin 64, value (alphabet.getD m 0) = some m.val := by decide +kernel
  exact hall ⟨n % 64, Nat.mod_lt n (by decide)⟩

theorem mem_alphabet_iff : c ∈ alphabet ↔ ∃ v, value c = some v := by
  rw [← Option.isSome_iff_exists, value, List.isSome_idxOf?]

theorem letter_mem (n : Nat) : letter n ∈ alphabet := mem_alphabet_iff.mpr ⟨_, value_letter n⟩

/-- A value stands for one character. -/
theorem of_value (h : value c = some v) : alphabet.getD v 0 = c ∧ v < 64 := by
  rw [value, List.idxOf?_eq_some_iff] at h
  obtain ⟨hlt, hget, -⟩ := h
  have hlength : alphabet.length = 64 := by decide +kernel
  refine ⟨?_, hlength ▸ hlt⟩
  rw [List.getD_eq_getElem _ _ hlt]
  simpa using hget

theorem letter_value (h : value c = some v) (hn : n % 64 = v) : letter n = c := by
  rw [letter, hn, (of_value h).1]

theorem equals_notMem : equals ∉ alphabet := by
  decide +kernel

theorem ne_equals_of_mem (h : c ∈ alphabet) : c ≠ equals := fun heq => equals_notMem (heq ▸ h)

theorem blockValue_letter (n : Nat) : blockValue (letter n) = some (n % 64) := by
  rw [blockValue, if_neg (ne_equals_of_mem (letter_mem n)), value_letter]

theorem blockValue_equals : blockValue equals = some 0 := if_pos rfl

/-! ## What is encoded -/

theorem length_encode (bytes : List UInt8) :
    (encode bytes).length = (bytes.length + 2) / 3 * 4 := by
  induction bytes using encode.induct with
  | case1 => rfl
  | case2 a => simp [encode]
  | case3 a b => simp [encode]
  | case4 a b c rest ih =>
    simp only [encode, List.length_cons, ih]
    omega

theorem canonical_encode (bytes : List UInt8) : Canonical (encode bytes) := by
  induction bytes using encode.induct with
  | case1 => exact Canonical.nil
  | case2 a => exact Canonical.two _ _ _ (letter_mem _) (value_letter _) (by omega)
  | case3 a b =>
    exact Canonical.three _ _ _ _ (letter_mem _) (letter_mem _) (value_letter _) (by omega)
  | case4 a b c rest ih =>
    exact Canonical.group _ _ _ _ _ (letter_mem _) (letter_mem _) (letter_mem _) (letter_mem _) ih

/-- The canonical texts are those that are encoded. -/
theorem canonical_iff : Canonical text ↔ ∃ bytes, encode bytes = text := by
  constructor
  · intro h
    induction h with
    | nil => exact ⟨[], rfl⟩
    | group a b c d rest ha hb hc hd _ ih =>
      obtain ⟨bytes, rfl⟩ := ih
      obtain ⟨x, hx⟩ := mem_alphabet_iff.mp ha
      obtain ⟨y, hy⟩ := mem_alphabet_iff.mp hb
      obtain ⟨z, hz⟩ := mem_alphabet_iff.mp hc
      obtain ⟨w, hw⟩ := mem_alphabet_iff.mp hd
      have hx64 := (of_value hx).2
      have hy64 := (of_value hy).2
      have hz64 := (of_value hz).2
      have hw64 := (of_value hw).2
      refine ⟨UInt8.ofNat ((((x * 64 + y) * 64 + z) * 64 + w) / 65536) ::
        UInt8.ofNat ((((x * 64 + y) * 64 + z) * 64 + w) / 256) ::
        UInt8.ofNat (((x * 64 + y) * 64 + z) * 64 + w) :: bytes, ?_⟩
      simp only [encode, UInt8.toNat_ofNat']
      rw [letter_value hx (by omega), letter_value hy (by omega), letter_value hz (by omega),
        letter_value hw (by omega)]
    | three a b c v ha hb hc hv =>
      obtain ⟨x, hx⟩ := mem_alphabet_iff.mp ha
      obtain ⟨y, hy⟩ := mem_alphabet_iff.mp hb
      have hx64 := (of_value hx).2
      have hy64 := (of_value hy).2
      have hc64 := (of_value hc).2
      refine ⟨[UInt8.ofNat (((x * 64 + y) * 64 + v) / 1024),
        UInt8.ofNat (((x * 64 + y) * 64 + v) / 4)], ?_⟩
      simp only [encode, UInt8.toNat_ofNat']
      rw [letter_value hx (by omega), letter_value hy (by omega), letter_value hc (by omega)]
    | two a b v ha hb hv =>
      obtain ⟨x, hx⟩ := mem_alphabet_iff.mp ha
      have hx64 := (of_value hx).2
      have hb64 := (of_value hb).2
      refine ⟨[UInt8.ofNat ((x * 64 + v) / 16)], ?_⟩
      simp only [encode, UInt8.toNat_ofNat']
      rw [letter_value hx (by omega), letter_value hb (by omega)]
  · rintro ⟨bytes, rfl⟩
    exact canonical_encode bytes

theorem pads_concat (h : c ≠ equals) : pads (text ++ [c]) = 0 := by
  rw [pads, List.rtakeWhile_concat_neg, List.length_nil]
  simpa using h

theorem pads_cons (h : ∃ d ∈ text, d ≠ equals) : pads (c :: text) = pads text := by
  obtain ⟨d, hd, hne⟩ := h
  have hstops : (text.reverse.takeWhile (· = equals)).length ≠ text.reverse.length := by
    intro hlength
    have hall := (List.takeWhile_prefix fun e => decide (e = equals)).eq_of_length hlength
    rw [List.takeWhile_eq_self_iff] at hall
    exact hne (by simpa using hall d (List.mem_reverse.mpr hd))
  rw [pads, List.rtakeWhile, List.reverse_cons, List.takeWhile_append, if_neg hstops]
  rfl

/-- The padding of what is encoded. -/
theorem pads_encode (bytes : List UInt8) : pads (encode bytes) = padding bytes.length := by
  have hne : ∀ n, letter n ≠ equals := fun n => ne_equals_of_mem (letter_mem n)
  induction bytes using encode.induct with
  | case1 => rfl
  | case2 a => simp [encode, pads, padding, List.rtakeWhile, hne]
  | case3 a b => simp [encode, pads, padding, List.rtakeWhile, hne]
  | case4 a b c rest ih =>
    have hpadding : padding (a :: b :: c :: rest).length = padding rest.length := by
      simp only [padding, List.length_cons]
      omega
    rw [encode, hpadding, ← ih]
    cases hrest : encode rest with
    | nil =>
      exact @pads_concat _ [letter _, letter _, letter _] (hne _)
    | cons first others =>
      -- A text begins with a character of the alphabet.
      have hfirst : ∃ d ∈ first :: others, d ≠ equals := by
        refine ⟨first, List.mem_cons_self, ?_⟩
        have hcanonical := canonical_encode rest
        rw [hrest] at hcanonical
        cases hcanonical with
        | group _ _ _ _ _ ha _ _ _ _ => exact ne_equals_of_mem ha
        | three _ _ _ _ ha _ _ _ => exact ne_equals_of_mem ha
        | two _ _ _ ha _ _ => exact ne_equals_of_mem ha
      rw [pads_cons, pads_cons, pads_cons, pads_cons hfirst]
      · exact ⟨_, List.mem_cons_self, hne _⟩
      · exact ⟨_, List.mem_cons_self, hne _⟩
      · exact ⟨_, List.mem_cons_self, hne _⟩

/-! ## What is decoded -/

theorem ofNat_eq_of_mod {a : UInt8} (h : n % 256 = a.toNat) : UInt8.ofNat n = a := by
  apply UInt8.toNat.inj
  rw [UInt8.toNat_ofNat', h]

/-- What is encoded is decoded with zeros for the padding. -/
theorem decodeBlocks_encode (bytes : List UInt8) : decodeBlocks (encode bytes) =
    some (bytes ++ List.replicate (padding bytes.length) 0) := by
  induction bytes using encode.induct with
  | case1 => rfl
  | case2 a =>
    have ha := a.toNat_lt
    simp only [encode, decodeBlocks, blockValue_letter, blockValue_equals, Option.bind_eq_bind,
      Option.bind_some]
    rw [ofNat_eq_of_mod (a := a) (by omega), ofNat_eq_of_mod (a := 0) (by simp; omega),
      ofNat_eq_of_mod (a := 0) (by simp; omega)]
    rfl
  | case3 a b =>
    have ha := a.toNat_lt
    have hb := b.toNat_lt
    simp only [encode, decodeBlocks, blockValue_letter, blockValue_equals, Option.bind_eq_bind,
      Option.bind_some]
    rw [ofNat_eq_of_mod (a := a) (by omega), ofNat_eq_of_mod (a := b) (by omega),
      ofNat_eq_of_mod (a := 0) (by simp; omega)]
    rfl
  | case4 a b c rest ih =>
    have ha := a.toNat_lt
    have hb := b.toNat_lt
    have hc := c.toNat_lt
    have hpadding : padding (a :: b :: c :: rest).length = padding rest.length := by
      simp only [padding, List.length_cons]
      omega
    simp only [encode, decodeBlocks, blockValue_letter, Option.bind_eq_bind, Option.bind_some, ih]
    rw [ofNat_eq_of_mod (a := a) (by omega), ofNat_eq_of_mod (a := b) (by omega),
      ofNat_eq_of_mod (a := c) (by omega), hpadding]
    rfl

/-- Three bytes for every four characters. -/
theorem length_of_decodeBlocks (h : decodeBlocks text = some bytes) :
    text.length % 4 = 0 ∧ bytes.length = text.length / 4 * 3 := by
  induction text using decodeBlocks.induct generalizing bytes with
  | case1 =>
    cases h
    exact ⟨rfl, rfl⟩
  | case2 a b c d rest ih =>
    simp only [decodeBlocks, Option.bind_eq_bind, Option.bind_eq_some_iff] at h
    obtain ⟨x, -, y, -, z, -, w, -, tail, htail, h⟩ := h
    cases h
    obtain ⟨hmod, hlength⟩ := ih htail
    simp only [List.length_cons]
    omega
  | case3 text hnil hfour =>
    rw [decodeBlocks] at h
    · cases h
    · exact hnil
    · exact hfour

theorem blockValue_eq_none : blockValue c = none ↔ c ≠ equals ∧ c ∉ alphabet := by
  rw [blockValue, mem_alphabet_iff]
  by_cases hc : c = equals
  · simp [hc]
  · rw [if_neg hc, Option.eq_none_iff_forall_ne_some]
    simp [hc]

/-- Texts of other lengths and with other characters are refused. -/
theorem decodeBlocks_eq_none : decodeBlocks text = none ↔
    text.length % 4 ≠ 0 ∨ ∃ c ∈ text, c ≠ equals ∧ c ∉ alphabet := by
  simp only [← blockValue_eq_none]
  induction text using decodeBlocks.induct with
  | case1 => simp [decodeBlocks]
  | case2 a b c d rest ih =>
    have hlength : (a :: b :: c :: d :: rest).length % 4 = rest.length % 4 := by
      simp only [List.length_cons]
      omega
    simp only [List.exists_mem_cons_iff, hlength]
    rw [decodeBlocks]
    cases ha : blockValue a with
    | none => simp
    | some x =>
      cases hb : blockValue b with
      | none => simp
      | some y =>
        cases hc : blockValue c with
        | none => simp
        | some z =>
          cases hd : blockValue d with
          | none => simp
          | some w =>
            cases hrest : decodeBlocks rest with
            | none => simpa using ih.mp hrest
            | some tail => simpa [hrest] using ih
  | case3 text hnil hfour =>
    have hnone : decodeBlocks text = none := by
      rw [decodeBlocks]
      · exact hnil
      · exact hfour
    refine iff_of_true hnone (Or.inl fun hmod => ?_)
    match text with
    | [] => exact hnil rfl
    | [_] => simp at hmod
    | [_, _] => simp at hmod
    | [_, _, _] => simp at hmod
    | a :: b :: c :: d :: rest => exact hfour a b c d rest rfl

end Base64
