import MetalBear.Dns.HandleDns
import MetalBear.Library.Base64
import MetalBear.Library.Block

/-!
# The TSIG credential

`<name>:<base64 secret>`. The decoder counts padding as bytes, and the length is corrected by the
equals signs at the end of the text as it was given. The length is right if and only if the text is
refused or spelled as it should be.
-/

namespace MetalBear.Dns

open Base64 Block

/-! ## The code -/

/-- The characters that `EVP_DecodeBlock` strips before and after a block; none of them can stand in
one. -/
structure StrippedSpaces where
  leading : UInt8 → Bool
  trailing : UInt8 → Bool
  leading_false : ∀ c, c ∈ alphabet ∨ c = equals → leading c = false
  trailing_false : ∀ c, c ∈ alphabet ∨ c = equals → trailing c = false

/-- The text without the characters that are stripped. -/
def StrippedSpaces.strip (spaces : StrippedSpaces) (text : Text) : Text :=
  (text.dropWhile spaces.leading).rdropWhile spaces.trailing

/-- The text that the length as an `int` covers; a negative one covers nothing. -/
def intPrefix (text : Text) : Text :=
  let n := text.length % 2 ^ 32
  if n < 2 ^ 31 then text.take n else []

/-- `EVP_DecodeBlock`, over the length as an `int`: what it writes, unless it fails. -/
def evpDecodeBlock (spaces : StrippedSpaces) (text : Text) : Option (List UInt8) :=
  decodeBlocks (spaces.strip (intPrefix text))

/-- `len--` on a `size_t`. -/
def decrement (len : Nat) : Nat := sizeT (len + (2 ^ 64 - 1))

/-- `':'`. -/
def colon : UInt8 := 58

/-- The fields that `parse_tsig_credential` sets: the block of the secret begins with the bytes that
were decoded. -/
structure TsigKey where
  keyName : Text
  keySecret : List UInt8
  allocated : Nat
  keySecretLen : Nat
  deriving DecidableEq

/-- What stands after the first colon. -/
def tsigSecretText (credential : Text) : Text := (credential.dropWhile (· ≠ colon)).drop 1

/-- `parse_tsig_credential`, when memory is there. -/
def parseTsigCredential (spaces : StrippedSpaces) (credential : Text) : Option TsigKey :=
  if colon ∉ credential ∨ credential.head? = some colon ∨ tsigSecretText credential = [] then none
  else
    let b64 := tsigSecretText credential
    match evpDecodeBlock spaces b64 with
    | none => none
    | some decoded =>
      if decoded.length = 0 then none
      else
        let len := decrement^[pads b64] decoded.length
        if len > 0 then
          some ⟨credential.takeWhile (· ≠ colon), decoded, b64.length, len⟩
        else none

/-! ## The length -/

theorem iterate_decrement {len : Nat} (h : len < 2 ^ 64) (k : Nat) :
    decrement^[k] len = (len + k * (2 ^ 64 - 1)) % 2 ^ 64 := by
  induction k with
  | zero => rw [Function.iterate_zero, id_eq, Nat.zero_mul, Nat.add_zero, Nat.mod_eq_of_lt h]
  | succ k ih =>
    rw [Function.iterate_succ_apply', ih, decrement, sizeT]
    omega

/-- Taking one off comes to zero where as many were taken off as there were, but for the wraps. -/
theorem iterate_decrement_eq_zero_iff {len : Nat} (h : len < 2 ^ 64) (k : Nat) :
    decrement^[k] len = 0 ↔ k % 2 ^ 64 = len := by
  rw [iterate_decrement h]
  generalize 2 ^ 64 = m at h ⊢
  have hk : len + k * (m - 1) + k = len + k * m := by
    rw [Nat.add_assoc, ← Nat.mul_succ, Nat.succ_eq_add_one, Nat.sub_add_cancel (by omega)]
  constructor
  · intro hzero
    have hmod : (len + k * (m - 1) + k) % m = k % m := by
      rw [Nat.add_mod, hzero, Nat.zero_add, Nat.mod_mod]
    rw [← hmod, hk, Nat.add_mul_mod_self_right, Nat.mod_eq_of_lt h]
  · intro hmod
    have hsum : len + k * (m - 1) + k ≡ 0 + k [MOD m] := by
      rw [hk, Nat.zero_add]
      exact (Nat.add_mul_mod_self_right len k m).trans ((Nat.mod_eq_of_lt h).trans hmod.symm)
    exact Nat.ModEq.add_right_cancel' k hsum

theorem length_intPrefix_lt (text : Text) : (intPrefix text).length < 2 ^ 31 := by
  rw [intPrefix]
  split
  · next h =>
    rw [List.length_take]
    omega
  · decide

theorem length_strip_le (spaces : StrippedSpaces) (text : Text) :
    (spaces.strip text).length ≤ text.length :=
  ((List.rdropWhile_prefix _ _).length_le).trans (List.dropWhile_suffix _).length_le

/-- Where no character can be stripped, none is. -/
theorem strip_eq_self {spaces : StrippedSpaces} {text : Text}
    (h : ∀ c ∈ text, c ∈ alphabet ∨ c = equals) : spaces.strip text = text := by
  have hleading : text.dropWhile spaces.leading = text := by
    rw [List.dropWhile_eq_self_iff]
    intro hpos
    rw [spaces.leading_false _ (h _ (List.getElem_mem hpos))]
    exact Bool.false_ne_true
  rw [StrippedSpaces.strip, hleading, List.rdropWhile_eq_self_iff]
  intro hne
  rw [spaces.trailing_false _ (h _ (List.getLast_mem hne))]
  exact Bool.false_ne_true

/-- The length of what is decoded, and the number of equals signs taken off it. -/
theorem keySecretLen_eq {len : Nat} {k : Nat} (h : len + k < 2 ^ 64) :
    decrement^[k] (len + k) = len := by
  rw [iterate_decrement h]
  omega

/-! ## What is refused -/

/-- There is no name or no text after it; or what is decoded of the text is nothing, is no whole
number of blocks or has another character; or it has as many bytes as the text ends in equals
signs. -/
def TsigRefused (spaces : StrippedSpaces) (credential : Text) : Prop :=
  (colon ∉ credential ∨ credential.head? = some colon ∨ tsigSecretText credential = []) ∨
  let b64 := tsigSecretText credential
  let block := spaces.strip (intPrefix b64)
  block = [] ∨ (block.length % 4 ≠ 0 ∨ ∃ c ∈ block, c ≠ equals ∧ c ∉ alphabet) ∨
    pads b64 % 2 ^ 64 = block.length / 4 * 3

theorem parseTsigCredential_eq_none_iff {spaces : StrippedSpaces} {credential : Text} :
    parseTsigCredential spaces credential = none ↔ TsigRefused spaces credential := by
  rw [parseTsigCredential, TsigRefused]
  by_cases hform : colon ∉ credential ∨ credential.head? = some colon ∨
      tsigSecretText credential = []
  · rw [if_pos hform]
    exact iff_of_true rfl (Or.inl hform)
  · rw [if_neg hform, or_iff_right hform]
    simp only
    rw [← decodeBlocks_eq_none, evpDecodeBlock]
    have hshort : (spaces.strip (intPrefix (tsigSecretText credential))).length < 2 ^ 31 :=
      (length_strip_le _ _).trans_lt (length_intPrefix_lt _)
    cases hdecode : decodeBlocks (spaces.strip (intPrefix (tsigSecretText credential))) with
    | none => exact iff_of_true rfl (Or.inr (Or.inl rfl))
    | some decoded =>
      obtain ⟨hmod, hlength⟩ := length_of_decodeBlocks hdecode
      simp only [reduceCtorEq, false_or]
      by_cases hzero : decoded.length = 0
      · rw [if_pos hzero]
        refine iff_of_true rfl (Or.inl (List.length_eq_zero_iff.mp ?_))
        omega
      · rw [if_neg hzero]
        have hne : spaces.strip (intPrefix (tsigSecretText credential)) ≠ [] := by
          intro hnil
          rw [hnil] at hlength
          exact hzero hlength
        have hlen : decoded.length < 2 ^ 64 := by omega
        rw [or_iff_right hne, ← hlength, ← iterate_decrement_eq_zero_iff hlen]
        split
        · next hpos => exact iff_of_false nofun hpos.ne'
        · next hpos => exact iff_of_true rfl (Nat.eq_zero_of_not_pos hpos)

/-! ## The main result -/

/-- The name is what stands before the first colon; the secret is so many of the bytes that were
decoded that their encoding is what stands after it, and its length is not zero and no more than
was allocated. -/
structure SetsExactly (credential : Text) (key : TsigKey) : Prop where
  name : key.keyName = credential.takeWhile (· ≠ colon)
  secret : encode (key.keySecret.take key.keySecretLen) = tsigSecretText credential
  len_le_decoded : key.keySecretLen ≤ key.keySecret.length
  len_pos : 1 ≤ key.keySecretLen
  len_le : key.keySecretLen ≤ key.allocated

theorem mem_encode {c : UInt8} {bytes : List UInt8} (h : c ∈ encode bytes) :
    c ∈ alphabet ∨ c = equals := by
  have hvalue : ∀ {c v}, value c = some v → c ∈ alphabet := fun hv => mem_alphabet_iff.mpr ⟨_, hv⟩
  have hcanonical := canonical_encode bytes
  generalize encode bytes = text at h hcanonical
  induction hcanonical with
  | nil => cases h
  | group a b d e rest ha hb hd he _ ih =>
    simp only [List.mem_cons] at h
    rcases h with rfl | rfl | rfl | rfl | h
    · exact Or.inl ha
    · exact Or.inl hb
    · exact Or.inl hd
    · exact Or.inl he
    · exact ih h
  | three a b d v ha hb hd _ =>
    simp only [List.mem_cons, List.not_mem_nil, or_false] at h
    rcases h with rfl | rfl | rfl | rfl
    · exact Or.inl ha
    · exact Or.inl hb
    · exact Or.inl (hvalue hd)
    · exact Or.inr rfl
  | two a b v ha hb _ =>
    simp only [List.mem_cons, List.not_mem_nil, or_false] at h
    rcases h with rfl | rfl | rfl | rfl
    · exact Or.inl ha
    · exact Or.inl (hvalue hb)
    · exact Or.inr rfl
    · exact Or.inr rfl

theorem parseTsigCredential_eq_some {spaces : StrippedSpaces} {credential : Text} {key : TsigKey}
    (h : parseTsigCredential spaces credential = some key) :
    tsigSecretText credential ≠ [] ∧
    evpDecodeBlock spaces (tsigSecretText credential) = some key.keySecret ∧
    key.keyName = credential.takeWhile (· ≠ colon) ∧
    key.allocated = (tsigSecretText credential).length ∧
    key.keySecretLen = decrement^[pads (tsigSecretText credential)] key.keySecret.length ∧
    1 ≤ key.keySecretLen := by
  rw [parseTsigCredential] at h
  split at h
  · cases h
  · next hform =>
    simp only at h
    split at h
    · cases h
    · next decoded hdecode =>
      split at h
      · cases h
      · split at h
        · next hpos =>
          cases h
          exact ⟨fun hnil => hform (Or.inr (Or.inr hnil)), hdecode, rfl, rfl, rfl, hpos⟩
        · cases h

/-- A credential is taken apart exactly if and only if it is refused, or the secret is spelled as
its encoding with padding and is shorter than 2 GiB. -/
theorem tsigCredential_exact_iff (spaces : StrippedSpaces) (credential : Text) :
    (∀ key, parseTsigCredential spaces credential = some key → SetsExactly credential key) ↔
      TsigRefused spaces credential ∨
        Canonical (tsigSecretText credential) ∧ (tsigSecretText credential).length < 2 ^ 31 := by
  constructor
  · intro hexact
    cases hparse : parseTsigCredential spaces credential with
    | none => exact Or.inl (parseTsigCredential_eq_none_iff.mp hparse)
    | some key =>
      have hkey := hexact key hparse
      obtain ⟨-, hdecode, -⟩ := parseTsigCredential_eq_some hparse
      refine Or.inr ⟨canonical_iff.mpr ⟨_, hkey.secret⟩, ?_⟩
      obtain ⟨hmod, hlength⟩ := length_of_decodeBlocks hdecode
      have hstrip := length_strip_le spaces (intPrefix (tsigSecretText credential))
      have hprefix := length_intPrefix_lt (tsigSecretText credential)
      rw [← hkey.secret, length_encode, List.length_take]
      omega
  · rintro (hrefused | ⟨hcanonical, hshort⟩) key hparse
    · rw [parseTsigCredential_eq_none_iff.mpr hrefused] at hparse
      cases hparse
    · obtain ⟨hne, hdecode, hname, hallocated, hlen, hpos⟩ := parseTsigCredential_eq_some hparse
      obtain ⟨bytes, hbytes⟩ := canonical_iff.mp hcanonical
      have hprefix : intPrefix (tsigSecretText credential) = tsigSecretText credential := by
        rw [intPrefix, Nat.mod_eq_of_lt (by omega), if_pos hshort, List.take_length]
      rw [evpDecodeBlock, hprefix, ← hbytes, strip_eq_self fun c hc => mem_encode hc,
        decodeBlocks_encode, Option.some.injEq] at hdecode
      have hlength := length_encode bytes
      have hpadding : padding bytes.length ≤ 2 := by
        rw [padding]
        omega
      rw [← hbytes] at hshort hallocated
      rw [← hbytes, pads_encode, ← hdecode, List.length_append, List.length_replicate,
        keySecretLen_eq (by omega)] at hlen
      refine ⟨hname, ?_, ?_, hpos, ?_⟩
      · rw [hlen, ← hdecode, List.take_left, hbytes]
      · rw [hlen, ← hdecode, List.length_append]
        omega
      · rw [hlen, hallocated]
        omega

/-- The characters that OpenSSL strips. -/
def opensslSpaces : StrippedSpaces where
  leading c := c = 32 ∨ c = 9
  trailing c := c = 32 ∨ c = 9 ∨ c = 10 ∨ c = 13 ∨ c = 45
  leading_false := by
    have hall : (equals :: alphabet).all fun c => decide (c = 32 ∨ c = 9) == false := by
      decide +kernel
    intro c hc
    have := List.all_eq_true.mp hall c (List.mem_cons.mpr hc.symm)
    simpa using this
  trailing_false := by
    have hall : (equals :: alphabet).all fun c =>
        decide (c = 32 ∨ c = 9 ∨ c = 10 ∨ c = 13 ∨ c = 45) == false := by
      decide +kernel
    intro c hc
    have := List.all_eq_true.mp hall c (List.mem_cons.mpr hc.symm)
    simpa using this

/-- Four equals signs are three bytes, less four. -/
theorem padding_alone_wraps :
    (parseTsigCredential opensslSpaces "key:====".toUTF8.toList).map TsigKey.keySecretLen =
        some (2 ^ 64 - 1) ∧
      ¬ ∀ key, parseTsigCredential opensslSpaces "key:====".toUTF8.toList = some key →
        SetsExactly "key:====".toUTF8.toList key := by
  have hlen : (parseTsigCredential opensslSpaces "key:====".toUTF8.toList).map
      TsigKey.keySecretLen = some (2 ^ 64 - 1) := by
    decide +kernel
  refine ⟨hlen, fun h => ?_⟩
  obtain ⟨key, hkey, hwrapped⟩ := Option.map_eq_some_iff.mp hlen
  have hexact := h key hkey
  obtain ⟨-, -, -, hallocated, -⟩ := parseTsigCredential_eq_some hkey
  have hfour : (tsigSecretText "key:====".toUTF8.toList).length = 4 := by decide +kernel
  have hle := hexact.len_le
  omega

end MetalBear.Dns
