import MetalBear.Library.BitGroups
import MetalBear.Wolfram.Status

/-!
# Base32

The secret that a user types into an authenticator. Encoder and decoder keep the bits that are not
written yet in a buffer of 16 bits, of which fewer than a group are left over after each group.
-/

namespace MetalBear.TwoFactor

open BitGroups

/-! ## The code -/

/-- `base32_alphabet`. -/
def base32Alphabet : List UInt8 := "ABCDEFGHIJKLMNOPQRSTUVWXYZ234567".toUTF8.toList

/-- `base32_alphabet[n & 31]`. -/
def base32Letter (n : Nat) : UInt8 := base32Alphabet.getD (n &&& (2 ^ 5 - 1)) 0

/-- `while (bits >= 5)`: what is written, and the bits that are left. -/
def base32Drain (buffer : Nat) : Nat → List UInt8 × Nat
  | bits + 5 =>
    let rest := base32Drain buffer bits
    (base32Letter (buffer >>> bits) :: rest.1, rest.2)
  | bits => ([], bits)

/-- The loop of `metalbear_base32_encode`, and the last character. -/
def base32EncodeLoop : List UInt8 → Nat → Nat → List UInt8
  | [], buffer, bits => if bits > 0 then [base32Letter (buffer <<< (5 - bits))] else []
  | b :: input, buffer, bits =>
    let buffer := ((buffer <<< 8) ||| b.toNat) &&& (2 ^ 16 - 1)
    let drained := base32Drain buffer (bits + 8)
    drained.1 ++ base32EncodeLoop input buffer drained.2

/-- The capacity that `metalbear_base32_encode` asks for; no object in memory is so long that it
wraps. -/
def base32Need (length : Nat) : Nat := (length + 4) / 5 * 8 + 1

/-- `metalbear_base32_encode`: the text, which a zero byte follows. -/
def base32Encode (input : List UInt8) (outCap : Nat) : Except WfError (List UInt8) :=
  if outCap < base32Need input.length then .error .invalidArg
  else .ok (base32EncodeLoop input 0 0)

/-- The letter in upper case. -/
def base32Upper (c : UInt8) : UInt8 := if 97 ≤ c ∧ c ≤ 122 then c - 97 + 65 else c

/-- The loop of `metalbear_base32_decode`; a character is not zero, which ends the string. -/
def base32DecodeLoop (outCap : Nat) : List UInt8 → Nat → Nat → Nat → Except WfError (List UInt8)
  | [], _, _, _ => .ok []
  | c :: input, buffer, bits, outLen =>
    if c = 32 then base32DecodeLoop outCap input buffer bits outLen
    else
      match base32Alphabet.idxOf? (base32Upper c) with
      | none => .error .invalidArg
      | some v =>
        let buffer := ((buffer <<< 5) ||| v) &&& (2 ^ 16 - 1)
        if bits + 5 ≥ 8 then
          if outLen ≥ outCap then .error .invalidArg
          else
            (base32DecodeLoop outCap input buffer (bits + 5 - 8) (outLen + 1)).map
              (UInt8.ofNat ((buffer >>> (bits + 5 - 8)) &&& (2 ^ 8 - 1)) :: ·)
        else base32DecodeLoop outCap input buffer (bits + 5) outLen

/-- `metalbear_base32_decode`. -/
def base32Decode (input : List UInt8) (outCap : Nat) : Except WfError (List UInt8) :=
  base32DecodeLoop outCap (input.takeWhile (· ≠ 0)) 0 0 0

/-- A text as a user may type it: with spaces, and letters in either case. -/
def Retyped (typed text : List UInt8) : Prop := (typed.filter (· ≠ 32)).map base32Upper = text

/-! ## Encoding -/

/-- A letter for each group of five bits. -/
structure Spells (text : List UInt8) (groups : List Nat) : Prop where
  text_eq : text = groups.map base32Letter
  small : ∀ v ∈ groups, v < 2 ^ 5

variable {text typed input : List UInt8} {groups : List Nat} {buffer k n v outCap outLen : Nat}

theorem spells_nil : Spells [] [] := ⟨rfl, nofun⟩

theorem Spells.cons (h : Spells text groups) (n : Nat) :
    Spells (base32Letter n :: text) ((n &&& (2 ^ 5 - 1)) :: groups) := by
  constructor
  · rw [List.map_cons, base32Letter, base32Letter, Nat.and_assoc, Nat.and_self, h.text_eq]
  · rw [List.forall_mem_cons]
    refine ⟨?_, h.small⟩
    rw [Nat.and_two_pow_sub_one_eq_mod]
    exact Nat.mod_lt _ (by positivity)

theorem Spells.append {text' : List UInt8} {groups' : List Nat} (h : Spells text groups)
    (h' : Spells text' groups') : Spells (text ++ text') (groups ++ groups') := by
  constructor
  · rw [List.map_append, h.text_eq, h'.text_eq]
  · rw [List.forall_mem_append]
    exact ⟨h.small, h'.small⟩

theorem base32Drain_of_lt (h : k < 5) : base32Drain buffer k = ([], k) := by
  interval_cases k <;> rfl

theorem base32Drain_add : base32Drain buffer (k + 5) =
    (base32Letter (buffer >>> k) :: (base32Drain buffer k).1, (base32Drain buffer k).2) := rfl

/-- All groups that are whole are written, and the bits of the last are left. -/
theorem base32Drain_spells (buffer k : Nat) : (base32Drain buffer k).2 < 5 ∧
    ∃ groups, Spells (base32Drain buffer k).1 groups ∧
      bits k buffer = groupBits 5 groups ++ bits (base32Drain buffer k).2 buffer := by
  induction k using Nat.strong_induction_on with
  | _ k ih =>
  by_cases hk : k < 5
  · rw [base32Drain_of_lt hk]
    exact ⟨hk, [], spells_nil, rfl⟩
  · obtain ⟨low, rfl⟩ : ∃ low, k = low + 5 := ⟨k - 5, by omega⟩
    obtain ⟨hleft, groups, hspells, hbits⟩ := ih low (by omega)
    rw [base32Drain_add]
    refine ⟨hleft, _, hspells.cons (buffer >>> low), ?_⟩
    rw [Nat.add_comm, bits_pop, hbits, groupBits_cons, List.append_assoc]

/-- The text has the bits of the buffer and of the input, and fewer than five zeros. -/
theorem base32EncodeLoop_spells (hk : k < 5) : ∃ groups zeros, zeros < 5 ∧
    Spells (base32EncodeLoop input buffer k) groups ∧
    groupBits 5 groups = bits k buffer ++ groupBits 8 (input.map UInt8.toNat) ++
      List.replicate zeros false := by
  induction input generalizing buffer k with
  | nil =>
    rw [base32EncodeLoop]
    by_cases hpos : k > 0
    · rw [if_pos hpos]
      refine ⟨_, 5 - k, by omega, spells_nil.cons _, ?_⟩
      have hwidth : k + (5 - k) = 5 := by omega
      have hfill := bits_fill (5 - k) k buffer
      rw [hwidth] at hfill
      rw [groupBits_cons, groupBits_nil, List.append_nil, List.map_nil, groupBits_nil,
        List.append_nil, hfill]
    · rw [if_neg hpos]
      have hzero : k = 0 := by omega
      subst hzero
      exact ⟨[], 0, by decide, spells_nil, rfl⟩
  | cons b input ih =>
    rw [base32EncodeLoop]
    obtain ⟨hleft, drained, hdrained, hbits⟩ :=
      base32Drain_spells (((buffer <<< 8) ||| b.toNat) &&& (2 ^ 16 - 1)) (k + 8)
    obtain ⟨groups, zeros, hzeros, hspells, hgroups⟩ := ih hleft
    refine ⟨_, zeros, hzeros, hdrained.append hspells, ?_⟩
    -- The mask keeps the bits that were left over and the eight new ones.
    rw [bits_push b.toNat_lt (by omega)] at hbits
    rw [groupBits_append, hgroups, List.map_cons, groupBits_cons, ← List.append_assoc,
      ← List.append_assoc, ← hbits, List.append_assoc (bits k buffer)]

/-! ## Decoding -/

theorem base32Letter_of_lt (hv : v < 2 ^ 5) : base32Letter v ≠ 0 ∧
    base32Alphabet.idxOf? (base32Upper (base32Letter v)) = some v ∧ base32Letter v ≠ 32 := by
  have hall : ∀ v : Fin 32, base32Letter v ≠ 0 ∧
      base32Alphabet.idxOf? (base32Upper (base32Letter v)) = some v.val ∧ base32Letter v ≠ 32 := by
    decide +kernel
  exact hall ⟨v, hv⟩

theorem base32Upper_upper (c : UInt8) : base32Upper (base32Upper c) = base32Upper c := by
  have hall : ∀ n < 256, base32Upper (base32Upper (UInt8.ofNat n)) = base32Upper (UInt8.ofNat n) := by
    decide +kernel
  have h := hall c.toNat c.toNat_lt
  rwa [UInt8.ofNat_toNat] at h

/-- How a retyped text begins. -/
theorem retyped_cons_iff {c : UInt8} : Retyped (c :: typed) text ↔
    c = 32 ∧ Retyped typed text ∨
      c ≠ 32 ∧ ∃ rest, text = base32Upper c :: rest ∧ Retyped typed rest := by
  rw [Retyped, List.filter_cons]
  by_cases hspace : c = 32
  · simp [hspace, Retyped]
  · simp only [hspace, ne_eq, not_false_eq_true, decide_true, if_true, List.map_cons, false_and,
      false_or, true_and]
    constructor
    · intro h
      exact ⟨_, h.symm, rfl⟩
    · rintro ⟨rest, rfl, hrest⟩
      rw [hrest]

/-- Where there is room for all whole bytes, the bytes have the bits of the buffer and of the
letters, up to fewer than eight. -/
theorem base32DecodeLoop_retyped (hsmall : ∀ v ∈ groups, v < 2 ^ 5)
    (htyped : Retyped typed (groups.map base32Letter)) (hk : k < 8)
    (hroom : outLen + (k + groups.length * 5) / 8 ≤ outCap) :
    ∃ out rest, base32DecodeLoop outCap typed buffer k outLen = .ok out ∧ rest.length < 8 ∧
      groupBits 8 (out.map UInt8.toNat) ++ rest = bits k buffer ++ groupBits 5 groups := by
  induction typed generalizing groups buffer k outLen with
  | nil =>
    have hgroups : groups = [] := by simpa [Retyped] using htyped.symm
    subst hgroups
    exact ⟨[], bits k buffer, rfl, by rwa [length_bits], by simp⟩
  | cons c typed ih =>
    rcases retyped_cons_iff.mp htyped with ⟨rfl, htyped⟩ | ⟨hspace, rest, htext, htyped⟩
    · rw [base32DecodeLoop, if_pos rfl]
      exact ih hsmall htyped hk hroom
    · obtain ⟨v, groups, rfl⟩ : ∃ v rest, groups = v :: rest := by
        cases groups with
        | nil => cases htext
        | cons v groups => exact ⟨v, groups, rfl⟩
      rw [List.map_cons, List.cons.injEq] at htext
      obtain ⟨hletter, rfl⟩ := htext
      rw [List.forall_mem_cons] at hsmall
      have hindex := (base32Letter_of_lt hsmall.1).2.1
      rw [hletter, base32Upper_upper] at hindex
      rw [base32DecodeLoop, if_neg hspace, hindex]
      rw [List.length_cons, Nat.succ_mul] at hroom
      -- The mask keeps the bits that were left over and the five new ones.
      have hpush : bits (k + 5) (((buffer <<< 5) ||| v) &&& (2 ^ 16 - 1)) =
          bits k buffer ++ bits 5 v := bits_push hsmall.1 (by omega)
      rw [groupBits_cons, ← List.append_assoc, ← hpush]
      simp only
      by_cases hwhole : k + 5 ≥ 8
      · rw [if_pos hwhole, if_neg (by omega)]
        obtain ⟨out, rest, hout, hrest, hbits⟩ : ∃ out rest,
            base32DecodeLoop outCap typed (((buffer <<< 5) ||| v) &&& (2 ^ 16 - 1)) (k + 5 - 8)
              (outLen + 1) = .ok out ∧ rest.length < 8 ∧
            groupBits 8 (out.map UInt8.toNat) ++ rest =
              bits (k + 5 - 8) (((buffer <<< 5) ||| v) &&& (2 ^ 16 - 1)) ++ groupBits 5 groups :=
          ih hsmall.2 htyped (by omega) (by omega)
        refine ⟨_, rest, by rw [hout]; rfl, hrest, ?_⟩
        have hcut := bits_pop 8 (k + 5 - 8) (((buffer <<< 5) ||| v) &&& (2 ^ 16 - 1))
        have hwidth : 8 + (k + 5 - 8) = k + 5 := by omega
        rw [hwidth] at hcut
        rw [hcut, List.append_assoc, ← hbits, List.map_cons, groupBits_cons, List.append_assoc,
          UInt8.toNat_ofNat', bits_mod (Nat.le_refl 8)]
      · rw [if_neg hwhole]
        exact ih hsmall.2 htyped (by omega) (by omega)

/-- Only characters of the alphabet and spaces are accepted. -/
theorem base32DecodeLoop_alphabet {out : List UInt8}
    (h : base32DecodeLoop outCap typed buffer k outLen = .ok out) :
    ∀ c ∈ typed, c = 32 ∨ base32Upper c ∈ base32Alphabet := by
  induction typed generalizing buffer k outLen out with
  | nil => exact nofun
  | cons c typed ih =>
    rw [List.forall_mem_cons]
    rw [base32DecodeLoop] at h
    by_cases hspace : c = 32
    · rw [if_pos hspace] at h
      exact ⟨Or.inl hspace, ih h⟩
    · rw [if_neg hspace] at h
      split at h
      · cases h
      · next v hindex =>
        have hmem : base32Upper c ∈ base32Alphabet := by
          by_contra hnot
          rw [List.idxOf?_eq_none_iff.mpr hnot] at hindex
          cases hindex
        refine ⟨Or.inr hmem, ?_⟩
        simp only at h
        split at h
        · split at h
          · cases h
          · cases hrest : base32DecodeLoop outCap typed
                (((buffer <<< 5) ||| v) &&& (2 ^ 16 - 1)) (k + 5 - 8) (outLen + 1) with
            | error e =>
              rw [hrest] at h
              cases h
            | ok rest => exact ih hrest
        · exact ih h

/-! ## The main result -/

/-- A retyped text has no zero byte. -/
theorem zero_notMem_retyped (hspells : Spells text groups) (htyped : Retyped typed text) :
    0 ∉ typed := by
  intro hmem
  have hupper : base32Upper 0 ∈ text := by
    rw [← htyped]
    exact List.mem_map_of_mem (List.mem_filter.mpr ⟨hmem, by decide⟩)
  rw [hspells.text_eq] at hupper
  obtain ⟨v, hv, hletter⟩ := List.mem_map.mp hupper
  exact (base32Letter_of_lt (hspells.small v hv)).1 hletter

/-- Bytes are encoded within the capacity that is asked for, and what is encoded is decoded however
it is typed; nothing but characters of the alphabet and spaces is accepted. -/
theorem base32_round_trip :
    (∀ input outCap, base32Need input.length ≤ outCap →
      ∃ text, base32Encode input outCap = .ok text ∧ text.length + 1 ≤ outCap ∧
        ∀ typed outCap, Retyped typed text → input.length ≤ outCap →
          base32Decode typed outCap = .ok input) ∧
    (∀ typed outCap out, base32Decode typed outCap = .ok out →
      ∀ c ∈ typed.takeWhile (· ≠ 0), c = 32 ∨ base32Upper c ∈ base32Alphabet) := by
  refine ⟨fun input outCap hcap => ?_, fun typed outCap out => base32DecodeLoop_alphabet⟩
  obtain ⟨groups, zeros, hzeros, hspells, hgroups⟩ : ∃ groups zeros, zeros < 5 ∧
      Spells (base32EncodeLoop input 0 0) groups ∧
      groupBits 5 groups = bits 0 0 ++ groupBits 8 (input.map UInt8.toNat) ++
        List.replicate zeros false := base32EncodeLoop_spells (by decide)
  rw [bits_zero, List.nil_append] at hgroups
  have hlengths := congrArg List.length hgroups
  rw [List.length_append, length_groupBits, length_groupBits, List.length_map,
    List.length_replicate] at hlengths
  refine ⟨_, if_neg (Nat.not_lt.mpr hcap), ?_, fun typed outCap htyped hroom => ?_⟩
  · rw [hspells.text_eq, List.length_map]
    rw [base32Need] at hcap
    omega
  · have hwhole : typed.takeWhile (· ≠ 0) = typed := by
      rw [List.takeWhile_eq_self_iff]
      intro c hc
      have hne : c ≠ 0 := fun h0 => zero_notMem_retyped hspells htyped (h0 ▸ hc)
      simpa using hne
    rw [hspells.text_eq] at htyped
    obtain ⟨out, rest, hout, hrest, hbits⟩ : ∃ out rest,
        base32DecodeLoop outCap typed 0 0 0 = .ok out ∧ rest.length < 8 ∧
        groupBits 8 (out.map UInt8.toNat) ++ rest = bits 0 0 ++ groupBits 5 groups :=
      base32DecodeLoop_retyped hspells.small htyped (by decide) (by omega)
    rw [base32Decode, hwhole, hout, Except.ok.injEq]
    rw [bits_zero, List.nil_append, hgroups] at hbits
    have hbytes : ∀ bytes : List UInt8, ∀ n ∈ bytes.map UInt8.toNat, n < 2 ^ 8 := by
      intro bytes n hn
      obtain ⟨b, -, rfl⟩ := List.mem_map.mp hn
      exact b.toNat_lt
    have hsame := groupBits_inj_of_append hrest (by rw [List.length_replicate]; omega)
      (hbytes out) (hbytes input) hbits
    exact List.map_injective_iff.mpr (fun a b h => UInt8.toNat_inj.mp h) hsame

end MetalBear.TwoFactor
