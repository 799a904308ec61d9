import MetalBear.OAuth.Tokens

/-!
# One spelling

The decoder accepts what the encoder writes and nothing else, so bytes have one accepted spelling
and so has a token.
-/

namespace MetalBear.OAuth

variable {c : Char} {v n : Nat} {text : List Char} {bytes : List UInt8}

/-- A range of the alphabet. -/
theorem getD_alphabet_range (start offset count : Nat)
    (hall : ∀ i < count, b64urlAlphabet.getD (offset + i) 'A' = Char.ofNat (start + i))
    (hlow : start ≤ c.toNat) (hhigh : c.toNat < start + count) :
    b64urlAlphabet.getD (c.toNat - start + offset) 'A' = c := by
  have hindex : c.toNat - start + offset = offset + (c.toNat - start) := by omega
  rw [hindex, hall (c.toNat - start) (by omega), Nat.add_sub_cancel' hlow, Char.ofNat_toNat]

/-- A value stands for one character of the alphabet. -/
theorem of_base64urlValue (h : base64urlValue c = some v) :
    b64urlAlphabet.getD v 'A' = c ∧ v < 64 := by
  rw [base64urlValue] at h
  split at h
  · next hupper =>
    have hlow : 65 ≤ c.toNat := hupper.1
    have hhigh : c.toNat ≤ 90 := hupper.2
    cases h
    exact ⟨getD_alphabet_range 65 0 26 (by decide) hlow
      (by omega), by change c.toNat - 65 < 64; omega⟩
  · split at h
    · next hlower =>
      have hlow : 97 ≤ c.toNat := hlower.1
      have hhigh : c.toNat ≤ 122 := hlower.2
      cases h
      exact ⟨getD_alphabet_range 97 26 26 (by decide) hlow
        (by omega), by change c.toNat - 97 + 26 < 64; omega⟩
    · split at h
      · next hdigit =>
        have hlow : 48 ≤ c.toNat := hdigit.1
        have hhigh : c.toNat ≤ 57 := hdigit.2
        cases h
        exact ⟨getD_alphabet_range 48 52 10 (by decide) hlow
          (by omega), by change c.toNat - 48 + 52 < 64; omega⟩
      · split at h
        · next hdash =>
          cases h
          exact ⟨hdash.symm, by decide⟩
        · split at h
          · next hline =>
            cases h
            exact ⟨hline.symm, by decide⟩
          · cases h

theorem mem_alphabet_of_value (h : base64urlValue c = some v) : c ∈ b64urlAlphabet := by
  obtain ⟨hc, hv⟩ := of_base64urlValue h
  have hlength : v < b64urlAlphabet.length := hv
  rw [← hc, List.getD_eq_getElem _ _ hlength]
  exact List.getElem_mem hlength

theorem b64urlChar_value (h : base64urlValue c = some v) (hn : n % 64 = v) : b64urlChar n = c := by
  rw [b64urlChar, hn, (of_base64urlValue h).1]

/-! ## What is decoded -/

/-- What is decoded is what is encoded so. -/
theorem base64urlEncode_of_decode (h : base64urlDecode text = some bytes) :
    base64urlEncode bytes = text := by
  induction text using base64urlDecode.induct generalizing bytes with
  | case1 =>
    cases h
    rfl
  | case2 a => cases h
  | case3 a b =>
    simp only [base64urlDecode, Option.bind_eq_bind, Option.bind_eq_some_iff] at h
    obtain ⟨x, hx, y, hy, h⟩ := h
    have hx64 := (of_base64urlValue hx).2
    have hy64 := (of_base64urlValue hy).2
    by_cases hunused : y % 16 ≠ 0
    · rw [if_pos hunused] at h
      cases h
    · rw [if_neg hunused] at h
      cases h
      simp only [base64urlEncode, UInt8.toNat_ofNat']
      rw [b64urlChar_value hx (by omega), b64urlChar_value hy (by omega)]
  | case4 a b c =>
    simp only [base64urlDecode, Option.bind_eq_bind, Option.bind_eq_some_iff] at h
    obtain ⟨x, hx, y, hy, z, hz, h⟩ := h
    have hx64 := (of_base64urlValue hx).2
    have hy64 := (of_base64urlValue hy).2
    have hz64 := (of_base64urlValue hz).2
    by_cases hunused : z % 4 ≠ 0
    · rw [if_pos hunused] at h
      cases h
    · rw [if_neg hunused] at h
      cases h
      simp only [base64urlEncode, UInt8.toNat_ofNat']
      rw [b64urlChar_value hx (by omega), b64urlChar_value hy (by omega),
        b64urlChar_value hz (by omega)]
  | case5 a b c d rest ih =>
    simp only [base64urlDecode, Option.bind_eq_bind, Option.bind_eq_some_iff] at h
    obtain ⟨x, hx, y, hy, z, hz, w, hw, tail, htail, h⟩ := h
    have hx64 := (of_base64urlValue hx).2
    have hy64 := (of_base64urlValue hy).2
    have hz64 := (of_base64urlValue hz).2
    have hw64 := (of_base64urlValue hw).2
    cases h
    simp only [base64urlEncode, UInt8.toNat_ofNat']
    rw [b64urlChar_value hx (by omega), b64urlChar_value hy (by omega),
      b64urlChar_value hz (by omega), b64urlChar_value hw (by omega), ih htail]

/-- The texts that are decoded are those that are encoded. -/
theorem base64urlDecode_eq_some_iff :
    base64urlDecode text = some bytes ↔ text = base64urlEncode bytes := by
  constructor
  · exact fun h => (base64urlEncode_of_decode h).symm
  · rintro rfl
    exact base64urlDecode_encode bytes

theorem mem_alphabet_of_mem_encode (h : c ∈ base64urlEncode bytes) : c ∈ b64urlAlphabet := by
  have hchar : ∀ n, b64urlChar n ∈ b64urlAlphabet := fun n =>
    mem_alphabet_of_value (base64urlValue_char n)
  induction bytes using base64urlEncode.induct with
  | case1 => cases h
  | case2 a =>
    rw [base64urlEncode] at h
    simp only [List.mem_cons, List.not_mem_nil, or_false] at h
    rcases h with rfl | rfl <;> exact hchar _
  | case3 a b =>
    rw [base64urlEncode] at h
    simp only [List.mem_cons, List.not_mem_nil, or_false] at h
    rcases h with rfl | rfl | rfl <;> exact hchar _
  | case4 a b d rest ih =>
    rw [base64urlEncode] at h
    simp only [List.mem_cons] at h
    rcases h with rfl | rfl | rfl | rfl | h
    · exact hchar _
    · exact hchar _
    · exact hchar _
    · exact hchar _
    · exact ih h

/-- The length and the last character of what is encoded. -/
theorem encode_tail (bytes : List UInt8) : (base64urlEncode bytes).length % 4 ≠ 1 ∧
    ((base64urlEncode bytes).length % 4 = 2 →
      ∃ n, (base64urlEncode bytes).getLast? = some (b64urlChar n) ∧ n % 16 = 0) ∧
    ((base64urlEncode bytes).length % 4 = 3 →
      ∃ n, (base64urlEncode bytes).getLast? = some (b64urlChar n) ∧ n % 4 = 0) := by
  induction bytes using base64urlEncode.induct with
  | case1 => exact ⟨by decide, fun h => absurd h (by decide), fun h => absurd h (by decide)⟩
  | case2 a =>
    have hlength : (base64urlEncode [a]).length = 2 := rfl
    rw [hlength]
    exact ⟨by decide, fun _ => ⟨a.toNat * 65536 / 4096, rfl, by omega⟩,
      fun h => absurd h (by decide)⟩
  | case3 a b =>
    have hlength : (base64urlEncode [a, b]).length = 3 := rfl
    rw [hlength]
    exact ⟨by decide, fun h => absurd h (by decide),
      fun _ => ⟨(a.toNat * 65536 + b.toNat * 256) / 64, rfl, by omega⟩⟩
  | case4 a b d rest ih =>
    rw [base64urlEncode]
    simp only [List.length_cons, Nat.add_assoc, Nat.reduceAdd, Nat.add_mod_right]
    cases hrest : base64urlEncode rest with
    | nil => exact ⟨by decide, fun h => absurd h (by decide), fun h => absurd h (by decide)⟩
    | cons first others =>
      rw [hrest] at ih
      simpa only [List.getLast?_cons_cons] using ih

/-- A tail whose unused bits are not zero is not decoded. -/
theorem base64urlDecode_unused {body : List Char} (hc : base64urlValue c = some v)
    (h : body.length % 4 = 1 ∧ v % 16 ≠ 0 ∨ body.length % 4 = 2 ∧ v % 4 ≠ 0) :
    base64urlDecode (body ++ [c]) = none := by
  cases hdecode : base64urlDecode (body ++ [c]) with
  | none => rfl
  | some bytes =>
    have htext := base64urlDecode_eq_some_iff.mp hdecode
    obtain ⟨-, htwo, hthree⟩ := encode_tail bytes
    rw [← htext, List.length_append, List.length_singleton, List.getLast?_concat] at htwo hthree
    have hvalue : ∀ n, some c = some (b64urlChar n) → v = n % 64 := by
      intro n hn
      rw [Option.some.inj hn, base64urlValue_char, Option.some.injEq] at hc
      exact hc.symm
    rcases h with ⟨hlength, hunused⟩ | ⟨hlength, hunused⟩
    · obtain ⟨n, hlast, hn⟩ := htwo (by omega)
      have := hvalue n hlast
      omega
    · obtain ⟨n, hlast, hn⟩ := hthree (by omega)
      have := hvalue n hlast
      omega

/-! ## Tokens -/

/-- The header, the payload and the signature of a token, decoded. -/
def jwtParts (token : String) : Option (List UInt8 × List UInt8 × List UInt8) := do
  let (header, rest) ← cutAtDot token.toList
  let (payload, signature) ← cutAtDot rest
  let header ← base64urlDecode header
  let payload ← base64urlDecode payload
  let signature ← base64urlDecode signature
  some (header, payload, signature)

theorem cutAtDot_eq_some {rest : List Char} {pre : List Char}
    (h : cutAtDot text = some (pre, rest)) : text = pre ++ '.' :: rest := by
  rw [cutAtDot] at h
  split at h
  · cases h
  · next first others hdrop =>
    cases h
    have hdot : first = '.' := by
      have hhead := List.head?_dropWhile_not (fun x => decide (x ≠ '.')) text
      rw [hdrop, List.head?_cons] at hhead
      simpa using hhead
    conv_lhs => rw [← List.takeWhile_append_dropWhile (p := fun x => decide (x ≠ '.')) (l := text)]
    rw [hdrop, hdot]

/-- A token is spelled as its parts are encoded. -/
theorem token_of_jwtParts {token : String} {header payload signature : List UInt8}
    (h : jwtParts token = some (header, payload, signature)) :
    token.toList = base64urlEncode header ++ '.' ::
      (base64urlEncode payload ++ '.' :: base64urlEncode signature) := by
  simp only [jwtParts, Option.bind_eq_bind, Option.bind_eq_some_iff] at h
  obtain ⟨⟨first, rest⟩, hfirst, ⟨second, third⟩, hsecond, a, ha, b, hb, d, hd, h⟩ := h
  simp only [Option.some.injEq, Prod.mk.injEq] at h
  obtain ⟨rfl, rfl, rfl⟩ := h
  dsimp only at hsecond ha hb hd
  rw [cutAtDot_eq_some hfirst, cutAtDot_eq_some hsecond, base64urlEncode_of_decode ha,
    base64urlEncode_of_decode hb, base64urlEncode_of_decode hd]

/-- A token that is accepted has parts. -/
theorem jwtParts_of_verifyJwt {lib : TokenLibrary} {store : AuthStore} {now : Int}
    {token : String} {kind : TokenKind} {allowExpired : Bool} {v : VerifiedJwt}
    (h : verifyJwt lib store now token kind allowExpired = .ok v) : (jwtParts token).isSome := by
  rw [verifyJwt] at h
  split at h
  · cases h
  · split at h
    · cases h
    · next header rest hfirst =>
      split at h
      · cases h
      · next payload signature hsecond =>
        simp only at h
        split at h
        · cases h
        · split at h
          · cases h
          · next hsignature =>
            split at h
            · cases h
            · next verified hverified =>
              simp only [Option.bind_eq_bind, Option.bind_eq_some_iff] at hverified
              obtain ⟨_, ⟨headerBytes, hheader, -⟩, _, ⟨payloadBytes, hpayload, -⟩, -⟩ := hverified
              rw [ne_eq, not_not] at hsignature
              simp only [jwtParts, Option.bind_eq_bind, hfirst, Option.bind_some, hsecond, hheader,
                hpayload, hsignature, Option.isSome_some]

/-! ## The main result -/

/-- The codec goes round both ways; what is not written so is rejected; and an accepted token has
one spelling. -/
theorem base64url_one_spelling :
    (∀ bytes, base64urlDecode (base64urlEncode bytes) = some bytes) ∧
    (∀ text bytes, base64urlDecode text = some bytes → base64urlEncode bytes = text) ∧
    (∀ text, text.length % 4 = 1 → base64urlDecode text = none) ∧
    (∀ text c, c ∈ text → c ∉ b64urlAlphabet → base64urlDecode text = none) ∧
    (∀ text, '=' ∈ text → base64urlDecode text = none) ∧
    (∀ body c v, base64urlValue c = some v →
      body.length % 4 = 1 ∧ v % 16 ≠ 0 ∨ body.length % 4 = 2 ∧ v % 4 ≠ 0 →
      base64urlDecode (body ++ [c]) = none) ∧
    (∀ lib store now kind allowExpired token token' v,
      verifyJwt lib store now token kind allowExpired = .ok v →
      jwtParts token' = jwtParts token → token' = token) := by
  have hstray : ∀ text c, c ∈ text → c ∉ b64urlAlphabet → base64urlDecode text = none := by
    intro text c hmem hc
    cases hdecode : base64urlDecode text with
    | none => rfl
    | some bytes =>
      rw [base64urlDecode_eq_some_iff.mp hdecode] at hmem
      exact absurd (mem_alphabet_of_mem_encode hmem) hc
  refine ⟨base64urlDecode_encode, fun text bytes => base64urlEncode_of_decode, ?_, hstray, ?_,
    fun body c v => base64urlDecode_unused, ?_⟩
  · intro text hlength
    cases hdecode : base64urlDecode text with
    | none => rfl
    | some bytes =>
      rw [base64urlDecode_eq_some_iff.mp hdecode] at hlength
      exact absurd hlength (encode_tail bytes).1
  · exact fun text hmem => hstray text '=' hmem (by decide)
  · intro lib store now kind allowExpired token token' v hverified hsame
    obtain ⟨⟨header, payload, signature⟩, hparts⟩ :=
      Option.isSome_iff_exists.mp (jwtParts_of_verifyJwt hverified)
    apply String.toList_inj.mp
    rw [token_of_jwtParts hparts, token_of_jwtParts (hsame.trans hparts)]

end MetalBear.OAuth
