import Mathlib

/-!
# Texts of bytes

What C code does with a buffer of characters: it sees the bytes up to the first NUL, compares
names without regard to case, reads hexadecimal digits, and cuts a text into the pieces between
separators, where nothing follows a separator at the end.
-/

universe u

namespace ByteText

/-- What C sees of a buffer: nothing from the first NUL on. -/
def cString (buffer : List UInt8) : List UInt8 := buffer.takeWhile (· ≠ 0)

theorem cString_eq_self {text : List UInt8} (h : 0 ∉ text) : cString text = text := by
  refine List.takeWhile_eq_self_iff.mpr fun b hb => ?_
  have hne : b ≠ 0 := fun h0 => h (h0 ▸ hb)
  simpa using hne

/-- `tolower` in the C locale. -/
def toLower (b : UInt8) : UInt8 := if 65 ≤ b ∧ b ≤ 90 then b + 32 else b

/-- `strcasecmp` finds no difference. -/
def SameIgnoringCase (a b : List UInt8) : Prop := a.map toLower = b.map toLower

instance (a b : List UInt8) : Decidable (SameIgnoringCase a b) :=
  inferInstanceAs (Decidable (a.map toLower = b.map toLower))

/-- The value of a hexadecimal digit, in either case. -/
def hexValue (ch : UInt8) : Option Nat :=
  if 48 ≤ ch ∧ ch ≤ 57 then some (ch.toNat - 48)
  else if 97 ≤ ch ∧ ch ≤ 102 then some (ch.toNat - 97 + 10)
  else if 65 ≤ ch ∧ ch ≤ 70 then some (ch.toNat - 65 + 10)
  else none

section Pieces

variable {α : Type u} [DecidableEq α] {sep : α}

/-- The pieces of a text between separators; a separator at the end begins no further piece. -/
def pieces (sep : α) : List α → List (List α)
  | [] => []
  | c :: cs =>
    if c = sep then [] :: pieces sep cs
    else
      match pieces sep cs with
      | [] => [[c]]
      | first :: rest => (c :: first) :: rest

@[simp] theorem pieces_nil : pieces sep [] = [] := rfl

@[simp] theorem pieces_cons_self (rest : List α) :
    pieces sep (sep :: rest) = [] :: pieces sep rest := by
  rw [pieces, if_pos rfl]

theorem takeWhile_ne_of_append {piece : List α} (h : sep ∉ piece) (rest : List α) :
    (piece ++ sep :: rest).takeWhile (· ≠ sep) = piece := by
  rw [List.takeWhile_append_of_pos, List.takeWhile_cons_of_neg (by simp), List.append_nil]
  intro c hc
  simpa using fun heq : c = sep => h (heq ▸ hc)

theorem takeWhile_ne_of_not_mem {piece : List α} (h : sep ∉ piece) :
    piece.takeWhile (· ≠ sep) = piece := by
  refine List.takeWhile_eq_self_iff.mpr fun c hc => ?_
  simpa using fun heq : c = sep => h (heq ▸ hc)

/-- A separator ends a piece. -/
theorem pieces_append {piece : List α} (h : sep ∉ piece) (rest : List α) :
    pieces sep (piece ++ sep :: rest) = piece :: pieces sep rest := by
  induction piece with
  | nil => exact pieces_cons_self rest
  | cons c piece ih =>
    obtain ⟨hc, hpiece⟩ : sep ≠ c ∧ sep ∉ piece := by simpa using h
    rw [List.cons_append, pieces, if_neg hc.symm, ih hpiece]

/-- So does the end of the text. -/
theorem pieces_single {piece : List α} (h : sep ∉ piece) (hne : piece ≠ []) :
    pieces sep piece = [piece] := by
  induction piece with
  | nil => exact absurd rfl hne
  | cons c piece ih =>
    obtain ⟨hc, hpiece⟩ : sep ≠ c ∧ sep ∉ piece := by simpa using h
    rw [pieces, if_neg hc.symm]
    cases piece with
    | nil => rfl
    | cons d piece => rw [ih hpiece (List.cons_ne_nil d piece)]

/-- Pieces are mapped as the text is, where a map keeps the separator apart. -/
theorem pieces_map {f : α → α} (hf : ∀ c, f c = sep ↔ c = sep) (text : List α) :
    pieces sep (text.map f) = (pieces sep text).map (List.map f) := by
  induction text with
  | nil => rfl
  | cons c text ih =>
    rw [List.map_cons, pieces, pieces, ih]
    by_cases hc : c = sep
    · rw [if_pos ((hf c).mpr hc), if_pos hc, List.map_cons, List.map_nil]
    · rw [if_neg fun heq => hc ((hf c).mp heq), if_neg hc]
      cases pieces sep text <;> rfl

/-- Either there is no separator, or the text goes on behind the first one. -/
theorem exists_piece (sep : α) (text : List α) :
    sep ∉ text ∨ ∃ piece rest, text = piece ++ sep :: rest ∧ sep ∉ piece := by
  by_cases h : sep ∈ text
  · obtain ⟨piece, rest, rfl, hnot⟩ := List.eq_append_cons_of_mem h
    exact Or.inr ⟨piece, rest, rfl, hnot⟩
  · exact Or.inl h

/-- Pieces that are not empty are read back from the text they are joined to. -/
theorem pieces_intercalate {parts : List (List α)} (h : ∀ part ∈ parts, sep ∉ part ∧ part ≠ []) :
    pieces sep ([sep].intercalate parts) = parts := by
  induction parts with
  | nil => simp [List.intercalate, pieces_nil]
  | cons part parts ih =>
    obtain ⟨hsep, hne⟩ := h part List.mem_cons_self
    cases parts with
    | nil => simpa [List.intercalate] using pieces_single hsep hne
    | cons next parts =>
      have hrest := ih fun q hq => h q (List.mem_cons_of_mem part hq)
      have hjoin : [sep].intercalate (part :: next :: parts) =
          part ++ sep :: [sep].intercalate (next :: parts) := by
        simp [List.intercalate]
      rw [hjoin, pieces_append hsep, hrest]

/-- All pieces, of which the last may be empty, are those of `List.splitOn`. -/
theorem splitOn_eq_pieces (sep : α) (text : List α) :
    text.splitOn sep = pieces sep text ++
      (if text = [] ∨ text.getLast? = some sep then [[]] else []) := by
  induction hlength : text.length using Nat.strong_induction_on generalizing text with
  | _ n ih =>
    subst hlength
    rcases exists_piece sep text with hnone | ⟨piece, rest, rfl, hpiece⟩
    · rw [List.splitOn_eq_singleton hnone]
      by_cases hnil : text = []
      · subst hnil
        simp [pieces_nil]
      · rw [pieces_single hnone hnil, if_neg, List.append_nil]
        rintro (h | h)
        · exact hnil h
        · exact hnone (List.mem_of_getLast? h)
    · rw [List.splitOn_append_cons_self, List.splitOn_eq_singleton hpiece, pieces_append hpiece,
        ih rest.length (by simp; omega) rest rfl]
      cases rest with
      | nil => simp [pieces_nil]
      | cons c cs => simp

end Pieces

end ByteText
