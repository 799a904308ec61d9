import Mathlib

/-!
# Binary formats

A format says how a value is written and how it is taken off the front of a text of bytes, and
carries the proof that the two agree: a value is taken exactly where it is valid and the text begins
with what is written for it. Formats are put together from smaller ones, and the proof with them.
-/

universe u v

/-- What is written for a value, and how it is taken off the front of a text. -/
structure Format (α : Type u) where
  encode : α → List UInt8
  take : List UInt8 → Option (α × List UInt8)
  Valid : α → Prop
  take_eq_some : ∀ bytes a rest, take bytes = some (a, rest) ↔ Valid a ∧ bytes = encode a ++ rest

namespace Format

variable {α : Type u} {β : Type v} {bytes rest : List UInt8}

/-- What is written for a valid value is taken off again. -/
theorem take_encode (f : Format α) {a : α} (h : f.Valid a) (rest : List UInt8) :
    f.take (f.encode a ++ rest) = some (a, rest) :=
  (f.take_eq_some _ a rest).mpr ⟨h, rfl⟩

/-! ## Numbers -/

/-- The number of two bytes, the higher one first. -/
def word16 (high low : UInt8) : Nat := high.toNat * 256 + low.toNat

theorem word16_lt (high low : UInt8) : word16 high low < 2 ^ 16 := by
  have hhigh := high.toNat_lt
  have hlow := low.toNat_lt
  unfold word16
  omega

/-- The two bytes of a number. -/
def bytes16 (n : Nat) : List UInt8 := [UInt8.ofNat (n / 256), UInt8.ofNat n]

theorem word16_ofNat {n : Nat} (h : n < 2 ^ 16) :
    word16 (UInt8.ofNat (n / 256)) (UInt8.ofNat n) = n := by
  rw [word16, UInt8.toNat_ofNat', UInt8.toNat_ofNat']
  omega

theorem bytes16_word16 (high low : UInt8) : bytes16 (word16 high low) = [high, low] := by
  have hlow := low.toNat_lt
  have hdiv : (high.toNat * 256 + low.toNat) / 256 = high.toNat := by omega
  have hmod : (high.toNat * 256 + low.toNat) % 2 ^ 8 = low.toNat := by omega
  rw [bytes16, word16, hdiv, UInt8.ofNat_toNat]
  congr 2
  rw [← UInt8.toNat_inj, UInt8.toNat_ofNat', hmod]

/-- A number of 16 bits. -/
def word : Format Nat where
  encode := bytes16
  take
    | high :: low :: rest => some (word16 high low, rest)
    | _ => none
  Valid n := n < 2 ^ 16
  take_eq_some bytes n rest := by
    constructor
    · intro h
      split at h
      · next high low rest' =>
        cases h
        exact ⟨word16_lt high low, by rw [bytes16_word16]; rfl⟩
      · cases h
    · rintro ⟨hn, rfl⟩
      exact congrArg some (Prod.ext (word16_ofNat hn) rfl)

/-! ## Combinations -/

/-- One value after the other; what the second looks like may depend on the first. -/
def dep (f : Format α) (g : α → Format β) : Format (α × β) where
  encode p := f.encode p.1 ++ (g p.1).encode p.2
  take bytes := (f.take bytes).bind fun p => ((g p.1).take p.2).map fun q => ((p.1, q.1), q.2)
  Valid p := f.Valid p.1 ∧ (g p.1).Valid p.2
  take_eq_some bytes p rest := by
    obtain ⟨a, b⟩ := p
    constructor
    · intro h
      obtain ⟨⟨a', mid⟩, hf, h⟩ := Option.bind_eq_some_iff.mp h
      obtain ⟨⟨b', rest'⟩, hg, heq⟩ := Option.map_eq_some_iff.mp h
      cases heq
      obtain ⟨ha, rfl⟩ := (f.take_eq_some ..).mp hf
      obtain ⟨hb, rfl⟩ := ((g a').take_eq_some ..).mp hg
      exact ⟨⟨ha, hb⟩, (List.append_assoc ..).symm⟩
    · rintro ⟨⟨ha, hb⟩, rfl⟩
      dsimp only at ha hb ⊢
      rw [List.append_assoc, f.take_encode ha, Option.bind_some, (g a).take_encode hb]
      rfl

/-- One value after the other. -/
def seq (f : Format α) (g : Format β) : Format (α × β) := f.dep fun _ => g

/-- The same format for values of another shape. -/
def shape (f : Format α) (out : α → β) (back : β → α)
    (hback : ∀ a, f.Valid a → back (out a) = a) (hout : ∀ b, out (back b) = b) : Format β where
  encode b := f.encode (back b)
  take bytes := (f.take bytes).map fun p => (out p.1, p.2)
  Valid b := f.Valid (back b)
  take_eq_some bytes b rest := by
    constructor
    · intro h
      obtain ⟨⟨a, rest'⟩, hf, heq⟩ := Option.map_eq_some_iff.mp h
      cases heq
      obtain ⟨ha, rfl⟩ := (f.take_eq_some ..).mp hf
      dsimp only
      rw [hback a ha]
      exact ⟨ha, rfl⟩
    · rintro ⟨hb, rfl⟩
      rw [f.take_encode hb]
      exact congrArg some (Prod.ext (hout b) rfl)

/-- A number of 32 bits. -/
def long : Format Nat :=
  (word.seq word).shape (fun p => p.1 * 2 ^ 16 + p.2) (fun n => (n / 2 ^ 16, n % 2 ^ 16))
    (fun p hp => by
      have hlow : p.2 < 2 ^ 16 := hp.2
      refine Prod.ext ?_ ?_ <;> dsimp only <;> omega)
    fun n => by
      dsimp only
      omega

theorem long_valid {n : Nat} : long.Valid n ↔ n < 2 ^ 32 := by
  change n / 2 ^ 16 < 2 ^ 16 ∧ n % 2 ^ 16 < 2 ^ 16 ↔ _
  omega

/-- A text of so many bytes. -/
def text (n : Nat) : Format (List UInt8) where
  encode t := t
  take bytes := if n ≤ bytes.length then some (bytes.take n, bytes.drop n) else none
  Valid t := t.length = n
  take_eq_some bytes t rest := by
    constructor
    · intro h
      split at h
      · next hle =>
        cases h
        exact ⟨List.length_take_of_le hle, (List.take_append_drop n bytes).symm⟩
      · cases h
    · rintro ⟨rfl, rfl⟩
      rw [if_pos (by rw [List.length_append]; omega), List.take_left, List.drop_left]

/-- So many values. -/
def times (f : Format α) : Nat → List UInt8 → Option (List α × List UInt8)
  | 0, bytes => some ([], bytes)
  | n + 1, bytes =>
    (f.take bytes).bind fun p => (f.times n p.2).map fun q => (p.1 :: q.1, q.2)

theorem times_eq_some (f : Format α) {n : Nat} {l : List α} :
    f.times n bytes = some (l, rest) ↔
      (l.length = n ∧ ∀ a ∈ l, f.Valid a) ∧ bytes = l.flatMap f.encode ++ rest := by
  induction n generalizing bytes l with
  | zero =>
    constructor
    · intro h
      cases h
      exact ⟨⟨rfl, fun a ha => by cases ha⟩, rfl⟩
    · rintro ⟨⟨hlength, -⟩, rfl⟩
      obtain rfl := List.length_eq_zero_iff.mp hlength
      rfl
  | succ n ih =>
    constructor
    · intro h
      obtain ⟨⟨a, mid⟩, hf, h⟩ := Option.bind_eq_some_iff.mp h
      obtain ⟨⟨l', rest'⟩, hl, heq⟩ := Option.map_eq_some_iff.mp h
      cases heq
      obtain ⟨ha, rfl⟩ := (f.take_eq_some ..).mp hf
      obtain ⟨⟨hlength, hvalid⟩, rfl⟩ := ih.mp hl
      refine ⟨⟨congrArg (· + 1) hlength, List.forall_mem_cons.mpr ⟨ha, hvalid⟩⟩, ?_⟩
      rw [List.flatMap_cons, List.append_assoc]
    · rintro ⟨⟨hlength, hvalid⟩, rfl⟩
      cases l with
      | nil => cases hlength
      | cons a l =>
        obtain ⟨ha, hl⟩ := List.forall_mem_cons.mp hvalid
        have hrest := ih.mpr ⟨⟨Nat.succ.inj hlength, hl⟩, rfl⟩
        rw [List.flatMap_cons, List.append_assoc]
        unfold times
        rw [f.take_encode ha, Option.bind_some, hrest]
        rfl

/-- A list of so many values. -/
def list (f : Format α) (n : Nat) : Format (List α) where
  encode l := l.flatMap f.encode
  take := f.times n
  Valid l := l.length = n ∧ ∀ a ∈ l, f.Valid a
  take_eq_some _ _ _ := f.times_eq_some

/-- A text behind its length. -/
def counted : Format (List UInt8) :=
  (word.dep text).shape Prod.snd (fun t => (t.length, t)) (fun _ hp => Prod.ext hp.2 rfl)
    fun _ => rfl

theorem counted_valid {t : List UInt8} : counted.Valid t ↔ t.length < 2 ^ 16 :=
  and_iff_left rfl

theorem counted_encode (t : List UInt8) : counted.encode t = bytes16 t.length ++ t := rfl

end Format
