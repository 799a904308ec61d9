import Mathlib

/-!
# Groups of bits

A number as the list of its low bits, the most significant first, and what shifting, masking and
cutting do to that list. A text in groups of one width says the same as a text in groups of another
if their lists of bits are the same.
-/

namespace BitGroups

/-- The low bits of a number, the most significant first. -/
def bits : Nat → Nat → List Bool
  | 0, _ => []
  | width + 1, n => bits width (n / 2) ++ [decide (n % 2 = 1)]

/-- The bits of groups of one width. -/
def groupBits (width : Nat) (groups : List Nat) : List Bool := groups.flatMap (bits width)

variable {width low k n m v : Nat} {groups groups' : List Nat}

@[simp] theorem bits_zero (n : Nat) : bits 0 n = [] := rfl

theorem bits_succ (width n : Nat) :
    bits (width + 1) n = bits width (n / 2) ++ [decide (n % 2 = 1)] := rfl

@[simp] theorem length_bits (width n : Nat) : (bits width n).length = width := by
  induction width generalizing n with
  | zero => rfl
  | succ width ih => rw [bits_succ, List.length_append, ih, List.length_singleton]

/-- The list can be cut anywhere. -/
theorem bits_add (width low n : Nat) :
    bits (width + low) n = bits width (n / 2 ^ low) ++ bits low n := by
  induction low generalizing n with
  | zero => rw [Nat.add_zero, pow_zero, Nat.div_one, bits_zero, List.append_nil]
  | succ low ih =>
    rw [← Nat.add_assoc, bits_succ, ih, bits_succ, List.append_assoc, Nat.div_div_eq_div_mul,
      pow_succ']

/-- Two numbers have the same low bits if they are the same up to multiples of the power. -/
theorem bits_inj : bits width n = bits width m ↔ n % 2 ^ width = m % 2 ^ width := by
  induction width generalizing n m with
  | zero => simp [Nat.mod_one]
  | succ width ih =>
    rw [bits_succ, bits_succ, pow_succ', Nat.mod_mul, Nat.mod_mul]
    constructor
    · intro h
      obtain ⟨hhigh, hlast⟩ := List.append_inj' h rfl
      have hhigh := ih.mp hhigh
      have hlast : n % 2 = 1 ↔ m % 2 = 1 := by simpa using hlast
      omega
    · intro h
      have hhigh : n / 2 % 2 ^ width = m / 2 % 2 ^ width := by omega
      have hlast : n % 2 = m % 2 := by omega
      rw [ih.mpr hhigh, hlast]

/-- A mask that reaches over the low bits keeps them. -/
theorem bits_mod (h : width ≤ m) : bits width (n % 2 ^ m) = bits width n := by
  rw [bits_inj, Nat.mod_mod_of_dvd n (pow_dvd_pow 2 h)]

/-- A group is shifted in at the end; the mask drops none of the bits that count. -/
theorem bits_push (hv : v < 2 ^ width) (hmask : k + width ≤ m) :
    bits (k + width) (((n <<< width) ||| v) &&& (2 ^ m - 1)) = bits k n ++ bits width v := by
  rw [Nat.and_two_pow_sub_one_eq_mod, bits_mod hmask, ← Nat.shiftLeft_add_eq_or_of_lt hv,
    Nat.shiftLeft_eq, bits_add]
  have hpos : 0 < 2 ^ width := by positivity
  have hhigh : (n * 2 ^ width + v) / 2 ^ width = n := by
    rw [Nat.mul_comm, Nat.mul_add_div hpos, Nat.div_eq_of_lt hv, Nat.add_zero]
  have hlow : bits width (n * 2 ^ width + v) = bits width v := by
    rw [bits_inj, Nat.mul_comm, Nat.mul_add_mod]
  rw [hhigh, hlow]

/-- The first group is read by shifting the others out. -/
theorem bits_pop (width low n : Nat) :
    bits (width + low) n = bits width ((n >>> low) &&& (2 ^ width - 1)) ++ bits low n := by
  rw [Nat.and_two_pow_sub_one_eq_mod, bits_mod (Nat.le_refl width), Nat.shiftRight_eq_div_pow,
    bits_add]

/-- What is left is filled up with zeros. -/
theorem bits_fill (low k n : Nat) :
    bits (k + low) ((n <<< low) &&& (2 ^ (k + low) - 1)) = bits k n ++ List.replicate low false := by
  have hzero : bits low 0 = List.replicate low false := by
    induction low with
    | zero => rfl
    | succ low ih =>
      rw [bits_succ, Nat.zero_div, ih, List.replicate_succ']
      rfl
  have hpush : bits (k + low) (((n <<< low) ||| 0) &&& (2 ^ (k + low) - 1)) =
      bits k n ++ bits low 0 := bits_push (by positivity) (Nat.le_refl _)
  rw [Nat.or_zero] at hpush
  rw [hpush, hzero]

/-! ## Groups -/

@[simp] theorem groupBits_nil : groupBits width [] = [] := rfl

@[simp] theorem groupBits_cons :
    groupBits width (n :: groups) = bits width n ++ groupBits width groups := rfl

@[simp] theorem groupBits_append :
    groupBits width (groups ++ groups') = groupBits width groups ++ groupBits width groups' :=
  List.flatMap_append

@[simp] theorem length_groupBits : (groupBits width groups).length = groups.length * width := by
  induction groups with
  | nil => rw [groupBits_nil, List.length_nil, List.length_nil, Nat.zero_mul]
  | cons n groups ih =>
    rw [groupBits_cons, List.length_append, length_bits, ih, List.length_cons, Nat.succ_mul,
      Nat.add_comm]

/-- As many groups with the same bits are the same. -/
theorem groupBits_inj (hlength : groups.length = groups'.length)
    (hgroups : ∀ n ∈ groups, n < 2 ^ width) (hgroups' : ∀ n ∈ groups', n < 2 ^ width)
    (h : groupBits width groups = groupBits width groups') : groups = groups' := by
  induction groups generalizing groups' with
  | nil => exact (List.length_eq_zero_iff.mp hlength.symm).symm
  | cons n groups ih =>
    obtain ⟨m, groups', rfl⟩ := List.exists_cons_of_length_eq_add_one hlength.symm
    rw [List.forall_mem_cons] at hgroups hgroups'
    rw [groupBits_cons, groupBits_cons] at h
    obtain ⟨hfirst, hrest⟩ := List.append_inj h (by rw [length_bits, length_bits])
    rw [bits_inj, Nat.mod_eq_of_lt hgroups.1, Nat.mod_eq_of_lt hgroups'.1] at hfirst
    rw [hfirst, ih (Nat.succ.inj hlength) hgroups.2 hgroups'.2 hrest]

/-- Groups are told by their bits, if fewer bits than one group has are left over. -/
theorem groupBits_inj_of_append {rest rest' : List Bool} (hrest : rest.length < width)
    (hrest' : rest'.length < width) (hgroups : ∀ n ∈ groups, n < 2 ^ width)
    (hgroups' : ∀ n ∈ groups', n < 2 ^ width)
    (h : groupBits width groups ++ rest = groupBits width groups' ++ rest') :
    groups = groups' := by
  have hlengths := congrArg List.length h
  rw [List.length_append, List.length_append, length_groupBits, length_groupBits] at hlengths
  have hlength : groups.length = groups'.length := by
    have hquotient := congrArg (· / width) hlengths
    rwa [Nat.mul_comm, Nat.mul_comm groups'.length, Nat.mul_add_div (by omega),
      Nat.mul_add_div (by omega), Nat.div_eq_of_lt hrest, Nat.div_eq_of_lt hrest', Nat.add_zero,
      Nat.add_zero] at hquotient
  have hsame := (List.append_inj h (by rw [length_groupBits, length_groupBits, hlength])).1
  exact groupBits_inj hlength hgroups hgroups' hsame

end BitGroups
