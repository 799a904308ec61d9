import Mathlib

/-!
# Data items in binary

The concise binary representation of data: an item begins with a head of a major type and an
argument, and holds bytes, or other items, of definite length. The grammar is a relation on
strings of bytes; items stand at a level, and none may stand deeper than a limit.
-/

namespace CborGrammar

/-- A number in bytes, the most significant first. -/
def ofBytes (bytes : List UInt8) : Nat := bytes.foldl (fun n b => 256 * n + b.toNat) 0

/-- The number of bytes of the argument behind the initial byte, by its additional information;
indefinite lengths and reserved values have none. -/
def argumentWidth (info : Nat) : Option Nat :=
  if info < 24 then some 0
  else if info = 24 then some 1
  else if info = 25 then some 2
  else if info = 26 then some 4
  else if info = 27 then some 8
  else none

/-- The head of an item: its major type and its argument. -/
def IsHead (major arg : Nat) (bytes : List UInt8) : Prop :=
  ∃ initial tail, bytes = initial :: tail ∧ initial.toNat / 32 = major ∧
    argumentWidth (initial.toNat % 32) = some tail.length ∧
    arg = if tail = [] then initial.toNat % 32 else ofBytes tail

/-- A simple value in two bytes that has a form of one byte. -/
def PaddedSimple (head : List UInt8) : Prop := ∃ b : UInt8, head = [0xf8, b] ∧ b.toNat < 32

/-- The number of items in an item: those of an array, the keys and values of a map, and the one
behind a tag. -/
def nested (major arg : Nat) : Option Nat :=
  match major with
  | 4 => some arg
  | 5 => some (2 * arg)
  | 6 => some 1
  | _ => none

/-- The bytes are one item of definite length that stands at a level; no item in it stands deeper
than the limit, and the heads of simple values are as asked. -/
inductive IsItem (simple : List UInt8 → Prop) (limit : Nat) : Nat → List UInt8 → Prop where
  | atom {level major arg : Nat} {head : List UInt8} (hlevel : level ≤ limit)
      (hmajor : major = 0 ∨ major = 1 ∨ major = 7) (hhead : IsHead major arg head)
      (hsimple : major = 7 → simple head) : IsItem simple limit level head
  | string {level major : Nat} {head data : List UInt8} (hlevel : level ≤ limit)
      (hmajor : major = 2 ∨ major = 3) (hhead : IsHead major data.length head) :
      IsItem simple limit level (head ++ data)
  | nest {level major arg : Nat} {head : List UInt8} {items : List (List UInt8)}
      (hlevel : level ≤ limit) (hhead : IsHead major arg head)
      (hcount : nested major arg = some items.length)
      (hitems : ∀ item ∈ items, IsItem simple limit (level + 1) item) :
      IsItem simple limit level (head ++ items.flatten)

/-- The items of the standard. -/
abbrev IsWellFormed (limit level : Nat) (bytes : List UInt8) : Prop :=
  IsItem (fun head => ¬ PaddedSimple head) limit level bytes

/-- The items where every simple value may be written in two bytes. -/
abbrev IsLoose (limit level : Nat) (bytes : List UInt8) : Prop :=
  IsItem (fun _ => True) limit level bytes

theorem IsHead.ne_nil {major arg : Nat} {bytes : List UInt8} (h : IsHead major arg bytes) :
    bytes ≠ [] := by
  obtain ⟨initial, tail, rfl, -⟩ := h
  exact List.cons_ne_nil _ _

theorem ofBytes_concat (bytes : List UInt8) (b : UInt8) :
    ofBytes (bytes ++ [b]) = 256 * ofBytes bytes + b.toNat := by
  simp [ofBytes]

theorem ofBytes_lt (bytes : List UInt8) : ofBytes bytes < 256 ^ bytes.length := by
  induction bytes using List.reverseRecOn with
  | nil => simp [ofBytes]
  | append_singleton bytes b ih =>
    have hb := b.toNat_lt
    rw [ofBytes_concat, List.length_append, List.length_singleton, Nat.pow_succ]
    omega

theorem argumentWidth_le {info width : Nat} (h : argumentWidth info = some width) : width ≤ 8 := by
  simp only [argumentWidth] at h
  split_ifs at h <;> cases h <;> omega

/-- An argument has 64 bits. -/
theorem IsHead.arg_lt {major arg : Nat} {bytes : List UInt8} (h : IsHead major arg bytes) :
    arg < 2 ^ 64 := by
  obtain ⟨initial, tail, -, -, hwidth, rfl⟩ := h
  split
  · omega
  · calc ofBytes tail < 256 ^ tail.length := ofBytes_lt tail
      _ ≤ 256 ^ 8 := Nat.pow_le_pow_right (by omega) (argumentWidth_le hwidth)
      _ = 2 ^ 64 := by norm_num

/-- A head can be told from what follows it. -/
theorem IsHead.unique {major arg major' arg' : Nat} {bytes bytes' rest rest' : List UInt8}
    (h : IsHead major arg bytes) (h' : IsHead major' arg' bytes')
    (heq : bytes ++ rest = bytes' ++ rest') :
    major = major' ∧ arg = arg' ∧ bytes = bytes' ∧ rest = rest' := by
  obtain ⟨initial, tail, rfl, rfl, hwidth, rfl⟩ := h
  obtain ⟨initial', tail', rfl, rfl, hwidth', rfl⟩ := h'
  obtain ⟨rfl, htails⟩ := List.cons.inj heq
  have hlength : tail.length = tail'.length := Option.some.inj (hwidth.symm.trans hwidth')
  obtain ⟨rfl, rfl⟩ := List.append_inj htails hlength
  exact ⟨rfl, rfl, rfl, rfl⟩

/-- The items that hold items are arrays, maps and tagged items. -/
theorem nested_eq_some {major arg count : Nat} (h : nested major arg = some count) :
    (major = 4 ∧ count = arg) ∨ (major = 5 ∧ count = 2 * arg) ∨ (major = 6 ∧ count = 1) := by
  unfold nested at h
  split at h
  · exact Or.inl ⟨rfl, (Option.some.inj h).symm⟩
  · exact Or.inr (Or.inl ⟨rfl, (Option.some.inj h).symm⟩)
  · exact Or.inr (Or.inr ⟨rfl, (Option.some.inj h).symm⟩)
  · cases h

variable {simple simple' : List UInt8 → Prop} {limit limit' level level' : Nat}
  {bytes bytes' : List UInt8}

/-- An item is not empty. -/
theorem IsItem.ne_nil (h : IsItem simple limit level bytes) : bytes ≠ [] := by
  cases h with
  | atom _ _ hhead => exact hhead.ne_nil
  | string _ _ hhead => exact fun hnil => hhead.ne_nil (List.append_eq_nil_iff.mp hnil).1
  | nest _ hhead => exact fun hnil => hhead.ne_nil (List.append_eq_nil_iff.mp hnil).1

/-- No item stands deeper than the limit. -/
theorem IsItem.level_le (h : IsItem simple limit level bytes) : level ≤ limit := by
  cases h <;> assumption

/-- What is asked of simple values may be weakened. -/
theorem IsItem.mono (himp : ∀ head, simple head → simple' head)
    (h : IsItem simple limit level bytes) : IsItem simple' limit level bytes := by
  induction h with
  | atom hlevel hmajor hhead hsimple =>
    exact .atom hlevel hmajor hhead fun h7 => himp _ (hsimple h7)
  | string hlevel hmajor hhead => exact .string hlevel hmajor hhead
  | nest hlevel hhead hcount _ ih => exact .nest hlevel hhead hcount ih

/-- Where the text of each thing can be told from what follows it, so can those of all
together. -/
theorem flatten_map_unique {α : Type*} {f : α → List UInt8} {as as' : List α}
    (hlength : as.length = as'.length)
    (h : ∀ a ∈ as, ∀ b ∈ as', ∀ x y, f a ++ x = f b ++ y → a = b) {x y : List UInt8}
    (heq : (as.map f).flatten ++ x = (as'.map f).flatten ++ y) : as = as' := by
  induction as generalizing as' with
  | nil => exact (List.length_eq_zero_iff.mp hlength.symm).symm
  | cons a as ih =>
    cases as' with
    | nil => cases hlength
    | cons b as' =>
      rw [List.map_cons, List.map_cons, List.flatten_cons, List.flatten_cons, List.append_assoc,
        List.append_assoc] at heq
      obtain rfl := h a List.mem_cons_self b List.mem_cons_self _ _ heq
      refine congrArg (a :: ·) (ih (Nat.succ.inj hlength) (fun c hc d hd => ?_)
        (List.append_cancel_left heq))
      exact h c (List.mem_cons_of_mem a hc) d (List.mem_cons_of_mem a hd)

/-- An item can be told from what follows it. -/
theorem IsItem.unique (h : IsItem simple limit level bytes)
    (h' : IsItem simple' limit' level' bytes') {x y : List UInt8}
    (heq : bytes ++ x = bytes' ++ y) : bytes = bytes' := by
  induction h generalizing bytes' level' x y with
  | atom _ hmajor hhead _ =>
    cases h' with
    | atom _ _ hhead' _ => exact (hhead.unique hhead' heq).2.2.1
    | string _ hmajor' hhead' =>
      obtain ⟨rfl, -⟩ := hhead.unique hhead' (by simpa using heq)
      omega
    | nest _ hhead' hcount' _ =>
      obtain ⟨rfl, -⟩ := hhead.unique hhead' (by simpa using heq)
      have := nested_eq_some hcount'
      omega
  | string _ hmajor hhead =>
    rw [List.append_assoc] at heq
    cases h' with
    | atom _ hmajor' hhead' _ =>
      obtain ⟨rfl, -⟩ := hhead.unique hhead' heq
      omega
    | string _ _ hhead' =>
      obtain ⟨-, hlength, rfl, hrest⟩ := hhead.unique hhead' (by simpa using heq)
      rw [(List.append_inj hrest hlength).1]
    | nest _ hhead' hcount' _ =>
      obtain ⟨rfl, -⟩ := hhead.unique hhead' (by simpa using heq)
      have := nested_eq_some hcount'
      omega
  | nest _ hhead hcount _ ih =>
    rw [List.append_assoc] at heq
    cases h' with
    | atom _ hmajor' hhead' _ =>
      obtain ⟨rfl, -⟩ := hhead.unique hhead' heq
      have := nested_eq_some hcount
      omega
    | string _ hmajor' hhead' =>
      obtain ⟨rfl, -⟩ := hhead.unique hhead' (by simpa using heq)
      have := nested_eq_some hcount
      omega
    | nest _ hhead' hcount' hitems' =>
      obtain ⟨rfl, rfl, rfl, hrest⟩ := hhead.unique hhead' (by simpa using heq)
      have hlength := Option.some.inj (hcount.symm.trans hcount')
      rw [flatten_map_unique (f := id) hlength
        (fun a ha b hb x y hab => ih a ha (hitems' b hb) hab) (by simpa using hrest)]

end CborGrammar
