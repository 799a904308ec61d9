import MetalBear.Json.Cbor

/-!
# The round trip of a record

A record is written as DAG-CBOR and read back as JSON. The two conversions are followed in
both directions over whole trees: which JSON values come back as they were, up to the order of
their members, and which items do.
-/

namespace MetalBear

/-- What is relied on of the texts of CIDs and of bytes: what the library writes are C strings
that it reads back, and no CID is written as nothing. -/
structure CborTextLaws (text : CborText) : Prop where
  link : ∀ data s s', text.cidFromString s = some data → text.cidToString data = some s' →
    text.cidFromString s' = some data
  linkEmpty : text.cidFromString "" = none
  linkChars : ∀ data s, text.cidToString data = some s → cText s = s
  bytes : ∀ data s, text.base64urlEncode data = some s → text.base64urlDecode s = some data
  bytesEmpty : ∀ data, text.base64urlDecode "" = some data → data = []
  bytesChars : ∀ data s, text.base64urlEncode data = some s → cText s = s

/-! ## The same JSON -/

namespace Json

mutual

/-- The same value, up to the order in which objects have their members. -/
def Same : Json → Json → Prop
  | .null, .null => True
  | .bool b, .bool c => b = c
  | .number v, .number w => v = w
  | .string s, .string t => s = t
  | .array items, .array items' => SameItems items items'
  | .object members, .object members' =>
    ∃ ordered : List (String × Json), ordered.Perm members' ∧ SameMembers members ordered
  | _, _ => False

/-- Items are compared one by one, in their order. -/
def SameItems : List Json → List Json → Prop
  | [], [] => True
  | j :: rest, j' :: rest' => Same j j' ∧ SameItems rest rest'
  | _, _ => False

/-- Members are compared one by one; the order is settled in `Same`. -/
def SameMembers : List (String × Json) → List (String × Json) → Prop
  | [], [] => True
  | (k, j) :: rest, (k', j') :: rest' => k = k' ∧ Same j j' ∧ SameMembers rest rest'
  | _, _ => False

end

mutual

/-- Every value is the same as itself. -/
theorem Same.refl : ∀ j : Json, Same j j
  | .null => trivial
  | .bool _ => rfl
  | .number _ => rfl
  | .string _ => rfl
  | .array items => SameItems.refl items
  | .object members => ⟨members, .refl _, SameMembers.refl members⟩

theorem SameItems.refl : ∀ items : List Json, SameItems items items
  | [] => trivial
  | j :: rest => ⟨Same.refl j, SameItems.refl rest⟩

theorem SameMembers.refl : ∀ members : List (String × Json), SameMembers members members
  | [] => trivial
  | (_, j) :: rest => ⟨rfl, Same.refl j, SameMembers.refl rest⟩

end

end Json

/-! ## What comes back -/

/-- The text of a CID as the library writes it. -/
def linkText (text : CborText) (data : List UInt8) : String := (text.cidToString data).getD ""

/-- The text of bytes as the server writes it. -/
def bytesText (text : CborText) (data : List UInt8) : String :=
  (if data = [] then none else text.base64urlEncode data).getD ""

/-- The text of an object that stands for a CID or for bytes, and the text that is written
for these. -/
def specialTexts (text : CborText) : List (String × Json) → Option (String × String)
  | [("$link", .string s)] => (text.cidFromString s).map fun data => (s, linkText text data)
  | [("$bytes", .string s)] => (text.base64urlDecode s).map fun data => (s, bytesText text data)
  | _ => none

mutual

/-- The number of texts and keys with a NUL inside. -/
def nuls : Json → Nat
  | .string s => if cText s = s then 0 else 1
  | .array items => itemNuls items
  | .object members => memberNuls members
  | _ => 0

/-- The NULs in the items of an array. -/
def itemNuls : List Json → Nat
  | [] => 0
  | j :: rest => nuls j + itemNuls rest

/-- The names that a NUL cuts, and the NULs in the values. -/
def memberNuls : List (String × Json) → Nat
  | [] => 0
  | (k, j) :: rest => (if cText k = k then 0 else 1) + nuls j + memberNuls rest

end

mutual

/-- The number of objects that stand for a CID or for bytes and have another text than the one
that is written for these. -/
def unwritten (text : CborText) : Json → Nat
  | .array items => itemsUnwritten text items
  | .object members =>
    match specialTexts text members with
    | some (given, written) => if given = written then 0 else 1
    | none => membersUnwritten text members
  | _ => 0

/-- What is not written as the writer would, in the items of an array. -/
def itemsUnwritten (text : CborText) : List Json → Nat
  | [] => 0
  | j :: rest => unwritten text j + itemsUnwritten text rest

/-- The same for the values of an object; the names are left as they are. -/
def membersUnwritten (text : CborText) : List (String × Json) → Nat
  | [] => 0
  | (_, j) :: rest => unwritten text j + membersUnwritten text rest

end

/-- No text has a NUL inside, and every object that stands for a CID or for bytes has the text
that is written for these. -/
structure AsWritten (text : CborText) (j : Json) : Prop where
  nuls : nuls j = 0
  unwritten : unwritten text j = 0

/-- A map of one pair whose JSON is read as a CID or as bytes. -/
def ReadsAsSpecial (text : CborText) : List (Option String × CborItem) → Prop
  | [(some k, .string s)] =>
    (k = "$link" ∧ (text.cidFromString s).isSome = true) ∨
      (k = "$bytes" ∧ (text.base64urlDecode s).isSome = true)
  | _ => False

mutual

/-- Every integer is one that a double holds, every text reads back, no other simple value
than a boolean or null occurs, and no map reads as a CID or as bytes. -/
def ReadsBackAs (text : CborText) : CborItem → Prop
  | .unsigned n => (n : ℚ) ≤ maxSafeInteger
  | .negative n => (n : ℚ) + 1 ≤ maxSafeInteger
  | .bytes data => text.base64urlDecode (bytesText text data) = some data
  | .string s => cText s = s
  | .link data => text.cidFromString (linkText text data) = some data
  | .array items => ItemsReadBack text items
  | .map pairs => PairsReadBack text pairs ∧ ¬ ReadsAsSpecial text pairs
  | .simple value => value = 20 ∨ value = 21 ∨ value = 22

/-- Every item of an array reads back. -/
def ItemsReadBack (text : CborText) : List CborItem → Prop
  | [] => True
  | item :: rest => ReadsBackAs text item ∧ ItemsReadBack text rest

/-- Every value of a map reads back, and no key is cut. -/
def PairsReadBack (text : CborText) : List (Option String × CborItem) → Prop
  | [] => True
  | (k, item) :: rest => (∀ key ∈ k, cText key = key) ∧ ReadsBackAs text item ∧
    PairsReadBack text rest

end

/-! ## Numbers -/

/-- Below 2^53 an integer is a double. -/
theorem roundDouble_of_lt {n : Nat} (h : n < 2 ^ 53) : roundDouble n = n := by
  rw [roundDouble, if_pos h]

/-- What is too large for a double to hold exactly is not rounded below that bound. -/
theorem le_roundDouble {n : Nat} (h : 2 ^ 53 ≤ n) : 2 ^ 53 ≤ roundDouble n := by
  have hlog : 53 ≤ Nat.log2 n := (Nat.le_log2 (by omega)).mpr h
  have hself : 2 ^ Nat.log2 n ≤ n := Nat.log2_self_le (by omega)
  have hpow : 2 ^ Nat.log2 n = 2 ^ 52 * 2 ^ (Nat.log2 n - 52) := by
    rw [← pow_add]
    congr 1
    omega
  have hquot : 2 ^ 52 ≤ n / 2 ^ (Nat.log2 n - 52) := by
    rw [Nat.le_div_iff_mul_le (by positivity), ← hpow]
    exact hself
  have hlow : 2 ^ 53 ≤ n / 2 ^ (Nat.log2 n - 52) * 2 ^ (Nat.log2 n - 52) := by
    calc 2 ^ 53 ≤ 2 ^ Nat.log2 n := Nat.pow_le_pow_right (by omega) hlog
      _ = 2 ^ 52 * 2 ^ (Nat.log2 n - 52) := hpow
      _ ≤ n / 2 ^ (Nat.log2 n - 52) * 2 ^ (Nat.log2 n - 52) := Nat.mul_le_mul_right _ hquot
  rw [roundDouble, if_neg (by omega)]
  dsimp only
  split <;> omega

/-- A natural number is an unsigned item if it is small enough. -/
theorem cborFromNumber_natCast (n : Nat) :
    cborFromNumber (.finite n) = if (n : ℚ) ≤ maxSafeInteger then some (.unsigned n) else none := by
  have habs : |(n : ℚ)| = n := abs_of_nonneg (Nat.cast_nonneg n)
  by_cases h : (n : ℚ) ≤ maxSafeInteger
  · simp [cborFromNumber, habs, h, not_lt.mpr h]
  · simp [cborFromNumber, habs, h, not_le.mp h]

/-- A number below zero is a negative item if it is small enough. -/
theorem cborFromNumber_neg (n : Nat) :
    cborFromNumber (.finite (-((n + 1 : Nat) : ℚ))) =
      if (n : ℚ) + 1 ≤ maxSafeInteger then some (.negative n) else none := by
  have hpos : (0 : ℚ) < ((n + 1 : Nat) : ℚ) := by exact_mod_cast Nat.succ_pos n
  have habs : |(-((n + 1 : Nat) : ℚ))| = (n : ℚ) + 1 := by
    rw [abs_neg, abs_of_pos hpos]
    push_cast
    rfl
  have hneg : ¬ (0 : ℚ) ≤ -((n + 1 : Nat) : ℚ) := by linarith
  have hden : (-((n + 1 : Nat) : ℚ)).den = 1 := by rw [Rat.neg_den, Rat.den_natCast]
  have hnum : (-1 - (-((n + 1 : Nat) : ℚ)).num).toNat = n := by
    rw [Rat.neg_num, Rat.num_natCast]
    omega
  simp only [cborFromNumber, Double.rat?_finite, Option.bind_eq_bind, Option.bind_some, hden, habs,
    ne_eq, not_true_eq_false, false_or, hneg, if_false, hnum]
  by_cases h : (n : ℚ) + 1 ≤ maxSafeInteger
  · rw [if_neg (not_lt.mpr h), if_pos h]
  · rw [if_pos (not_le.mp h), if_neg h]

theorem natCast_le_maxSafeInteger {n : Nat} : (n : ℚ) ≤ maxSafeInteger ↔ n < 2 ^ 53 := by
  have hmax : maxSafeInteger = ((2 ^ 53 - 1 : Nat) : ℚ) := by norm_num [maxSafeInteger]
  rw [hmax, Nat.cast_le]
  omega

/-- An unsigned item comes back if a double holds it and every integer below. -/
theorem unsigned_readsBack (n : Nat) :
    cborFromNumber (.finite (roundDouble n)) = some (.unsigned n) ↔ (n : ℚ) ≤ maxSafeInteger := by
  rw [cborFromNumber_natCast]
  simp only [natCast_le_maxSafeInteger]
  by_cases h : n < 2 ^ 53
  · simp only [roundDouble_of_lt h, h, if_true]
  · have hlarge := le_roundDouble (not_lt.mp h)
    simp only [not_lt.mpr hlarge, h, if_false, reduceCtorEq]

/-- A negative integer reads back up to the largest safe one; its double is that of `1 + n`. -/
theorem negative_readsBack (n : Nat) :
    cborFromNumber (.finite (-(roundDouble (1 + roundDouble n) : ℚ))) = some (.negative n) ↔
      (n : ℚ) + 1 ≤ maxSafeInteger := by
  have hsucc : (n : ℚ) + 1 ≤ maxSafeInteger ↔ n + 1 < 2 ^ 53 := by
    rw [← natCast_le_maxSafeInteger]
    push_cast
    rfl
  by_cases h : n + 1 < 2 ^ 53
  · have hround : roundDouble (1 + roundDouble n) = n + 1 := by
      rw [roundDouble_of_lt (show n < 2 ^ 53 by omega), roundDouble_of_lt (by omega)]
      omega
    rw [hround, cborFromNumber_neg]
    simp only [hsucc, h, if_true]
  · have hinner : 2 ^ 53 ≤ 1 + roundDouble n := by
      by_cases hn : n < 2 ^ 53
      · rw [roundDouble_of_lt hn]
        omega
      · have := le_roundDouble (not_lt.mp hn)
        omega
    have hlarge := le_roundDouble hinner
    obtain ⟨m, hm⟩ : ∃ m, roundDouble (1 + roundDouble n) = m + 1 :=
      ⟨roundDouble (1 + roundDouble n) - 1, by omega⟩
    have hm' : ¬ (m : ℚ) + 1 ≤ maxSafeInteger := by
      have : ¬ m + 1 < 2 ^ 53 := by omega
      rw [← natCast_le_maxSafeInteger] at this
      push_cast at this
      exact this
    rw [hm, cborFromNumber_neg, if_neg hm', hsucc]
    simp only [h, reduceCtorEq]

/-! ## Items that come back -/

section Items

variable {text : CborText}

/-- A text comes from a text item, cut at a NUL. -/
theorem cborToJson_eq_string {item : CborItem} {s : String}
    (h : cborToJson text item = some (.string s)) : ∃ s', item = .string s' ∧ cText s' = s := by
  cases item with
  | string s' =>
    cases h
    exact ⟨s', rfl, rfl⟩
  | array items =>
    rw [cborToJson] at h
    cases hitems : cborToItems text items <;> rw [hitems] at h <;> cases h
  | map pairs =>
    rw [cborToJson] at h
    cases hpairs : cborToMembers text pairs <;> rw [hpairs] at h <;> cases h
  | simple value =>
    simp only [cborToJson, Option.some.injEq] at h
    split at h
    · cases h
    · split at h <;> cases h
  | _ => cases h

/-- The members of one pair. -/
theorem cborToMembers_eq_singleton {pairs : List (Option String × CborItem)} {k : String}
    {j : Json} (h : cborToMembers text pairs = some [(k, j)]) :
    ∃ key item, pairs = [(some key, item)] ∧ cText key = k ∧ cborToJson text item = some j := by
  cases pairs with
  | nil => cases h
  | cons pair rest =>
    obtain ⟨key, item⟩ := pair
    simp only [cborToMembers, Option.bind_eq_bind, Option.bind_eq_some_iff] at h
    obtain ⟨j', hj', key', hkey', members, hmembers, h⟩ := h
    subst hkey'
    cases h
    cases rest with
    | nil => exact ⟨key', item, rfl, rfl, hj'⟩
    | cons pair rest =>
      obtain ⟨key, item⟩ := pair
      simp only [cborToMembers, Option.bind_eq_bind, Option.bind_eq_some_iff] at hmembers
      obtain ⟨_, -, _, -, _, -, h⟩ := hmembers
      cases h

/-- What an object of one member stands for. -/
theorem cborFromSpecial_eq_some {members : List (String × Json)} {item : CborItem}
    (h : cborFromSpecial text members = some item) :
    ∃ s, (members = [("$link", .string s)] ∧ ∃ data, text.cidFromString s = some data ∧
        item = .link data) ∨
      (members = [("$bytes", .string s)] ∧ ∃ data, text.base64urlDecode s = some data ∧
        item = .bytes data) := by
  unfold cborFromSpecial at h
  split at h
  · next s =>
    obtain ⟨data, hdata, rfl⟩ := Option.map_eq_some_iff.mp h
    exact ⟨s, Or.inl ⟨rfl, data, hdata, rfl⟩⟩
  · next s =>
    obtain ⟨data, hdata, rfl⟩ := Option.map_eq_some_iff.mp h
    exact ⟨s, Or.inr ⟨rfl, data, hdata, rfl⟩⟩
  · cases h

/-- The JSON of a map that reads back pair by pair is taken for a CID or for bytes exactly if
the map looks like one. -/
theorem special_iff {pairs : List (Option String × CborItem)} {members : List (String × Json)}
    (hmembers : cborToMembers text pairs = some members) (hpairs : PairsReadBack text pairs) :
    (cborFromSpecial text members).isSome = true ↔ ReadsAsSpecial text pairs := by
  have hone : ∀ k s, members = [(k, .string s)] → pairs = [(some k, .string s)] := by
    rintro k s rfl
    obtain ⟨key, item, rfl, hkey, hitem⟩ := cborToMembers_eq_singleton hmembers
    obtain ⟨s', rfl, hs'⟩ := cborToJson_eq_string hitem
    have hkey' : cText key = key := hpairs.1 key rfl
    have hs : cText s' = s' := hpairs.2.1
    rw [← hkey, hkey', ← hs', hs]
  constructor
  · intro h
    obtain ⟨item, hitem⟩ := Option.isSome_iff_exists.mp h
    obtain ⟨s, ⟨heq, data, hdata, -⟩ | ⟨heq, data, hdata, -⟩⟩ := cborFromSpecial_eq_some hitem
    · rw [hone _ _ heq]
      exact Or.inl ⟨rfl, by rw [hdata]; rfl⟩
    · rw [hone _ _ heq]
      exact Or.inr ⟨rfl, by rw [hdata]; rfl⟩
  · intro h
    unfold ReadsAsSpecial at h
    split at h
    · next k s =>
      have hk : cText k = k := hpairs.1 k rfl
      have hs : cText s = s := hpairs.2.1
      simp only [cborToMembers, cborToJson, Option.bind_eq_bind, Option.bind_some, hk, hs,
        Option.some.injEq] at hmembers
      subst hmembers
      rcases h with ⟨rfl, h⟩ | ⟨rfl, h⟩
      · simpa [cborFromSpecial] using h
      · simpa [cborFromSpecial] using h
    · cases h

/-- A map is not what an object of one member stands for. -/
theorem cborFromObject_eq_map {members : List (String × Json)}
    {pairs : List (Option String × CborItem)} :
    cborFromJson text (.object members) = some (.map pairs) ↔
      cborFromSpecial text members = none ∧ cborFromMembers text members = some pairs := by
  rw [cborFromJson]
  cases h : cborFromSpecial text members with
  | none => simp
  | some item =>
    obtain ⟨s, ⟨-, data, -, rfl⟩ | ⟨-, data, -, rfl⟩⟩ := cborFromSpecial_eq_some h <;> simp

/-- A `$link` alone in an object becomes a link where its text is a CID. -/
theorem cborFromJson_link {s : String} {data : List UInt8} :
    cborFromJson text (.object [("$link", .string s)]) = some (.link data) ↔
      text.cidFromString s = some data := by
  rw [cborFromJson, cborFromSpecial]
  cases text.cidFromString s <;> simp [cborFromMembers, cborFromJson]

/-- A `$bytes` alone in an object becomes bytes where its text is base64url. -/
theorem cborFromJson_bytes {s : String} {data : List UInt8} :
    cborFromJson text (.object [("$bytes", .string s)]) = some (.bytes data) ↔
      text.base64urlDecode s = some data := by
  rw [cborFromJson, cborFromSpecial]
  cases text.base64urlDecode s <;> simp [cborFromMembers, cborFromJson]

mutual

/-- The JSON of an item reads back as the item exactly if every part of it does. -/
theorem readsBack_iff : ∀ {item : CborItem} {j : Json}, cborToJson text item = some j →
    (cborFromJson text j = some item ↔ ReadsBackAs text item)
  | .unsigned n, j, h => by
    cases h
    exact unsigned_readsBack n
  | .negative n, j, h => by
    cases h
    exact negative_readsBack n
  | .bytes data, j, h => by
    cases h
    exact cborFromJson_bytes
  | .string s, j, h => by
    cases h
    rw [cborFromJson, ReadsBackAs, Option.some.injEq, CborItem.string.injEq]
  | .link data, j, h => by
    cases h
    exact cborFromJson_link
  | .array items, j, h => by
    rw [cborToJson] at h
    obtain ⟨js, hjs, rfl⟩ := Option.map_eq_some_iff.mp h
    rw [cborFromJson, ReadsBackAs, ← itemsReadBack_iff hjs]
    simp
  | .map pairs, j, h => by
    rw [cborToJson] at h
    obtain ⟨members, hmembers, rfl⟩ := Option.map_eq_some_iff.mp h
    rw [cborFromObject_eq_map, ReadsBackAs, pairsReadBack_iff hmembers, and_comm]
    refine and_congr_right fun hpairs => ?_
    rw [← special_iff hmembers hpairs, Bool.not_eq_true, Option.isSome_eq_false_iff,
      Option.isNone_iff_eq_none]
  | .simple value, j, h => by
    cases h
    rw [ReadsBackAs]
    by_cases h21 : value = 21
    · simp [cborFromJson, h21]
    · by_cases h20 : value = 20
      · simp [cborFromJson, h20]
      · simp [cborFromJson, h20, h21, eq_comm]

/-- Items read back as they were if and only if each does. -/
theorem itemsReadBack_iff : ∀ {items : List CborItem} {js : List Json},
    cborToItems text items = some js →
      (cborFromItems text js = some items ↔ ItemsReadBack text items)
  | [], js, h => by
    cases h
    simp [cborFromItems, ItemsReadBack]
  | item :: rest, js, h => by
    simp only [cborToItems, Option.bind_eq_bind, Option.bind_eq_some_iff] at h
    obtain ⟨j, hj, js', hjs', h⟩ := h
    cases h
    rw [ItemsReadBack, ← readsBack_iff hj, ← itemsReadBack_iff hjs', cborFromItems]
    cases cborFromJson text j <;> cases cborFromItems text js' <;> simp

/-- Pairs read back as they were if and only if each does and no key is cut. -/
theorem pairsReadBack_iff : ∀ {pairs : List (Option String × CborItem)}
    {members : List (String × Json)}, cborToMembers text pairs = some members →
      (cborFromMembers text members = some pairs ↔ PairsReadBack text pairs)
  | [], members, h => by
    cases h
    simp [cborFromMembers, PairsReadBack]
  | (k, item) :: rest, members, h => by
    simp only [cborToMembers, Option.bind_eq_bind, Option.bind_eq_some_iff] at h
    obtain ⟨j, hj, key, rfl, members', hmembers', h⟩ := h
    cases h
    rw [PairsReadBack, ← readsBack_iff hj, ← pairsReadBack_iff hmembers', cborFromMembers]
    cases cborFromJson text j <;> cases cborFromMembers text members' <;> simp [and_assoc]

end

end Items

/-! ## Values that come back -/

section Values

variable {text : CborText}

/-- A text that was cut is not cut again. -/
@[simp] theorem cText_cText (s : String) : cText (cText s) = cText s := by
  simp [cText, CString.chars, List.takeWhile_takeWhile]

theorem cText_empty : cText "" = "" := by decide

/-- The order of members does not matter to their NULs. -/
theorem memberNuls_perm {members members' : List (String × Json)} (h : members.Perm members') :
    memberNuls members = memberNuls members' := by
  induction h with
  | nil => rfl
  | cons m _ ih => rw [memberNuls, memberNuls, ih]
  | swap m m' rest => simp only [memberNuls]; omega
  | trans _ _ ih ih' => exact ih.trans ih'

/-- Nor to what is not written as the writer would. -/
theorem membersUnwritten_perm {members members' : List (String × Json)}
    (h : members.Perm members') :
    membersUnwritten text members = membersUnwritten text members' := by
  induction h with
  | nil => rfl
  | cons m _ ih => rw [membersUnwritten, membersUnwritten, ih]
  | swap m m' rest => simp only [membersUnwritten]; omega
  | trans _ _ ih ih' => exact ih.trans ih'

/-- An object of two members is neither a link nor bytes. -/
theorem specialTexts_of_two {m m' : String × Json} {rest : List (String × Json)} :
    specialTexts text (m :: m' :: rest) = none := by
  simp [specialTexts]

/-- What an object of one member stands for does not depend on the order of members. -/
theorem specialTexts_of_same {members ordered members' : List (String × Json)}
    (hperm : ordered.Perm members') (hsame : Json.SameMembers members ordered) :
    specialTexts text members = specialTexts text members' := by
  match members, ordered, hsame with
  | [], [], _ => rw [List.nil_perm.mp hperm]
  | [(k, j)], [(k', j')], ⟨hk, hj, _⟩ =>
    obtain rfl := List.singleton_perm.mp hperm
    rw [← hk]
    match j, j', hj with
    | .string s, .string t, hst =>
      have heq : s = t := hst
      rw [heq]
    | .null, .null, _ => rfl
    | .bool b, .bool c, _ => simp [specialTexts]
    | .number v, .number w, _ => simp [specialTexts]
    | .array items, .array items', _ => simp [specialTexts]
    | .object members, .object members', _ => simp [specialTexts]
  | _ :: _ :: _, _ :: _ :: rest, _ =>
    match members', hperm.length_eq with
    | _ :: _ :: _, _ => rw [specialTexts_of_two, specialTexts_of_two]

mutual

/-- The same value has as many NULs. -/
theorem nuls_of_same : ∀ {j j' : Json}, j.Same j' → nuls j = nuls j'
  | .array items, .array items', h => itemNuls_of_same h
  | .object members, .object members', h => by
    obtain ⟨ordered, hperm, hsame⟩ := h
    exact (memberNuls_of_same hsame).trans (memberNuls_perm hperm)
  | .string s, .string t, h => by
    have heq : s = t := h
    rw [heq]
  | .null, .null, _ => rfl
  | .bool _, .bool _, _ => rfl
  | .number _, .number _, _ => rfl

theorem itemNuls_of_same : ∀ {items items' : List Json}, Json.SameItems items items' →
    itemNuls items = itemNuls items'
  | [], [], _ => rfl
  | j :: rest, j' :: rest', h => by
    rw [itemNuls, itemNuls, nuls_of_same h.1, itemNuls_of_same h.2]

theorem memberNuls_of_same : ∀ {members members' : List (String × Json)},
    Json.SameMembers members members' → memberNuls members = memberNuls members'
  | [], [], _ => rfl
  | (k, j) :: rest, (k', j') :: rest', h => by
    rw [memberNuls, memberNuls, h.1, nuls_of_same h.2.1, memberNuls_of_same h.2.2]

end

mutual

/-- The same value has as much that the writer would write otherwise. -/
theorem unwritten_of_same : ∀ {j j' : Json}, j.Same j' → unwritten text j = unwritten text j'
  | .array items, .array items', h => itemsUnwritten_of_same h
  | .object members, .object members', h => by
    obtain ⟨ordered, hperm, hsame⟩ := h
    rw [unwritten, unwritten, specialTexts_of_same hperm hsame,
      (membersUnwritten_of_same hsame).trans (membersUnwritten_perm hperm)]
  | .string _, .string _, _ => rfl
  | .null, .null, _ => rfl
  | .bool _, .bool _, _ => rfl
  | .number _, .number _, _ => rfl

theorem itemsUnwritten_of_same : ∀ {items items' : List Json}, Json.SameItems items items' →
    itemsUnwritten text items = itemsUnwritten text items'
  | [], [], _ => rfl
  | j :: rest, j' :: rest', h => by
    rw [itemsUnwritten, itemsUnwritten, unwritten_of_same h.1, itemsUnwritten_of_same h.2]

theorem membersUnwritten_of_same : ∀ {members members' : List (String × Json)},
    Json.SameMembers members members' →
      membersUnwritten text members = membersUnwritten text members'
  | [], [], _ => rfl
  | (k, j) :: rest, (k', j') :: rest', h => by
    rw [membersUnwritten, membersUnwritten, unwritten_of_same h.2.1,
      membersUnwritten_of_same h.2.2]

end

/-- The text of a CID holds no NUL. -/
theorem cText_linkText (htext : CborTextLaws text) (data : List UInt8) :
    cText (linkText text data) = linkText text data := by
  unfold linkText
  cases h : text.cidToString data with
  | none => exact cText_empty
  | some s => exact htext.linkChars data s h

/-- The base64url text of bytes holds no NUL. -/
theorem cText_bytesText (htext : CborTextLaws text) (data : List UInt8) :
    cText (bytesText text data) = bytesText text data := by
  unfold bytesText
  by_cases hdata : data = []
  · rw [if_pos hdata]
    exact cText_empty
  · rw [if_neg hdata]
    cases h : text.base64urlEncode data with
    | none => exact cText_empty
    | some s => exact htext.bytesChars data s h

mutual

/-- No text that comes from an item has a NUL inside. -/
theorem nuls_of_item (htext : CborTextLaws text) : ∀ {item : CborItem} {j : Json},
    cborToJson text item = some j → nuls j = 0
  | .unsigned n, j, h => by
    cases h
    rfl
  | .negative n, j, h => by
    cases h
    rfl
  | .bytes data, j, h => by
    cases h
    have hkey : cText "$bytes" = "$bytes" := by decide
    have htxt := cText_bytesText htext data
    unfold bytesText at htxt
    simp [nuls, memberNuls, hkey, htxt]
  | .string s, j, h => by
    cases h
    simp [nuls]
  | .link data, j, h => by
    cases h
    have hkey : cText "$link" = "$link" := by decide
    have htxt := cText_linkText htext data
    unfold linkText at htxt
    simp [nuls, memberNuls, hkey, htxt]
  | .array items, j, h => by
    rw [cborToJson] at h
    obtain ⟨js, hjs, rfl⟩ := Option.map_eq_some_iff.mp h
    exact itemNuls_of_items htext hjs
  | .map pairs, j, h => by
    rw [cborToJson] at h
    obtain ⟨members, hmembers, rfl⟩ := Option.map_eq_some_iff.mp h
    exact memberNuls_of_pairs htext hmembers
  | .simple value, j, h => by
    cases h
    split
    · rfl
    · split <;> rfl

/-- What is read from items holds no NUL. -/
theorem itemNuls_of_items (htext : CborTextLaws text) : ∀ {items : List CborItem}
    {js : List Json}, cborToItems text items = some js → itemNuls js = 0
  | [], js, h => by
    cases h
    rfl
  | item :: rest, js, h => by
    simp only [cborToItems, Option.bind_eq_bind, Option.bind_eq_some_iff] at h
    obtain ⟨j, hj, js', hjs', h⟩ := h
    cases h
    rw [itemNuls, nuls_of_item htext hj, itemNuls_of_items htext hjs']

/-- What is read from pairs holds no NUL, in names or values. -/
theorem memberNuls_of_pairs (htext : CborTextLaws text) :
    ∀ {pairs : List (Option String × CborItem)} {members : List (String × Json)},
      cborToMembers text pairs = some members → memberNuls members = 0
  | [], members, h => by
    cases h
    rfl
  | (k, item) :: rest, members, h => by
    simp only [cborToMembers, Option.bind_eq_bind, Option.bind_eq_some_iff] at h
    obtain ⟨j, hj, key, -, members', hmembers', h⟩ := h
    cases h
    rw [memberNuls, nuls_of_item htext hj, memberNuls_of_pairs htext hmembers', cText_cText,
      if_pos rfl]

end

theorem Double.eq_finite_of_rat? {d : Double} {q : ℚ} (h : d.rat? = some q) : d = .finite q := by
  match d, h with
  | some (some r), h =>
    have hr : some r = some q := h
    rw [Option.some.inj hr]
    rfl

/-- A number that is written comes back. -/
theorem cborFromNumber_comesBack {d : Double} {item : CborItem}
    (h : cborFromNumber d = some item) : cborToJson text item = some (.number d) := by
  simp only [cborFromNumber, Option.bind_eq_bind, Option.bind_eq_some_iff] at h
  obtain ⟨q, hq, h⟩ := h
  rw [Double.eq_finite_of_rat? hq]
  split at h
  · cases h
  · next hsmall =>
    rw [not_or, not_not, not_lt] at hsmall
    obtain ⟨hden, habs⟩ := hsmall
    have hnum : (q.num : ℚ) = q := Rat.coe_int_num_of_den_eq_one hden
    by_cases hpos : 0 ≤ q
    · rw [if_pos hpos] at h
      cases h
      have hcast : ((q.num.toNat : Nat) : ℚ) = q := by
        have hint : ((q.num.toNat : Nat) : Int) = q.num := Int.toNat_of_nonneg (Rat.num_nonneg.mpr hpos)
        rw [← hnum, ← hint]
        rfl
      have hlt : q.num.toNat < 2 ^ 53 := by
        rw [← natCast_le_maxSafeInteger, hcast]
        rwa [abs_of_nonneg hpos] at habs
      rw [cborToJson, roundDouble_of_lt hlt, hcast]
    · rw [if_neg hpos] at h
      cases h
      have hneg : q < 0 := not_le.mp hpos
      have hlt0 : q.num < 0 := Rat.num_neg.mpr hneg
      have hcast : (((-1 - q.num).toNat + 1 : Nat) : ℚ) = -q := by
        have hint : (((-1 - q.num).toNat + 1 : Nat) : Int) = -q.num := by omega
        rw [← hnum, ← Int.cast_neg, ← hint]
        rfl
      have hlt : (-1 - q.num).toNat + 1 < 2 ^ 53 := by
        rw [← natCast_le_maxSafeInteger, hcast]
        rwa [abs_of_neg hneg] at habs
      have hround : roundDouble (1 + roundDouble (-1 - q.num).toNat) =
          (-1 - q.num).toNat + 1 := by
        rw [roundDouble_of_lt (show (-1 - q.num).toNat < 2 ^ 53 by omega),
          roundDouble_of_lt (by omega), Nat.add_comm]
      rw [cborToJson, hround, hcast, neg_neg]

/-- Only a text becomes a text item. -/
theorem cborFromJson_eq_string {j : Json} {s : String}
    (h : cborFromJson text j = some (.string s)) : j = .string s := by
  cases j with
  | string t =>
    cases h
    rfl
  | number d =>
    simp only [cborFromJson, cborFromNumber, Option.bind_eq_bind, Option.bind_eq_some_iff] at h
    obtain ⟨q, -, h⟩ := h
    split at h
    · cases h
    · split at h <;> cases h
  | array items =>
    rw [cborFromJson] at h
    cases hitems : cborFromItems text items <;> rw [hitems] at h <;> cases h
  | object members =>
    rw [cborFromJson] at h
    split at h
    · next item hspecial =>
      cases h
      obtain ⟨_, ⟨-, _, -, h⟩ | ⟨-, _, -, h⟩⟩ := cborFromSpecial_eq_some hspecial <;> cases h
    · cases hpairs : cborFromMembers text members <;> rw [hpairs] at h <;> cases h
  | _ => cases h

/-- The texts of a special object are there where it is taken for one. -/
theorem specialTexts_eq_none_iff {members : List (String × Json)} :
    specialTexts text members = none ↔ cborFromSpecial text members = none := by
  unfold specialTexts cborFromSpecial
  split <;> simp

/-- An object that stands for no CID and no bytes does not come back as one that does. -/
theorem not_special_of_comesBack {members members' : List (String × Json)}
    {pairs : List (Option String × CborItem)} (hnuls : memberNuls members = 0)
    (hfrom : cborFromMembers text members = some pairs)
    (hto : cborToMembers text pairs = some members')
    (hspecial : cborFromSpecial text members = none) : cborFromSpecial text members' = none := by
  have hone : ∀ k s, members' = [(k, .string s)] → members = [(k, .string s)] := by
    rintro k s rfl
    obtain ⟨key, item, rfl, hkey, hitem⟩ := cborToMembers_eq_singleton hto
    obtain ⟨s', rfl, hs'⟩ := cborToJson_eq_string hitem
    match members, hfrom with
    | (k', j) :: rest, hfrom =>
      simp only [cborFromMembers, Option.bind_eq_bind, Option.bind_eq_some_iff] at hfrom
      obtain ⟨item, hj, pairs', hpairs', h⟩ := hfrom
      cases h
      cases cborFromJson_eq_string hj
      match rest, hpairs' with
      | [], _ =>
        simp only [memberNuls, nuls] at hnuls
        have hk : cText key = key := by
          by_contra hne
          rw [if_neg hne] at hnuls
          omega
        have hs : cText s' = s' := by
          by_contra hne
          rw [if_neg hne] at hnuls
          omega
        rw [← hkey, ← hs', hk, hs]
      | m :: rest, h =>
        simp only [cborFromMembers, Option.bind_eq_bind, Option.bind_eq_some_iff] at h
        obtain ⟨_, -, _, -, h⟩ := h
        cases h
  cases h : cborFromSpecial text members' with
  | none => rfl
  | some item =>
    obtain ⟨s, ⟨heq, -⟩ | ⟨heq, -⟩⟩ := cborFromSpecial_eq_some h
    · rw [heq] at h
      rw [hone _ _ heq, h] at hspecial
      cases hspecial
    · rw [heq] at h
      rw [hone _ _ heq, h] at hspecial
      cases hspecial

/-- An object that stands for a CID comes back with the text that the library writes. -/
theorem unwritten_link (htext : CborTextLaws text) {s : String} {data : List UInt8}
    (hs : text.cidFromString s = some data) :
    unwritten text (.object [("$link", .string (linkText text data))]) = 0 ∧
      (unwritten text (.object [("$link", .string s)]) = 0 → linkText text data = s) := by
  constructor
  · cases h : text.cidToString data with
    | none => simp [linkText, h, unwritten, specialTexts, htext.linkEmpty, membersUnwritten]
    | some s' =>
      have hback := htext.link data s s' hs h
      simp [linkText, h, unwritten, specialTexts, hback]
  · intro h
    simp only [unwritten, specialTexts, hs, Option.map_some] at h
    by_contra hne
    rw [if_neg (Ne.symm hne)] at h
    cases h

/-- Bytes come back in the spelling of the encoder; they come back as they were where they had it.
-/
theorem unwritten_bytes (htext : CborTextLaws text) {s : String} {data : List UInt8}
    (hs : text.base64urlDecode s = some data) :
    unwritten text (.object [("$bytes", .string (bytesText text data))]) = 0 ∧
      (unwritten text (.object [("$bytes", .string s)]) = 0 → bytesText text data = s) := by
  have hempty : unwritten text (.object [("$bytes", .string "")]) = 0 := by
    cases h : text.base64urlDecode "" with
    | none => simp [unwritten, specialTexts, h, membersUnwritten]
    | some data' =>
      cases htext.bytesEmpty data' h
      simp [unwritten, specialTexts, h, bytesText]
  constructor
  · by_cases hdata : data = []
    · rw [hdata]
      exact hempty
    · cases h : text.base64urlEncode data with
      | none =>
        have hnone : bytesText text data = "" := by simp [bytesText, hdata, h]
        rw [hnone]
        exact hempty
      | some s' =>
        have hback := htext.bytes data s' h
        simp [bytesText, hdata, h, unwritten, specialTexts, hback]
  · intro h
    simp only [unwritten, specialTexts, hs, Option.map_some] at h
    by_contra hne
    rw [if_neg (Ne.symm hne)] at h
    cases h

mutual

/-- What is written as DAG-CBOR comes back, as it was if it is written as the library would. -/
theorem comesBack (htext : CborTextLaws text) : ∀ {j : Json} {item : CborItem}, nuls j = 0 →
    cborFromJson text j = some item → ∃ j', cborToJson text item = some j' ∧
      unwritten text j' = 0 ∧ (unwritten text j = 0 → j' = j)
  | .null, item, _, h => by
    cases h
    exact ⟨.null, rfl, rfl, fun _ => rfl⟩
  | .bool b, item, _, h => by
    cases h
    cases b <;> exact ⟨_, rfl, rfl, fun _ => rfl⟩
  | .number d, item, _, h => by
    exact ⟨.number d, cborFromNumber_comesBack h, rfl, fun _ => rfl⟩
  | .string s, item, hnuls, h => by
    cases h
    have hs : cText s = s := by
      by_contra hne
      simp [nuls, hne] at hnuls
    refine ⟨.string s, ?_, rfl, fun _ => rfl⟩
    rw [cborToJson, hs]
  | .array items, item, hnuls, h => by
    rw [cborFromJson] at h
    obtain ⟨converted, hconverted, rfl⟩ := Option.map_eq_some_iff.mp h
    obtain ⟨js, hjs, hzero, hsame⟩ := itemsComeBack htext hnuls hconverted
    refine ⟨.array js, ?_, hzero, fun hw => ?_⟩
    · rw [cborToJson, hjs]
      rfl
    · rw [hsame hw]
  | .object members, item, hnuls, h => by
    cases hspecial : cborFromSpecial text members with
    | some item' =>
      rw [cborFromJson, hspecial] at h
      cases h
      obtain ⟨s, ⟨rfl, data, hdata, rfl⟩ | ⟨rfl, data, hdata, rfl⟩⟩ :=
        cborFromSpecial_eq_some hspecial
      · obtain ⟨hzero, hsame⟩ := unwritten_link htext hdata
        exact ⟨.object [("$link", .string (linkText text data))], rfl, hzero,
          fun hw => by rw [hsame hw]⟩
      · obtain ⟨hzero, hsame⟩ := unwritten_bytes htext hdata
        exact ⟨.object [("$bytes", .string (bytesText text data))], rfl, hzero,
          fun hw => by rw [hsame hw]⟩
    | none =>
      simp only [cborFromJson, hspecial] at h
      obtain ⟨pairs, hpairs, rfl⟩ := Option.map_eq_some_iff.mp h
      obtain ⟨members', hmembers', hzero, hsame⟩ := membersComeBack htext hnuls hpairs
      have hspecial' := not_special_of_comesBack hnuls hpairs hmembers' hspecial
      refine ⟨.object members', ?_, ?_, fun hw => ?_⟩
      · rw [cborToJson, hmembers']
        rfl
      · rw [unwritten, specialTexts_eq_none_iff.mpr hspecial']
        exact hzero
      · rw [unwritten, specialTexts_eq_none_iff.mpr hspecial] at hw
        rw [hsame hw]

/-- Items that were written come back, in the spelling of the writer. -/
theorem itemsComeBack (htext : CborTextLaws text) : ∀ {js : List Json} {items : List CborItem},
    itemNuls js = 0 → cborFromItems text js = some items →
      ∃ js', cborToItems text items = some js' ∧ itemsUnwritten text js' = 0 ∧
        (itemsUnwritten text js = 0 → js' = js)
  | [], items, _, h => by
    cases h
    exact ⟨[], rfl, rfl, fun _ => rfl⟩
  | j :: rest, items, hnuls, h => by
    simp only [cborFromItems, Option.bind_eq_bind, Option.bind_eq_some_iff] at h
    obtain ⟨item, hitem, items', hitems', h⟩ := h
    cases h
    rw [itemNuls] at hnuls
    obtain ⟨j', hj', hzero, hsame⟩ := comesBack htext (by omega) hitem
    obtain ⟨js', hjs', hzeros, hsames⟩ := itemsComeBack htext (by omega) hitems'
    refine ⟨j' :: js', ?_, ?_, fun hw => ?_⟩
    · simp [cborToItems, hj', hjs']
    · rw [itemsUnwritten, hzero, hzeros]
    · rw [itemsUnwritten] at hw
      rw [hsame (by omega), hsames (by omega)]

/-- Members that were written come back, in the spelling of the writer. -/
theorem membersComeBack (htext : CborTextLaws text) : ∀ {members : List (String × Json)}
    {pairs : List (Option String × CborItem)}, memberNuls members = 0 →
    cborFromMembers text members = some pairs →
      ∃ members', cborToMembers text pairs = some members' ∧
        membersUnwritten text members' = 0 ∧
        (membersUnwritten text members = 0 → members' = members)
  | [], pairs, _, h => by
    cases h
    exact ⟨[], rfl, rfl, fun _ => rfl⟩
  | (k, j) :: rest, pairs, hnuls, h => by
    simp only [cborFromMembers, Option.bind_eq_bind, Option.bind_eq_some_iff] at h
    obtain ⟨item, hitem, pairs', hpairs', h⟩ := h
    cases h
    rw [memberNuls] at hnuls
    have hk : cText k = k := by
      by_contra hne
      rw [if_neg hne] at hnuls
      omega
    obtain ⟨j', hj', hzero, hsame⟩ := comesBack htext (by omega) hitem
    obtain ⟨members', hmembers', hzeros, hsames⟩ := membersComeBack htext (by omega) hpairs'
    refine ⟨(k, j') :: members', ?_, ?_, fun hw => ?_⟩
    · simp [cborToMembers, hj', hmembers', hk]
    · rw [membersUnwritten, hzero, hzeros]
    · rw [membersUnwritten] at hw
      rw [hsame (by omega), hsames (by omega)]

end

end Values

/-! ## The main result -/

/-- A JSON value that is accepted comes back up to the order of its members exactly if its
texts are as they would be written, and an item comes back exactly if each of its parts reads
back. -/
theorem cborRoundTrip_iff (text : CborText) (htext : CborTextLaws text) :
    (∀ j item, cborFromJson text j = some item →
        ((∃ j', cborToJson text item = some j' ∧ j.Same j') ↔ AsWritten text j)) ∧
      ∀ item j, cborToJson text item = some j →
        (cborFromJson text j = some item ↔ ReadsBackAs text item) := by
  refine ⟨fun j item hfrom => ⟨?_, ?_⟩, fun item j hto => readsBack_iff hto⟩
  · rintro ⟨j', hto, hsame⟩
    have hnuls : nuls j = 0 := (nuls_of_same hsame).trans (nuls_of_item htext hto)
    obtain ⟨j'', hto', hzero, -⟩ := comesBack htext hnuls hfrom
    rw [hto] at hto'
    cases hto'
    exact ⟨hnuls, (unwritten_of_same hsame).trans hzero⟩
  · rintro ⟨hnuls, hunwritten⟩
    obtain ⟨j', hto, -, hback⟩ := comesBack htext hnuls hfrom
    rw [hback hunwritten] at hto
    exact ⟨j, hto, .refl j⟩

/-! ## Items that do not come back -/

section Lossy

/-- The texts of one CID, and of no bytes. -/
def oneCid : CborText where
  cidFromString s := if s = "bafy" then some [1] else none
  cidToString data := if data = [1] then some "bafy" else none
  base64urlDecode s := if s = "" then some [] else none
  base64urlEncode _ := none

theorem oneCid_laws : CborTextLaws oneCid where
  link data s s' h h' := by
    simp only [oneCid] at h h' ⊢
    split at h'
    · next hdata =>
      cases h'
      rw [hdata]
      rfl
    · cases h'
  linkEmpty := by decide
  linkChars data s h := by
    simp only [oneCid] at h
    split at h
    · cases h
      decide
    · cases h
  bytes data s h := by cases h
  bytesEmpty data h := by
    cases h
    rfl
  bytesChars data s h := by cases h

theorem cborRoundTrip_oneCid :
    CborTextLaws oneCid ∧
      (∀ j item, cborFromJson oneCid j = some item →
          ((∃ j', cborToJson oneCid item = some j' ∧ j.Same j') ↔ AsWritten oneCid j)) ∧
        ∀ item j, cborToJson oneCid item = some j →
          (cborFromJson oneCid j = some item ↔ ReadsBackAs oneCid item) :=
  ⟨oneCid_laws, cborRoundTrip_iff oneCid oneCid_laws⟩

/-- A large integer is served as another number, which is refused when it is sent back, and a
map with the text of a CID is taken for the CID. -/
theorem items_do_not_come_back :
    (cborToJson oneCid (.unsigned 9007199254740993) =
        some (.number (.finite (9007199254740992 : Nat))) ∧
      cborFromJson oneCid (.number (.finite (9007199254740992 : Nat))) = none) ∧
    (cborToJson oneCid (.map [(some "$link", .string "bafy")]) =
        some (.object [("$link", .string "bafy")]) ∧
      cborFromJson oneCid (.object [("$link", .string "bafy")]) = some (.link [1])) := by
  have hround : roundDouble 9007199254740993 = 9007199254740992 := by decide
  have hkey : cText "$link" = "$link" := by decide
  have hcid : cText "bafy" = "bafy" := by decide
  refine ⟨⟨?_, ?_⟩, ?_, ?_⟩
  · rw [cborToJson, hround]
  · rw [cborFromJson, cborFromNumber_natCast, if_neg]
    rw [natCast_le_maxSafeInteger]
    omega
  · simp [cborToJson, cborToMembers, hkey, hcid]
  · exact cborFromJson_link.mpr rfl

end Lossy

end MetalBear
