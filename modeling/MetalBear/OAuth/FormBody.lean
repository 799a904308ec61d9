import MetalBear.Json.Value
import MetalBear.Library.ByteText
import MetalBear.Library.WhileLoop
import MetalBear.Wolfram.Status

/-!
# Form bodies

The bodies of the OAuth endpoints, JSON or form-encoded. A form is read pair by pair into a
`cJSON` object of strings, where a name that is given again replaces its earlier value.
-/

namespace MetalBear.OAuth

open ByteText WhileLoop

/-- Names are compared byte by byte. -/
local instance instLawfulBEqName : LawfulBEq (List UInt8) := List.instLawfulBEq

/-! ## Decoding a component -/

def plus : UInt8 := 43
def space : UInt8 := 32
def percent : UInt8 := 37
def ampersand : UInt8 := 38
def equalsSign : UInt8 := 61

/-- `form_decode`, with the whole of its buffer. -/
def formDecode : List UInt8 → Except WfError (List UInt8)
  | [] => .ok []
  | ch :: rest =>
    if ch = plus then (formDecode rest).map (space :: ·)
    else if ch = percent then
      match rest with
      | first :: second :: rest =>
        match hexValue first, hexValue second with
        | some high, some low =>
          if 16 * high + low = 0 then .error .invalidArg
          else (formDecode rest).map (UInt8.ofNat (16 * high + low) :: ·)
        | _, _ => .error .invalidArg
      | _ => .error .invalidArg
    else (formDecode rest).map (ch :: ·)

/-! ## The object -/

/-- A `cJSON` object whose items are strings. -/
abbrev FormObject := List (List UInt8 × List UInt8)

namespace FormObject

/-- `cJSON_GetObjectItemCaseSensitive`. -/
def getItem (form : FormObject) (name : List UInt8) : Option (List UInt8) :=
  (form.find? fun m => decide (m.1 = name)).map Prod.snd

/-- `cJSON_DeleteItemFromObject`, which takes the first item of the name in any case. -/
def deleteItem (form : FormObject) (name : List UInt8) : FormObject :=
  form.eraseP fun m => decide (SameIgnoringCase m.1 name)

/-- `cJSON_AddStringToObject`. -/
def addString (form : FormObject) (name value : List UInt8) : FormObject := form ++ [(name, value)]

/-- A pair is stored in place of what has its name. -/
def store (form : FormObject) (name value : List UInt8) : FormObject :=
  (if (form.getItem name).isSome then form.deleteItem name else form).addString name value

end FormObject

/-! ## The body -/

/-- `wf_xrpc_request`, as far as `parse_form_body` reads it. -/
structure FormRequest where
  contentType : Option (List UInt8)
  body : List UInt8

/-- `media_type_is`. -/
def mediaTypeIs (value : Option (List UInt8)) (mediaType : List UInt8) : Bool :=
  match value with
  | none => false
  | some value =>
    decide (SameIgnoringCase (value.take mediaType.length) mediaType) &&
      match (value.drop mediaType.length).head? with
      | none => true
      | some c => c = 59 || c = 32 || c = 9

def jsonType : List UInt8 := "application/json".toUTF8.toList

def formType : List UInt8 := "application/x-www-form-urlencoded".toUTF8.toList

/-- The part of a pair before its first equals sign. -/
def pairName (pair : List UInt8) : List UInt8 := pair.takeWhile (· ≠ equalsSign)

/-- The part of a pair behind its first equals sign. -/
def pairValue (pair : List UInt8) : List UInt8 := (pair.dropWhile (· ≠ equalsSign)).drop 1

/-- The body of the loop on one pair. Where a decoded name is empty to C, the status returned is
still that of decoding it. -/
def readPair (form : FormObject) (pair : List UInt8) : Except WfStatus FormObject :=
  if equalsSign ∉ pair ∨ pair.head? = some equalsSign then .error .invalidArg
  else
    match formDecode (pairName pair) with
    | .error e => .error e.status
    | .ok key =>
      if cString key = [] then .error .ok
      else
        match formDecode (pairValue pair) with
        | .error e => .error e.status
        | .ok value => .ok (form.store (cString key) (cString value))

/-- The variables of the loop; `rest` is the body from the offset on. -/
structure FormScan where
  rest : List UInt8
  form : FormObject
  /-- The status with which the loop was left. -/
  returned : Option WfStatus

def FormScan.goesOn (s : FormScan) : Bool := s.rest ≠ [] && s.returned.isNone

/-- One turn of the loop. -/
def FormScan.turn (s : FormScan) : FormScan :=
  let pair := s.rest.takeWhile (· ≠ ampersand)
  match readPair s.form pair with
  | .error status => { s with returned := some status }
  | .ok form => { s with rest := s.rest.drop (pair.length + 1), form }

/-- What `*out` points at. -/
inductive ParsedBody where
  | json (value : Json)
  | form (form : FormObject)

/-- `parse_form_body`, with a bound on the turns of its loop: the status, and `*out`. -/
def parseFormBody (parseJson : List UInt8 → Option Json) (turns : Nat) (req : FormRequest) :
    Option (WfStatus × Option ParsedBody) :=
  if req.body = [] then some (.invalidArg, none)
  else if mediaTypeIs req.contentType jsonType then
    match parseJson req.body with
    | some value => some (if value.isObject then (.ok, some (.json value)) else (.invalidArg, none))
    | none => some (.invalidArg, none)
  else if mediaTypeIs req.contentType formType = false then some (.invalidArg, none)
  else
    (whileLoop FormScan.goesOn FormScan.turn turns ⟨req.body, [], none⟩).map fun s =>
      match s.returned with
      | some status => (status, none)
      | none => (.ok, some (.form s.form))

/-! ## What forms mean -/

/-- The ways to write a byte: as it is, as a plus sign for a space, or as an escape. -/
inductive SpellsByte (b : UInt8) : List UInt8 → Prop where
  | plain (h : b ≠ plus ∧ b ≠ percent ∧ b ≠ ampersand) : SpellsByte b [b]
  | space (h : b = space) : SpellsByte b [plus]
  | escape (first second : UInt8) (hfirst : hexValue first = some (b.toNat / 16))
      (hsecond : hexValue second = some (b.toNat % 16)) : SpellsByte b [percent, first, second]

/-- The text is spelled byte by byte. -/
def Spells (text code : List UInt8) : Prop :=
  ∃ parts, List.Forall₂ SpellsByte text parts ∧ code = parts.flatten

/-- A pair is its name and its value with an equals sign between. -/
def SpellsPair (pair : List UInt8 × List UInt8) (code : List UInt8) : Prop :=
  ∃ name value, Spells pair.1 name ∧ Spells pair.2 value ∧ equalsSign ∉ name ∧
    code = name ++ equalsSign :: value

/-- Names are not empty, and nothing holds a NUL. -/
def ValidPairs (pairs : List (List UInt8 × List UInt8)) : Prop :=
  ∀ p ∈ pairs, p.1 ≠ [] ∧ 0 ∉ p.1 ∧ 0 ∉ p.2

/-- The body is an encoding of the pairs. -/
def EncodesForm (pairs : List (List UInt8 × List UInt8)) (body : List UInt8) : Prop :=
  ∃ codes, List.Forall₂ SpellsPair pairs codes ∧ body = [ampersand].intercalate codes

/-- The object has the value of the last pair of every name, and nothing else. -/
structure GivesLast (pairs : List (List UInt8 × List UInt8)) (form : FormObject) : Prop where
  nodup : (form.map Prod.fst).Nodup
  mem_iff : ∀ name value, (name, value) ∈ form ↔
    ∃ before after, pairs = before ++ (name, value) :: after ∧ name ∉ after.map Prod.fst

/-- A percent sign is not followed by two hexadecimal digits. -/
def BrokenEscape (text : List UInt8) : Prop :=
  ∃ before after, text = before ++ percent :: after ∧
    ¬ ∃ first second rest high low, after = first :: second :: rest ∧
      hexValue first = some high ∧ hexValue second = some low

/-- Between two ampersands there is no equals sign, no name, or a broken escape. -/
def MalformedForm (body : List UInt8) : Prop :=
  ∃ code ∈ body.splitOn ampersand,
    equalsSign ∉ code ∨ code.head? = some equalsSign ∨ BrokenEscape code

/-- What is claimed of a form body: the loop ends, an encoding of pairs gives the last value of
every name, and a malformed body gives nothing. -/
structure DecodesForm (parseJson : List UInt8 → Option Json) (req : FormRequest) : Prop where
  ends : ∃ turns result, parseFormBody parseJson turns req = some result
  faithful : ∀ pairs, ValidPairs pairs → EncodesForm pairs req.body →
    ∃ turns form, parseFormBody parseJson turns req = some (.ok, some (.form form)) ∧
      GivesLast pairs form
  rejects : MalformedForm req.body → ∀ turns result,
    parseFormBody parseJson turns req = some result → result.2 = none

/-! ## Where the code keeps to it -/

/-- The names, each where it was given last. -/
def lastNames : List (List UInt8) → List (List UInt8)
  | [] => []
  | name :: names => if name ∈ names then lastNames names else name :: lastNames names

/-- A name is given again while another one, which differs from it in case only, was last given
before it was. -/
def CaseShadowed (names : List (List UInt8)) : Prop :=
  ∃ before name after earlier later other, names = before ++ name :: after ∧
    lastNames before = earlier ++ name :: later ∧ other ∈ earlier ∧ SameIgnoringCase other name

/-- The pair has a name and decodes. -/
def PairDecodes (code : List UInt8) : Prop :=
  equalsSign ∈ code ∧ ∃ key value, formDecode (pairName code) = .ok key ∧ cString key ≠ [] ∧
    formDecode (pairValue code) = .ok value

/-- The body is not empty, does not end in an ampersand behind pairs that decode, and encodes no
pairs of which one is shadowed. -/
structure PlainForm (body : List UInt8) : Prop where
  ne_nil : body ≠ []
  ended : body.getLast? = some ampersand → ∃ code ∈ pieces ampersand body, ¬ PairDecodes code
  unshadowed : ∀ pairs, ValidPairs pairs → EncodesForm pairs body →
    ¬ CaseShadowed (pairs.map Prod.fst)

/-! ## The loop -/

/-- The pairs are read one after the other. -/
def readPairs (form : FormObject) (codes : List (List UInt8)) : Except WfStatus FormObject :=
  codes.foldlM readPair form

/-- What the loop was left with. -/
def FormScan.outcome (s : FormScan) : Except WfStatus FormObject :=
  match s.returned with
  | some status => .error status
  | none => .ok s.form

/-- The loop ends after as many turns as there are pairs, and has read them all. -/
theorem scan_eq (rest : List UInt8) (form : FormObject) :
    ∃ s, whileLoop FormScan.goesOn FormScan.turn ((pieces ampersand rest).length + 1)
        ⟨rest, form, none⟩ = some s ∧
      s.outcome = readPairs form (pieces ampersand rest) := by
  induction hlength : rest.length using Nat.strong_induction_on generalizing rest form with
  | _ n ih =>
    subst hlength
    by_cases hnil : rest = []
    · subst hnil
      exact ⟨⟨[], form, none⟩, whileLoop_of_false rfl, rfl⟩
    · have hgo : FormScan.goesOn ⟨rest, form, none⟩ = true := by simp [FormScan.goesOn, hnil]
      obtain ⟨code, after, hpieces, htake, hdrop, hshorter⟩ : ∃ code after,
          pieces ampersand rest = code :: pieces ampersand after ∧
          rest.takeWhile (· ≠ ampersand) = code ∧ rest.drop (code.length + 1) = after ∧
          after.length < rest.length := by
        rcases exists_piece ampersand rest with hnone | ⟨code, after, rfl, hcode⟩
        · refine ⟨rest, [], pieces_single hnone hnil, takeWhile_ne_of_not_mem hnone,
            List.drop_eq_nil_of_le (Nat.le_succ _), List.length_pos_iff.mpr hnil⟩
        · refine ⟨code, after, pieces_append hcode after, takeWhile_ne_of_append hcode after, ?_,
            by simp; omega⟩
          rw [← List.drop_drop, List.drop_left, List.drop_one, List.tail_cons]
      rw [hpieces, List.length_cons, whileLoop_of_true hgo, FormScan.turn]
      simp only [htake, hdrop]
      cases hread : readPair form code with
      | error status =>
        refine ⟨_, whileLoop_of_false (by simp [FormScan.goesOn]), ?_⟩
        simp [FormScan.outcome, readPairs, hread, bind, Except.bind]
      | ok form' =>
        obtain ⟨s, hs, hout⟩ := ih after.length hshorter after form' rfl
        exact ⟨s, hs, by simp [hout, readPairs, hread, bind, Except.bind]⟩

variable {parseJson : List UInt8 → Option Json} {contentType : Option (List UInt8)}
  {body : List UInt8}

/-- A form type is no JSON type. -/
theorem mediaTypeIs_json (h : mediaTypeIs contentType formType = true) :
    mediaTypeIs contentType jsonType = false := by
  cases contentType with
  | none => rfl
  | some value =>
    rw [mediaTypeIs, Bool.and_eq_true, decide_eq_true_eq] at h
    refine Bool.eq_false_iff.mpr fun hjson => ?_
    rw [mediaTypeIs, Bool.and_eq_true, decide_eq_true_eq] at hjson
    have hform := congrArg (List.take jsonType.length) h.1
    have hle : min jsonType.length formType.length = jsonType.length := by decide +kernel
    rw [← List.map_take, List.take_take, hle, hjson.1] at hform
    revert hform
    decide +kernel

/-- The result of a form body, for every number of turns that is enough. -/
theorem parseFormBody_form (htype : mediaTypeIs contentType formType = true) (hne : body ≠ [])
    {turns : Nat} {result : WfStatus × Option ParsedBody} :
    parseFormBody parseJson turns ⟨contentType, body⟩ = some result →
      result = match readPairs [] (pieces ampersand body) with
        | .ok form => (.ok, some (.form form))
        | .error status => (status, none) := by
  intro h
  obtain ⟨s, hs, hout⟩ := scan_eq body []
  rw [parseFormBody, if_neg hne, if_neg (by simp [mediaTypeIs_json htype]),
    if_neg (by simp [htype]), Option.map_eq_some_iff] at h
  obtain ⟨s', hs', rfl⟩ := h
  have hsame : s' = s := by
    have hleft := whileLoop_mono (Nat.le_max_left turns ((pieces ampersand body).length + 1)) hs'
    have hright := whileLoop_mono (Nat.le_max_right turns ((pieces ampersand body).length + 1)) hs
    exact Option.some.inj (hleft.symm.trans hright)
  rw [hsame, ← hout, FormScan.outcome]
  cases s.returned <;> rfl

/-- It is reached. -/
theorem parseFormBody_ends (htype : mediaTypeIs contentType formType = true) :
    ∃ turns result, parseFormBody parseJson turns ⟨contentType, body⟩ = some result := by
  by_cases hne : body = []
  · exact ⟨0, _, by rw [parseFormBody, if_pos hne]⟩
  · obtain ⟨s, hs, -⟩ := scan_eq body []
    refine ⟨(pieces ampersand body).length + 1, Option.isSome_iff_exists.mp ?_⟩
    rw [parseFormBody, if_neg hne, if_neg (by simp [mediaTypeIs_json htype]),
      if_neg (by simp [htype]), hs]
    rfl

/-- A pair that decodes is stored. -/
theorem readPair_of_decodes {code : List UInt8} (h : PairDecodes code) (form : FormObject) :
    ∃ form', readPair form code = .ok form' := by
  obtain ⟨heq, key, value, hkey, hname, hvalue⟩ := h
  have hhead : code.head? ≠ some equalsSign := by
    intro hhead
    obtain ⟨rest, rfl⟩ : ∃ rest, code = equalsSign :: rest := by
      cases code with
      | nil => cases hhead
      | cons c rest => exact ⟨rest, by rw [Option.some.inj hhead]⟩
    have hnil : pairName (equalsSign :: rest) = [] := by simp [pairName]
    rw [hnil, formDecode, Except.ok.injEq] at hkey
    exact hname (by rw [← hkey]; rfl)
  rw [readPair, if_neg (by simp [heq, hhead]), hkey]
  dsimp only
  rw [if_neg hname, hvalue]
  exact ⟨_, rfl⟩

/-- A pair that is read decodes. -/
theorem decodes_of_readPair {code : List UInt8} {form form' : FormObject}
    (h : readPair form code = .ok form') : PairDecodes code := by
  unfold readPair at h
  split at h
  · cases h
  · next hguard =>
    cases hkey : formDecode (pairName code) with
    | error e => simp [hkey] at h
    | ok key =>
      simp only [hkey] at h
      split at h
      · cases h
      · next hname =>
        cases hvalue : formDecode (pairValue code) with
        | error e => simp [hvalue] at h
        | ok value =>
          refine ⟨?_, key, value, hkey, hname, hvalue⟩
          by_contra hnot
          exact hguard (Or.inl hnot)

/-- All pairs are read if and only if all decode. -/
theorem readPairs_ok_iff (form : FormObject) (codes : List (List UInt8)) :
    (∃ form', readPairs form codes = .ok form') ↔ ∀ code ∈ codes, PairDecodes code := by
  induction codes generalizing form with
  | nil => exact iff_of_true ⟨form, rfl⟩ nofun
  | cons code codes ih =>
    rw [List.forall_mem_cons]
    constructor
    · rintro ⟨form', h⟩
      rw [readPairs, List.foldlM_cons] at h
      cases hread : readPair form code with
      | error status => simp [hread, bind, Except.bind] at h
      | ok next =>
        simp only [hread, bind, Except.bind] at h
        exact ⟨decodes_of_readPair hread, (ih next).mp ⟨form', h⟩⟩
    · rintro ⟨hcode, hrest⟩
      obtain ⟨next, hread⟩ := readPair_of_decodes hcode form
      obtain ⟨form', h⟩ := (ih next).mpr hrest
      refine ⟨form', ?_⟩
      rw [readPairs, List.foldlM_cons, hread]
      exact h

/-! ## Decoding what is spelled -/

/-- A digit has a value below sixteen and is no sign of the form. -/
theorem hexValue_spec {ch : UInt8} {n : Nat} (h : hexValue ch = some n) :
    n < 16 ∧ ch ≠ percent ∧ ch ≠ ampersand ∧ ch ≠ equalsSign := by
  have hsigns : ch ≠ percent ∧ ch ≠ ampersand ∧ ch ≠ equalsSign := by
    refine ⟨?_, ?_, ?_⟩ <;>
    · rintro rfl
      revert h
      decide +revert
  refine ⟨?_, hsigns⟩
  unfold hexValue at h
  simp only [UInt8.le_iff_toNat_le] at h
  split at h
  · next hd =>
    have := hd.2
    have hval : (57 : UInt8).toNat = 57 := rfl
    cases h
    omega
  · split at h
    · next hd =>
      have := hd.2
      have hval : (102 : UInt8).toNat = 102 := rfl
      cases h
      omega
    · split at h
      · next hd =>
        have := hd.2
        have hval : (70 : UInt8).toNat = 70 := rfl
        cases h
        omega
      · cases h

theorem formDecode_plus (rest : List UInt8) :
    formDecode (plus :: rest) = (formDecode rest).map (space :: ·) := by
  rw [formDecode.eq_def]
  exact if_pos rfl

theorem formDecode_plain {ch : UInt8} (hplus : ch ≠ plus) (hpercent : ch ≠ percent)
    (rest : List UInt8) : formDecode (ch :: rest) = (formDecode rest).map (ch :: ·) := by
  rw [formDecode.eq_def]
  dsimp only
  rw [if_neg hplus, if_neg hpercent]

theorem formDecode_escape (first second : UInt8) (rest : List UInt8) :
    formDecode (percent :: first :: second :: rest) =
      match hexValue first, hexValue second with
      | some high, some low =>
        if 16 * high + low = 0 then .error .invalidArg
        else (formDecode rest).map (UInt8.ofNat (16 * high + low) :: ·)
      | _, _ => .error .invalidArg := by
  rw [formDecode, if_neg (by decide), if_pos rfl]

/-- An escape that decodes has its digits. -/
theorem formDecode_percent {after buffer : List UInt8}
    (h : formDecode (percent :: after) = .ok buffer) :
    ∃ first second rest high low inner, after = first :: second :: rest ∧
      hexValue first = some high ∧ hexValue second = some low ∧ formDecode rest = .ok inner := by
  match after, h with
  | first :: second :: rest, h =>
    rw [formDecode_escape] at h
    cases hfirst : hexValue first with
    | none => simp [hfirst] at h
    | some high =>
      cases hsecond : hexValue second with
      | none => simp [hfirst, hsecond] at h
      | some low =>
        simp only [hfirst, hsecond] at h
        split at h
        · cases h
        · cases hrest : formDecode rest with
          | error e => simp [hrest, Except.map] at h
          | ok inner => exact ⟨first, second, rest, high, low, inner, rfl, hfirst, hsecond, hrest⟩

/-- What follows any other character decodes as well. -/
theorem formDecode_tail {ch : UInt8} {rest buffer : List UInt8} (hne : ch ≠ percent)
    (h : formDecode (ch :: rest) = .ok buffer) : ∃ inner, formDecode rest = .ok inner := by
  by_cases hplus : ch = plus
  · subst hplus
    rw [formDecode_plus] at h
    cases hrest : formDecode rest with
    | error e => simp [hrest, Except.map] at h
    | ok inner => exact ⟨inner, rfl⟩
  · rw [formDecode_plain hplus hne] at h
    cases hrest : formDecode rest with
    | error e => simp [hrest, Except.map] at h
    | ok inner => exact ⟨inner, rfl⟩

/-- One byte is decoded. -/
theorem formDecode_spelled {b : UInt8} {part : List UInt8} (h : SpellsByte b part) (hb : b ≠ 0)
    (rest : List UInt8) : formDecode (part ++ rest) = (formDecode rest).map (b :: ·) := by
  cases h with
  | plain h => exact formDecode_plain h.1 h.2.1 rest
  | space h =>
    subst h
    exact formDecode_plus rest
  | escape first second hfirst hsecond =>
    have hvalue : 16 * (b.toNat / 16) + b.toNat % 16 = b.toNat := Nat.div_add_mod b.toNat 16
    have hne : b.toNat ≠ 0 := fun h0 => hb (UInt8.toNat_inj.mp h0)
    have hcode := formDecode_escape first second rest
    simp only [hfirst, hsecond, hvalue, hne, if_false, UInt8.ofNat_toNat] at hcode
    exact hcode

/-- What is spelled is decoded. -/
theorem formDecode_spells {text code : List UInt8} (h : Spells text code) (hnul : 0 ∉ text) :
    formDecode code = .ok text := by
  obtain ⟨parts, hparts, rfl⟩ := h
  induction hparts with
  | nil => rfl
  | @cons b part text parts hb _ ih =>
    obtain ⟨hb0, htext⟩ : (0 : UInt8) ≠ b ∧ 0 ∉ text := by simpa using hnul
    rw [List.flatten_cons, formDecode_spelled hb hb0.symm, ih htext]
    rfl

theorem ampersand_not_mem_spelled {text code : List UInt8} (h : Spells text code) :
    ampersand ∉ code := by
  obtain ⟨parts, hparts, rfl⟩ := h
  induction hparts with
  | nil => simp
  | cons hb _ ih =>
    rw [List.flatten_cons, List.mem_append, not_or]
    refine ⟨?_, ih⟩
    cases hb with
    | plain h => simpa using h.2.2.symm
    | space h => decide
    | escape first second hfirst hsecond =>
      have hsign : ampersand ≠ percent := by decide
      simp [hsign, (hexValue_spec hfirst).2.2.1.symm, (hexValue_spec hsecond).2.2.1.symm]

/-- An escape that decodes is not broken. -/
theorem not_brokenEscape {text buffer : List UInt8} (h : formDecode text = .ok buffer) :
    ¬ BrokenEscape text := by
  rintro ⟨before, after, rfl, hbroken⟩
  induction hlength : before.length using Nat.strong_induction_on generalizing before buffer with
  | _ n ih =>
    subst hlength
    cases before with
    | nil =>
      obtain ⟨first, second, rest, high, low, -, hafter, hfirst, hsecond, -⟩ := formDecode_percent h
      exact hbroken ⟨first, second, rest, high, low, hafter, hfirst, hsecond⟩
    | cons ch before =>
      by_cases hch : ch = percent
      · subst hch
        obtain ⟨first, second, rest, high, low, inner, hafter, hfirst, hsecond, hrest⟩ :=
          formDecode_percent h
        -- The percent sign that is broken is none of the digits of another one.
        rcases before with _ | ⟨first', _ | ⟨second', before⟩⟩
        · obtain ⟨rfl, -⟩ := List.cons.inj hafter
          exact (hexValue_spec hfirst).2.1 rfl
        · obtain ⟨-, hafter⟩ := List.cons.inj hafter
          obtain ⟨rfl, -⟩ := List.cons.inj hafter
          exact (hexValue_spec hsecond).2.1 rfl
        · obtain ⟨-, hafter⟩ := List.cons.inj hafter
          obtain ⟨-, hafter⟩ := List.cons.inj hafter
          rw [← hafter] at hrest
          exact ih before.length (by simp; omega) before hrest rfl
      · obtain ⟨inner, hinner⟩ := formDecode_tail hch h
        exact ih before.length (Nat.lt_succ_self _) before hinner rfl

/-- The parts of a pair with an equals sign. -/
theorem pair_split {code : List UInt8} (h : equalsSign ∈ code) :
    code = pairName code ++ equalsSign :: pairValue code ∧ equalsSign ∉ pairName code := by
  obtain ⟨name, value, rfl, hname⟩ := List.eq_append_cons_of_mem h
  have htake : pairName (name ++ equalsSign :: value) = name := takeWhile_ne_of_append hname value
  have hdrop : pairValue (name ++ equalsSign :: value) = value := by
    rw [pairValue, List.dropWhile_append_of_pos, List.dropWhile_cons_of_neg (by simp),
      List.drop_one, List.tail_cons]
    intro c hc
    simpa using fun heq : c = equalsSign => hname (heq ▸ hc)
  rw [htake, hdrop]
  exact ⟨rfl, hname⟩

/-- A pair that is malformed does not decode. -/
theorem not_decodes_of_malformed {code : List UInt8}
    (h : equalsSign ∉ code ∨ code.head? = some equalsSign ∨ BrokenEscape code) :
    ¬ PairDecodes code := by
  rintro ⟨heq, key, value, hkey, hname, hvalue⟩
  obtain ⟨hsplit, -⟩ := pair_split heq
  rcases h with hnone | hhead | ⟨before, after, hcode, hbroken⟩
  · exact hnone heq
  · have hnil : pairName code = [] := by
      cases code with
      | nil => cases hhead
      | cons c rest =>
        rw [Option.some.inj hhead]
        simp [pairName]
    rw [hnil, formDecode, Except.ok.injEq] at hkey
    exact hname (by rw [← hkey]; rfl)
  · rcases List.append_eq_append_iff.mp (hcode.symm.trans hsplit) with ⟨mid, hname', hafter⟩ | ⟨mid, hbefore, hvalue'⟩
    · cases mid with
      | nil =>
        rw [List.nil_append, List.cons.injEq] at hafter
        exact absurd hafter.1 (by decide)
      | cons c mid =>
        rw [List.cons_append, List.cons.injEq] at hafter
        obtain ⟨rfl, rfl⟩ := hafter
        refine not_brokenEscape hkey ⟨before, mid, hname', ?_⟩
        rintro ⟨first, second, rest, high, low, rfl, hfirst, hsecond⟩
        exact hbroken ⟨first, second, _, high, low, rfl, hfirst, hsecond⟩
    · cases mid with
      | nil =>
        rw [List.nil_append, List.cons.injEq] at hvalue'
        exact absurd hvalue'.1 (by decide)
      | cons c mid =>
        rw [List.cons_append, List.cons.injEq] at hvalue'
        obtain ⟨rfl, hvalue'⟩ := hvalue'
        exact not_brokenEscape hvalue ⟨mid, after, hvalue', hbroken⟩

/-! ## What is stored in the end -/

section Stored

variable {form : FormObject} {name value : List UInt8} {pairs : List (List UInt8 × List UInt8)}

/-- The pairs of which no later one has the name. -/
def lastPairs : List (List UInt8 × List UInt8) → List (List UInt8 × List UInt8)
  | [] => []
  | p :: pairs => if p.1 ∈ pairs.map Prod.fst then lastPairs pairs else p :: lastPairs pairs

theorem map_fst_lastPairs (pairs : List (List UInt8 × List UInt8)) :
    (lastPairs pairs).map Prod.fst = lastNames (pairs.map Prod.fst) := by
  induction pairs with
  | nil => rfl
  | cons p pairs ih =>
    rw [lastPairs, List.map_cons, lastNames]
    split
    · exact ih
    · rw [List.map_cons, ih]

theorem mem_lastNames {names : List (List UInt8)} : name ∈ lastNames names ↔ name ∈ names := by
  induction names with
  | nil => rfl
  | cons n names ih =>
    rw [lastNames]
    split
    · next h =>
      rw [ih, List.mem_cons]
      exact ⟨Or.inr, fun hor => hor.elim (fun heq => heq ▸ h) id⟩
    · rw [List.mem_cons, List.mem_cons, ih]

theorem nodup_lastNames (names : List (List UInt8)) : (lastNames names).Nodup := by
  induction names with
  | nil => exact List.nodup_nil
  | cons n names ih =>
    rw [lastNames]
    split
    · exact ih
    · next h => exact List.nodup_cons.mpr ⟨fun hmem => h (mem_lastNames.mp hmem), ih⟩

theorem mem_lastPairs : (name, value) ∈ lastPairs pairs ↔
    ∃ before after, pairs = before ++ (name, value) :: after ∧ name ∉ after.map Prod.fst := by
  induction pairs with
  | nil => simp [lastPairs]
  | cons p pairs ih =>
    have hlater : (∃ before after, pairs = before ++ (name, value) :: after ∧
        name ∉ after.map Prod.fst) ↔ ∃ first before after,
          p :: pairs = (first :: before) ++ (name, value) :: after ∧
            name ∉ after.map Prod.fst := by
      constructor
      · rintro ⟨before, after, rfl, hnot⟩
        exact ⟨p, before, after, rfl, hnot⟩
      · rintro ⟨first, before, after, heq, hnot⟩
        exact ⟨before, after, (List.cons.inj heq).2, hnot⟩
    have hsplit : (∃ before after, p :: pairs = before ++ (name, value) :: after ∧
        name ∉ after.map Prod.fst) ↔ (p = (name, value) ∧ name ∉ pairs.map Prod.fst) ∨
          (name, value) ∈ lastPairs pairs := by
      rw [ih, hlater]
      constructor
      · rintro ⟨before, after, heq, hnot⟩
        cases before with
        | nil =>
          obtain ⟨rfl, rfl⟩ := List.cons.inj heq
          exact Or.inl ⟨rfl, hnot⟩
        | cons first before => exact Or.inr ⟨first, before, after, heq, hnot⟩
      · rintro (⟨rfl, hnot⟩ | ⟨first, before, after, heq, hnot⟩)
        · exact ⟨[], pairs, rfl, hnot⟩
        · exact ⟨first :: before, after, heq, hnot⟩
    rw [hsplit, lastPairs]
    split
    · next h =>
      refine ⟨Or.inr, fun hor => hor.elim (fun hleft => ?_) id⟩
      obtain ⟨rfl, hnot⟩ := hleft
      exact absurd h hnot
    · next h =>
      rw [List.mem_cons]
      refine or_congr ⟨fun heq => ⟨heq.symm, ?_⟩, fun hleft => hleft.1.symm⟩ Iff.rfl
      rw [← heq] at h
      exact h

theorem lastPairs_concat (pairs : List (List UInt8 × List UInt8)) (p : List UInt8 × List UInt8) :
    lastPairs (pairs ++ [p]) = (lastPairs pairs).filter (fun q => decide (q.1 ≠ p.1)) ++ [p] := by
  induction pairs with
  | nil => rfl
  | cons q pairs ih =>
    rw [List.cons_append, lastPairs, lastPairs, ih]
    by_cases hq : q.1 ∈ pairs.map Prod.fst
    · rw [if_pos hq, if_pos (by rw [List.map_append]; exact List.mem_append_left _ hq)]
    · rw [if_neg hq]
      by_cases hp : q.1 = p.1
      · rw [if_pos (by simp [hp]), List.filter_cons_of_neg (by simp [hp])]
      · rw [if_neg (by simpa [hp] using hq), List.filter_cons_of_pos (by simp [hp]),
          List.cons_append]

theorem getItem_isSome : (form.getItem name).isSome ↔ name ∈ form.map Prod.fst := by
  rw [FormObject.getItem, Option.isSome_map, List.find?_isSome, List.mem_map]
  simp

/-- Where no other spelling of the name comes before it, the item itself is taken out. -/
theorem deleteItem_eq_filter {earlier later : FormObject} (hnodup : (form.map Prod.fst).Nodup)
    (hform : form = earlier ++ (name, value) :: later)
    (hfirst : ∀ m ∈ earlier, ¬ SameIgnoringCase m.1 name) :
    form.deleteItem name = form.filter fun m => decide (m.1 ≠ name) := by
  have hself : SameIgnoringCase name name := rfl
  have hnames : ∀ m ∈ earlier ++ later, m.1 ≠ name := by
    rw [hform, List.map_append, List.map_cons, List.nodup_middle, List.nodup_cons] at hnodup
    intro m hm heq
    refine hnodup.1 ?_
    rw [← List.map_append]
    exact List.mem_map.mpr ⟨m, hm, heq⟩
  rw [FormObject.deleteItem, hform, List.eraseP_append_right _ (by simpa using hfirst),
    List.eraseP_cons_of_pos (by simpa using hself), List.filter_append,
    List.filter_cons_of_neg (by simp), ← List.filter_append]
  exact (List.filter_eq_self.mpr fun m hm => by simpa using hnames m hm).symm

/-- The pairs are stored one after the other. -/
def storeAll (pairs : List (List UInt8 × List UInt8)) : FormObject :=
  pairs.foldl (fun form p => form.store p.1 p.2) []

/-- Where no name is shadowed, the last pair of every name is left. -/
theorem storeAll_eq (h : ¬ CaseShadowed (pairs.map Prod.fst)) :
    storeAll pairs = lastPairs pairs := by
  induction pairs using List.reverseRecOn with
  | nil => rfl
  | append_singleton pairs p ih =>
    have hearlier : ¬ CaseShadowed (pairs.map Prod.fst) := by
      rintro ⟨before, name, after, earlier, later, other, heq, hrest⟩
      exact h ⟨before, name, after ++ [p.1], earlier, later, other, by simp [heq], hrest⟩
    have hstored : storeAll (pairs ++ [p]) = (storeAll pairs).store p.1 p.2 := by
      simp [storeAll]
    rw [hstored, ih hearlier, lastPairs_concat, FormObject.store, FormObject.addString]
    refine congrArg (· ++ [p]) ?_
    by_cases hp : p.1 ∈ pairs.map Prod.fst
    · have hmem : p.1 ∈ (lastPairs pairs).map Prod.fst := by
        rw [map_fst_lastPairs, mem_lastNames]
        exact hp
      rw [if_pos (getItem_isSome.mpr hmem)]
      obtain ⟨⟨n, v⟩, hn, rfl⟩ : ∃ m ∈ lastPairs pairs, m.1 = p.1 := by simpa using hmem
      obtain ⟨earlier, later, hsplit⟩ := List.append_of_mem hn
      refine deleteItem_eq_filter ?_ hsplit fun m hm hsame => ?_
      · rw [map_fst_lastPairs]
        exact nodup_lastNames _
      · refine h ⟨pairs.map Prod.fst, _, [], earlier.map Prod.fst, later.map Prod.fst, m.1,
          by simp, ?_, List.mem_map_of_mem hm, hsame⟩
        rw [← map_fst_lastPairs, hsplit]
        simp
    · have hmem : p.1 ∉ (lastPairs pairs).map Prod.fst := by
        rw [map_fst_lastPairs, mem_lastNames]
        exact hp
      rw [if_neg (fun hsome => hmem (getItem_isSome.mp hsome)), List.filter_eq_self.mpr]
      intro m hm
      simpa using fun heq : m.1 = p.1 => hmem (heq ▸ List.mem_map_of_mem hm)

/-- The names after a pair is stored. -/
theorem map_fst_store : (form.store name value).map Prod.fst =
    (if name ∈ form.map Prod.fst then
      (form.map Prod.fst).eraseP fun n => decide (SameIgnoringCase n name)
    else form.map Prod.fst) ++ [name] := by
  rw [FormObject.store, FormObject.addString, List.map_append]
  simp only [getItem_isSome]
  split
  · rw [FormObject.deleteItem, List.eraseP_map]
    rfl
  · rfl

/-- A name that is left there twice stays there twice, or another one is. -/
theorem store_not_nodup (h : ¬ (form.map Prod.fst).Nodup) :
    ¬ ((form.store name value).map Prod.fst).Nodup := by
  rw [map_fst_store]
  split
  · next hmem =>
    obtain ⟨other, l₁, l₂, -, -, hsplit, herase⟩ :=
      List.exists_of_eraseP hmem (p := fun n => decide (SameIgnoringCase n name))
        (by simp [SameIgnoringCase])
    rw [herase, List.nodup_append, not_and]
    intro hrest hdisjoint
    refine h ?_
    rw [hsplit] at hmem ⊢
    rw [List.nodup_middle, List.nodup_cons]
    refine ⟨fun hother => ?_, hrest⟩
    by_cases heq : other = name
    · exact hdisjoint.2 name (heq ▸ hother) name (by simp) rfl
    · have hname : name ∈ l₁ ++ l₂ := by
        simp only [List.mem_append, List.mem_cons] at hmem ⊢
        rcases hmem with hmem | rfl | hmem
        · exact Or.inl hmem
        · exact absurd rfl heq
        · exact Or.inr hmem
      exact hdisjoint.2 name hname name (by simp) rfl
  · exact fun hnodup => h (hnodup.sublist (List.sublist_append_left _ _))

/-- Where a name is shadowed, some name is left there twice. -/
theorem storeAll_not_nodup (h : CaseShadowed (pairs.map Prod.fst)) :
    ¬ ((storeAll pairs).map Prod.fst).Nodup := by
  induction hlength : pairs.length using Nat.strong_induction_on generalizing pairs with
  | _ n ih =>
    subst hlength
    obtain ⟨before, name, after, earlier, later, other, heq, hlast, hother, hsame⟩ := h
    obtain ⟨first, second, rfl, hbefore, hsecond⟩ := List.map_eq_append_iff.mp heq
    obtain ⟨p, rest, rfl, rfl, -⟩ := List.map_eq_cons_iff.mp hsecond
    have hkeeps : ∀ (rest : List (List UInt8 × List UInt8)) (form : FormObject),
        ¬ (form.map Prod.fst).Nodup →
          ¬ ((rest.foldl (fun form p => form.store p.1 p.2) form).map Prod.fst).Nodup := by
      intro rest
      induction rest with
      | nil => exact fun form => id
      | cons q rest ihrest => exact fun form hform => ihrest _ (store_not_nodup hform)
    rw [storeAll, List.foldl_append, List.foldl_cons]
    refine hkeeps rest _ ?_
    change ¬ (((storeAll first).store p.1 p.2).map Prod.fst).Nodup
    by_cases hshadow : CaseShadowed (first.map Prod.fst)
    · exact store_not_nodup (ih first.length (by simp) hshadow rfl)
    · -- The item that is taken out is not the one of the name, which is then there twice.
      have hnames : (storeAll first).map Prod.fst = earlier ++ p.1 :: later := by
        rw [storeAll_eq hshadow, map_fst_lastPairs, hbefore, hlast]
      rw [map_fst_store, hnames, if_pos (by simp), List.eraseP_append_left (a := other)]
      · rw [List.append_assoc, List.cons_append, List.nodup_append]
        rintro ⟨-, hnodup, -⟩
        exact (List.nodup_cons.mp hnodup).1 (by simp)
      · simpa using hsame
      · exact hother

end Stored

/-! ## The main result -/

/-- What encodes a pair is read as that pair. -/
theorem readPair_of_spells {pair : List UInt8 × List UInt8} {code : List UInt8}
    (h : SpellsPair pair code) (hvalid : pair.1 ≠ [] ∧ 0 ∉ pair.1 ∧ 0 ∉ pair.2)
    (form : FormObject) : readPair form code = .ok (form.store pair.1 pair.2) := by
  obtain ⟨name, value, hname, hvalue, heq, rfl⟩ := h
  have hmem : equalsSign ∈ name ++ equalsSign :: value := by simp
  have hnameEq : pairName (name ++ equalsSign :: value) = name := takeWhile_ne_of_append heq value
  have hvalueEq : pairValue (name ++ equalsSign :: value) = value := by
    have hsplit := (pair_split hmem).1
    rw [hnameEq] at hsplit
    exact (List.cons.inj (List.append_cancel_left hsplit)).2.symm
  have hhead : (name ++ equalsSign :: value).head? ≠ some equalsSign := by
    cases name with
    | nil =>
      have hdecoded := formDecode_spells hname hvalid.2.1
      rw [formDecode, Except.ok.injEq] at hdecoded
      exact absurd hdecoded.symm hvalid.1
    | cons c name =>
      rw [List.cons_append, List.head?_cons, ne_eq, Option.some.injEq]
      exact fun hc => heq (hc ▸ List.mem_cons_self)
  rw [readPair, if_neg (not_or.mpr ⟨not_not.mpr hmem, hhead⟩), hnameEq, hvalueEq, formDecode_spells hname hvalid.2.1]
  simp only [cString_eq_self hvalid.2.1, if_neg hvalid.1, formDecode_spells hvalue hvalid.2.2,
    cString_eq_self hvalid.2.2]

/-- So the pairs of an encoding are stored one after the other. -/
theorem readPairs_of_encodes {pairs : List (List UInt8 × List UInt8)} {body : List UInt8}
    (hvalid : ValidPairs pairs) (h : EncodesForm pairs body) :
    readPairs [] (pieces ampersand body) = .ok (storeAll pairs) := by
  obtain ⟨codes, hcodes, rfl⟩ := h
  have hclean : ∀ code ∈ codes, ampersand ∉ code ∧ code ≠ [] := by
    intro code hcode
    obtain ⟨i, hi, rfl⟩ := List.getElem_of_mem hcode
    obtain ⟨hlength, hget⟩ := List.forall₂_iff_get.mp hcodes
    obtain ⟨name, value, hname, hvalue, -, hcode⟩ := hget i (by omega) hi
    rw [List.get_eq_getElem] at hcode
    rw [hcode]
    have hsign : ampersand ≠ equalsSign := by decide
    refine ⟨?_, by simp⟩
    simp [ampersand_not_mem_spelled hname, ampersand_not_mem_spelled hvalue, hsign]
  rw [pieces_intercalate hclean, storeAll]
  generalize ([] : FormObject) = form
  induction hcodes generalizing form with
  | nil => rfl
  | @cons pair code pairs codes hpair _ ih =>
    rw [readPairs, List.foldlM_cons, readPair_of_spells hpair (hvalid pair List.mem_cons_self)]
    exact ih (fun p hp => hvalid p (List.mem_cons_of_mem pair hp))
      (fun c hc => hclean c (List.mem_cons_of_mem code hc)) _

/-- A form body is decoded as claimed if and only if it is plain. -/
theorem decodesForm_iff (parseJson : List UInt8 → Option Json) (contentType : Option (List UInt8))
    (body : List UInt8) (htype : mediaTypeIs contentType formType = true) :
    DecodesForm parseJson ⟨contentType, body⟩ ↔ PlainForm body := by
  constructor
  · intro h
    have hne : body ≠ [] := by
      rintro rfl
      obtain ⟨turns, form, hok, -⟩ := h.faithful [] nofun ⟨[], .nil, by simp [List.intercalate]⟩
      rw [parseFormBody, if_pos rfl] at hok
      cases hok
    refine ⟨hne, fun hlast => ?_, fun pairs hvalid hencodes hshadow => ?_⟩
    · by_contra hall
      simp only [not_exists, not_and, not_not] at hall
      obtain ⟨form, hform⟩ := (readPairs_ok_iff [] (pieces ampersand body)).mpr hall
      obtain ⟨turns, result, hresult⟩ := h.ends
      have hvalue := parseFormBody_form htype hne hresult
      have hnone := h.rejects ⟨[], ?_, Or.inl List.not_mem_nil⟩ turns result hresult
      · simp only [hform] at hvalue
        rw [hvalue] at hnone
        cases hnone
      · change [] ∈ body.splitOn ampersand
        rw [splitOn_eq_pieces, if_pos (Or.inr hlast)]
        simp
    · obtain ⟨turns, form, hok, hlast⟩ := h.faithful pairs hvalid hencodes
      have hvalue := parseFormBody_form htype hne hok
      simp only [readPairs_of_encodes hvalid hencodes, Prod.mk.injEq, Option.some.injEq,
        ParsedBody.form.injEq, true_and] at hvalue
      rw [hvalue] at hlast
      exact storeAll_not_nodup hshadow hlast.nodup
  · intro h
    refine ⟨parseFormBody_ends htype, fun pairs hvalid hencodes => ?_,
      fun hmalformed turns result hresult => ?_⟩
    · obtain ⟨turns, result, hresult⟩ : ∃ turns result,
          parseFormBody parseJson turns ⟨contentType, body⟩ = some result := parseFormBody_ends htype
      have hvalue := parseFormBody_form htype h.ne_nil hresult
      simp only [readPairs_of_encodes hvalid hencodes] at hvalue
      refine ⟨turns, storeAll pairs, by rw [hresult, hvalue], ?_⟩
      rw [storeAll_eq (h.unshadowed pairs hvalid hencodes)]
      refine ⟨?_, fun name value => mem_lastPairs⟩
      rw [map_fst_lastPairs]
      exact nodup_lastNames _
    · have hfails : ∃ code ∈ pieces ampersand body, ¬ PairDecodes code := by
        obtain ⟨code, hcode, hbad⟩ := hmalformed
        rw [splitOn_eq_pieces, List.mem_append] at hcode
        rcases hcode with hcode | hcode
        · exact ⟨code, hcode, not_decodes_of_malformed hbad⟩
        · split at hcode
          · next hend => exact h.ended (hend.resolve_left h.ne_nil)
          · cases hcode
      rw [parseFormBody_form htype h.ne_nil hresult]
      cases hread : readPairs [] (pieces ampersand body) with
      | error status => rfl
      | ok form =>
        obtain ⟨code, hcode, hnot⟩ := hfails
        exact absurd ((readPairs_ok_iff [] _).mp ⟨form, hread⟩ code hcode) hnot

/-- A form with escapes and a name that is given twice. -/
def escapedForm : FormRequest := ⟨some formType, "a=1&b%5b=2%263&a=%34+c".toUTF8.toList⟩

theorem decodesForm_escaped : DecodesForm (fun _ => none) escapedForm := by
  refine (decodesForm_iff _ _ _ (by decide +kernel)).mpr ⟨by decide +kernel, ?_, ?_⟩
  · intro hlast
    have hletter : escapedForm.body.getLast? = some 99 := by decide +kernel
    change escapedForm.body.getLast? = _ at hlast
    rw [hletter, Option.some.injEq] at hlast
    cases hlast
  · intro pairs hvalid hencodes hshadow
    have hread : readPairs [] (pieces ampersand escapedForm.body) = .ok (storeAll pairs) :=
      readPairs_of_encodes hvalid hencodes
    -- the name with the bracket, and the second value of the other
    have hform : readPairs [] (pieces ampersand escapedForm.body) =
        .ok [("b[".toUTF8.toList, "2&3".toUTF8.toList), ("a".toUTF8.toList, "4 c".toUTF8.toList)] := by
      decide +kernel
    rw [hform, Except.ok.injEq] at hread
    refine storeAll_not_nodup hshadow ?_
    rw [← hread]
    decide +kernel

/-- Every byte that is no sign of the form may stand as it is. -/
theorem spells_plain {text : List UInt8}
    (h : ∀ b ∈ text, b ≠ plus ∧ b ≠ percent ∧ b ≠ ampersand) : Spells text text := by
  refine ⟨text.map fun b => [b], ?_, (List.flatMap_singleton' text).symm⟩
  induction text with
  | nil => exact .nil
  | cons b text ih =>
    obtain ⟨hb, hrest⟩ := List.forall_mem_cons.mp h
    exact .cons (.plain hb) (ih hrest)

theorem spellsPair_plain (name value : List UInt8)
    (hname : ∀ b ∈ name, b ≠ plus ∧ b ≠ percent ∧ b ≠ ampersand)
    (hvalue : ∀ b ∈ value, b ≠ plus ∧ b ≠ percent ∧ b ≠ ampersand) (heq : equalsSign ∉ name) :
    SpellsPair (name, value) (name ++ equalsSign :: value) :=
  ⟨name, value, spells_plain hname, spells_plain hvalue, heq, rfl⟩

/-- The form `KEY=1&key=2&key=3`. -/
def shadowedForm : FormRequest := ⟨some formType, "KEY=1&key=2&key=3".toUTF8.toList⟩

/-- The third pair takes the first one out and is added behind the second, whose value is found. -/
theorem repeated_name_keeps_its_value :
    (∃ form, parseFormBody (fun _ => none) 4 shadowedForm = some (.ok, some (.form form)) ∧
      form.getItem "key".toUTF8.toList = some "2".toUTF8.toList ∧
      form.getItem "KEY".toUTF8.toList = none) ∧
    ¬ DecodesForm (fun _ => none) shadowedForm := by
  have hread : readPairs [] (pieces ampersand shadowedForm.body) =
      .ok [([107, 101, 121], [50]), ([107, 101, 121], [51])] := by
    decide +kernel
  have htype : mediaTypeIs shadowedForm.contentType formType = true := by decide +kernel
  have hne : shadowedForm.body ≠ [] := by decide +kernel
  have hvalue : ∀ {turns result}, parseFormBody (fun _ => none) turns shadowedForm = some result →
      result = (.ok, some (.form [([107, 101, 121], [50]), ([107, 101, 121], [51])])) := by
    intro turns result hresult
    have hform : result = _ := parseFormBody_form htype hne hresult
    rw [hread] at hform
    exact hform
  constructor
  · have hends : (parseFormBody (fun _ => none) 4 shadowedForm).isSome := by decide +kernel
    obtain ⟨result, hresult⟩ := Option.isSome_iff_exists.mp hends
    exact ⟨_, by rw [hresult, hvalue hresult], by decide +kernel, by decide +kernel⟩
  · intro h
    have hfirst := spellsPair_plain [75, 69, 89] [49] (by decide +kernel) (by decide +kernel) (by decide)
    have hsecond := spellsPair_plain [107, 101, 121] [50] (by decide +kernel) (by decide +kernel) (by decide)
    have hthird := spellsPair_plain [107, 101, 121] [51] (by decide +kernel) (by decide +kernel) (by decide)
    obtain ⟨turns, form, hok, hlast⟩ := h.faithful
      [([75, 69, 89], [49]), ([107, 101, 121], [50]), ([107, 101, 121], [51])]
      (by unfold ValidPairs; decide)
      ⟨_, .cons hfirst (.cons hsecond (.cons hthird .nil)), by decide +kernel⟩
    have hform := hvalue hok
    simp only [Prod.mk.injEq, Option.some.injEq, ParsedBody.form.injEq, true_and] at hform
    have hnodup := hlast.nodup
    rw [hform] at hnodup
    revert hnodup
    decide

end MetalBear.OAuth
