import MetalBear.Labels.Store
import MetalBear.Library.CString
import MetalBear.OAuth.FormBody

/-!
# Querying the labels

The route parses its query string by hand, for the sake of parameters that are repeated, and
answers with a page of labels and the cursor of the next.
-/

namespace MetalBear.Labels

open ByteText Paging
open OAuth (plus space percent ampersand equalsSign pairName pairValue)

/-! ## The query string -/

/-- `decode_component`, where so many bytes are passed over that belong to an escape. A `%` that
begins none stands for itself. -/
def decodeFrom : Nat → Text → Text
  | _, [] => []
  | skip + 1, _ :: rest => decodeFrom skip rest
  | 0, ch :: rest =>
    if ch = percent then
      match rest with
      | high :: low :: _ =>
        match hexValue high, hexValue low with
        | some h, some l => UInt8.ofNat (16 * h + l) :: decodeFrom 2 rest
        | _, _ => ch :: decodeFrom 0 rest
      | _ => ch :: decodeFrom 0 rest
    else if ch = plus then space :: decodeFrom 0 rest
    else ch :: decodeFrom 0 rest

/-- `decode_component`: the whole buffer. -/
def decodeComponent (text : Text) : Text := decodeFrom 0 text

/-- `query_args`. -/
structure QueryArgs where
  uriPatterns : List Text
  sources : List Text
  sourcesPresent : Bool
  afterId : Int
  limit : Int
  limitGiven : Bool
  deriving DecidableEq

def QueryArgs.start : QueryArgs := ⟨[], [], false, 0, 0, false⟩

def uriPatternsKey : Text := "uriPatterns".toUTF8.toList
def sourcesKey : Text := "sources".toUTF8.toList
def limitKey : Text := "limit".toUTF8.toList
def cursorKey : Text := "cursor".toUTF8.toList

/-- The characters of a C string. -/
def charsOf (text : Text) : List Char := text.map fun b => Char.ofNat b.toNat

/-- The body of the loop on one pair; the key and the value are C strings by now. -/
def readParam (args : QueryArgs) (key value : Text) : Except String QueryArgs :=
  if key = uriPatternsKey then .ok { args with uriPatterns := args.uriPatterns ++ [value] }
  else if key = sourcesKey then
    .ok { args with sourcesPresent := true, sources := args.sources ++ [value] }
  else if key = limitKey then
    let v := CString.strtoll (charsOf value)
    if value = [] ∨ v.rest ≠ [] ∨ v.value < 1 ∨ v.value > 250 then
      .error "limit must be an integer from 1 to 250"
    else .ok { args with limit := v.value, limitGiven := true }
  else if key = cursorKey then
    let v := CString.strtoll (charsOf value)
    if value = [] ∨ v.rest ≠ [] ∨ v.range ∨ v.value < 0 then .error "cursor is not a valid cursor"
    else .ok { args with afterId := v.value }
  else .ok args

def readPair (args : QueryArgs) (pair : Text) : Except String QueryArgs :=
  readParam args (cString (decodeComponent (pairName pair)))
    (cString (decodeComponent (pairValue pair)))

/-- `parse_query` of a C string, where memory is had: the arguments, or the message. -/
def parseQuery (raw : Text) : Except String QueryArgs :=
  (raw.splitOn ampersand).foldlM readPair .start

/-! ## The route -/

/-- The query of the arguments. -/
def QueryArgs.query (args : QueryArgs) : LabelQuery where
  uriPatterns := args.uriPatterns
  sources := args.sources
  sourcesPresent := args.sourcesPresent
  afterId := args.afterId
  limit := if args.limitGiven then args.limit else 0

/-- An error of the route: its status, its name and its message. -/
structure RouteError where
  status : Nat
  name : String
  message : String
  deriving DecidableEq

/-- `h_query_labels`. -/
def hQueryLabels (prepares : List SqlPiece → Bool) (t : LabelTable) (raw : Text) :
    Except RouteError (Answer (Int × LabelRow) Text) :=
  match parseQuery raw with
  | .error message => .error ⟨400, "InvalidRequest", message⟩
  | .ok args =>
    if args.uriPatterns.length = 0 then .error ⟨400, "InvalidRequest", "uriPatterns is required"⟩
    else if [] ∈ args.uriPatterns then
      .error ⟨400, "InvalidRequest", "uriPatterns must not be empty"⟩
    else
      match storeQuery prepares t args.query with
      | .error _ => .error ⟨500, "InternalServerError", "label query failed"⟩
      | .ok answer => .ok answer

/-- The query string of a client that follows a cursor. -/
def followed (raw : Text) : Option Text → Text
  | none => raw
  | some cursor => raw ++ ampersand :: (cursorKey ++ equalsSign :: cursor)

/-- The route as a client asks it for a page; an error gives nothing. -/
def askLabels (prepares : List SqlPiece → Bool) (tables : Nat → LabelTable) (raw : Text) (i : Nat)
    (cursor : Option Text) : Answer (Int × LabelRow) Text :=
  match hQueryLabels prepares (tables i) (followed raw cursor) with
  | .ok answer => answer
  | .error _ => ⟨[], none⟩

/-! ## What is asked of it -/

/-- The decoded values of all pairs with a name. -/
def named (key raw : Text) : List Text :=
  (raw.splitOn ampersand).filterMap fun pair =>
    if decodeComponent (pairName pair) = key then some (decodeComponent (pairValue pair)) else none

/-- The handler asks the store. -/
def QueryArgs.Admitted (args : QueryArgs) : Prop := args.uriPatterns ≠ [] ∧ [] ∉ args.uriPatterns

/-- Labels are inserted. -/
def Inserted (t t' : LabelTable) : Prop :=
  Relation.ReflTransGen (fun t t' => ∃ row, LabelTable.insertRow t row = some t') t t'

/-- The label is in the table, behind the cursor of the query, and asked for. -/
def QueryArgs.Asks (args : QueryArgs) (t : LabelTable) (row : Int × LabelRow) : Prop :=
  row ∈ t.table.rows ∧ args.afterId < row.1 ∧ args.query.Matches row.2

/-- What following the cursor has given after some pages, where labels are inserted meanwhile. -/
structure PagesOf (args : QueryArgs) (tables : Nat → LabelTable) (turns : Nat)
    (given : List (Int × LabelRow) × Bool) : Prop where
  ascending : given.1.Pairwise fun a b => a.1 < b.1
  sound : ∀ row ∈ given.1, ∃ i < turns, args.Asks (tables i) row
  complete : given.2 = true → ∃ i < turns, ∀ row, row ∈ given.1 ↔ args.Asks (tables i) row

/-- What a query does. -/
structure QueriesLabels (prepares : List SqlPiece → Bool) (raw : Text) : Prop where
  collects : ∀ args, parseQuery raw = .ok args → args.uriPatterns = named uriPatternsKey raw ∧
    args.sources = named sourcesKey raw ∧ (args.sourcesPresent = true ↔ args.sources ≠ [])
  answered : ∀ args, parseQuery raw = .ok args → args.Admitted → ∀ t,
    ∃ answer, hQueryLabels prepares t raw = .ok answer
  pages : ∀ args, parseQuery raw = .ok args → args.Admitted → ∀ tables : Nat → LabelTable,
    (∀ i, Inserted (tables i) (tables (i + 1))) → ∀ turns,
      PagesOf args tables turns (run (askLabels prepares tables raw) turns 0 none)
  ends : ∀ args, parseQuery raw = .ok args → args.Admitted → ∀ t : LabelTable,
    ∃ turns, (run (askLabels prepares (fun _ => t) raw) turns 0 none).2 = true

/-- No name or value of the repeated parameters is cut by a NUL that it decodes to. -/
def DecodesNoNul (raw : Text) : Prop :=
  ∀ pair ∈ raw.splitOn ampersand, ∀ key ∈ [uriPatternsKey, sourcesKey],
    cString (decodeComponent (pairName pair)) = key →
      0 ∉ decodeComponent (pairName pair) ∧ 0 ∉ decodeComponent (pairValue pair)

/-! ## The parser -/

section Parser

variable {args args' : QueryArgs} {raw : Text} {pairs : List Text}

/-- The values that the loop collects under a name. -/
def collected (key : Text) (pairs : List Text) : List Text :=
  pairs.filterMap fun pair =>
    if cString (decodeComponent (pairName pair)) = key then
      some (cString (decodeComponent (pairValue pair)))
    else none

/-- What one pair adds to the arguments. -/
theorem readParam_eq_ok {key value : Text} (h : readParam args key value = .ok args') :
    args'.uriPatterns = args.uriPatterns ++ (if key = uriPatternsKey then [value] else []) ∧
      args'.sources = args.sources ++ (if key = sourcesKey then [value] else []) ∧
      (args'.sourcesPresent = true ↔ args.sourcesPresent = true ∨ key = sourcesKey) := by
  unfold readParam at h
  dsimp only at h
  have hkeys : sourcesKey ≠ uriPatternsKey ∧ limitKey ≠ uriPatternsKey ∧ limitKey ≠ sourcesKey ∧
      cursorKey ≠ uriPatternsKey ∧ cursorKey ≠ sourcesKey := by decide +kernel
  obtain ⟨hsp, hlp, hls, hcp, hcs⟩ := hkeys
  split_ifs at h with hpatterns hsources hlimit hbad hcursor hbad
  · obtain rfl := Except.ok.inj h
    simp [hpatterns, hsp.symm]
  · obtain rfl := Except.ok.inj h
    simp [hsources, hsp]
  · obtain rfl := Except.ok.inj h
    simp [hlimit, hlp, hls]
  · obtain rfl := Except.ok.inj h
    simp [hcursor, hcp, hcs]
  · obtain rfl := Except.ok.inj h
    simp [hpatterns, hsources]

theorem collected_cons (key pair : Text) (pairs : List Text) :
    collected key (pair :: pairs) =
      (if cString (decodeComponent (pairName pair)) = key then
        [cString (decodeComponent (pairValue pair))] else []) ++ collected key pairs := by
  rw [collected, List.filterMap_cons, collected]
  split_ifs <;> rfl

/-- What the loop leaves. -/
theorem foldlM_readPair (h : pairs.foldlM readPair args = .ok args') :
    args'.uriPatterns = args.uriPatterns ++ collected uriPatternsKey pairs ∧
      args'.sources = args.sources ++ collected sourcesKey pairs ∧
      (args'.sourcesPresent = true ↔
        args.sourcesPresent = true ∨ collected sourcesKey pairs ≠ []) := by
  induction pairs generalizing args with
  | nil =>
    obtain rfl := Except.ok.inj h
    simp [collected]
  | cons pair pairs ih =>
    rw [List.foldlM_cons] at h
    cases hpair : readPair args pair with
    | error message =>
      rw [hpair] at h
      cases h
    | ok next =>
      rw [hpair] at h
      obtain ⟨hp, hs, hpresent⟩ := ih h
      obtain ⟨hp', hs', hpresent'⟩ := readParam_eq_ok hpair
      rw [collected_cons, collected_cons, hp, hp', hs, hs', hpresent, hpresent']
      refine ⟨List.append_assoc _ _ _, List.append_assoc _ _ _, ?_⟩
      split_ifs with hkey <;> simp [hkey]

theorem parseQuery_eq_ok (h : parseQuery raw = .ok args) :
    args.uriPatterns = collected uriPatternsKey (raw.splitOn ampersand) ∧
      args.sources = collected sourcesKey (raw.splitOn ampersand) ∧
      (args.sourcesPresent = true ↔ args.sources ≠ []) := by
  obtain ⟨hpatterns, hsources, hpresent⟩ := foldlM_readPair h
  refine ⟨hpatterns, hsources, ?_⟩
  rw [hpresent, hsources]
  simp [QueryArgs.start]

section Selecting

variable {α β : Type*} {f g : α → Option β} {l : List α}

theorem length_filterMap_le (h : ∀ a ∈ l, g a = none → f a = none) :
    (l.filterMap f).length ≤ (l.filterMap g).length := by
  induction l with
  | nil => exact le_rfl
  | cons a l ih =>
    have htail := ih fun b hb => h b (List.mem_cons_of_mem a hb)
    rw [List.filterMap_cons, List.filterMap_cons]
    cases hg : g a with
    | none => rw [h a List.mem_cons_self hg]; exact htail
    | some v =>
      cases f a with
      | none => exact htail.trans (Nat.le_succ _)
      | some w => exact Nat.succ_le_succ htail

/-- Two ways to select from a list, of which one selects no less, agree only if they do on each
member. -/
theorem filterMap_eq_iff (h : ∀ a ∈ l, g a = none → f a = none) :
    l.filterMap g = l.filterMap f ↔ ∀ a ∈ l, g a = f a := by
  refine ⟨fun heq => ?_, fun heq => List.filterMap_congr heq⟩
  induction l with
  | nil => exact fun a ha => absurd ha List.not_mem_nil
  | cons a l ih =>
    have htail : ∀ b ∈ l, g b = none → f b = none := fun b hb => h b (List.mem_cons_of_mem a hb)
    rw [List.filterMap_cons, List.filterMap_cons] at heq
    cases hg : g a with
    | none =>
      have hf := h a List.mem_cons_self hg
      rw [hg, hf] at heq
      exact List.forall_mem_cons.mpr ⟨hg.trans hf.symm, ih htail heq⟩
    | some v =>
      cases hf : f a with
      | none =>
        -- The first list would be longer.
        rw [hg, hf] at heq
        have hlonger := congrArg List.length heq
        rw [List.length_cons] at hlonger
        have hshorter := length_filterMap_le htail
        dsimp only at hlonger
        omega
      | some w =>
        rw [hg, hf] at heq
        obtain ⟨rfl, hrest⟩ := List.cons.inj heq
        exact List.forall_mem_cons.mpr ⟨hg.trans hf.symm, ih htail hrest⟩

end Selecting

theorem cString_eq_self_iff {text : Text} : cString text = text ↔ 0 ∉ text := by
  refine ⟨fun h h0 => ?_, cString_eq_self⟩
  have := List.takeWhile_eq_self_iff.mp h 0 h0
  simp at this

/-- What is collected is what is named, if no NUL cuts it. -/
theorem collected_eq_named_iff {key : Text} (hkey : 0 ∉ key) :
    collected key (raw.splitOn ampersand) = named key raw ↔
      ∀ pair ∈ raw.splitOn ampersand, cString (decodeComponent (pairName pair)) = key →
        0 ∉ decodeComponent (pairName pair) ∧ 0 ∉ decodeComponent (pairValue pair) := by
  unfold collected named
  rw [filterMap_eq_iff]
  · refine forall₂_congr fun pair _ => ?_
    generalize decodeComponent (pairName pair) = name
    generalize decodeComponent (pairValue pair) = value
    by_cases hname : cString name = key
    · rw [if_pos hname]
      by_cases hnul : 0 ∈ name
      · have hne : name ≠ key := fun heq => hkey (heq ▸ hnul)
        rw [if_neg hne]
        exact iff_of_false nofun fun h => (h hname).1 hnul
      · have heq : name = key := (cString_eq_self hnul).symm.trans hname
        rw [if_pos heq, Option.some.injEq, cString_eq_self_iff]
        exact ⟨fun h _ => ⟨hnul, h⟩, fun h => (h hname).2⟩
    · have hne : name ≠ key := fun heq => hname (heq ▸ cString_eq_self (heq ▸ hkey))
      rw [if_neg hname, if_neg hne]
      exact iff_of_true rfl fun h => absurd h hname
  · intro pair _ hg
    split_ifs at hg ⊢ with hname hcut
    · have h0 : 0 ∉ decodeComponent (pairName pair) := by rw [hname]; exact hkey
      exact absurd ((cString_eq_self h0).trans hname) hcut
    · rfl

/-! ## Following a cursor -/

/-- The text of a cursor is made of digits. -/
theorem cursorText_digits {id : Int} (h : 0 ≤ id) :
    charsOf (cursorText id) = Nat.toDigits 10 id.toNat ∧
      ∀ b ∈ cursorText id, 48 ≤ b.toNat ∧ b.toNat ≤ 57 := by
  obtain ⟨n, rfl⟩ := Int.eq_ofNat_of_zero_le h
  have htext : cursorText n = (Nat.toDigits 10 n).map fun c => UInt8.ofNat c.toNat := by
    have hrepr : toString (n : Int) = Nat.repr n := rfl
    rw [cursorText, hrepr, Nat.repr_eq_ofList_toDigits, String.toList_ofList]
  have hdigit : ∀ c ∈ Nat.toDigits 10 n, 48 ≤ c.toNat ∧ c.toNat ≤ 57 := fun c hc => by
    simpa [Char.isDigit, UInt32.le_iff_toNat_le] using
      Nat.isDigit_of_mem_toDigits (by decide) (by decide) hc
  have hbyte : ∀ c ∈ Nat.toDigits 10 n, (UInt8.ofNat c.toNat).toNat = c.toNat := fun c hc => by
    have := hdigit c hc
    rw [UInt8.toNat_ofNat']
    omega
  rw [htext]
  constructor
  · rw [charsOf, List.map_map, Int.toNat_natCast]
    refine (List.map_congr_left fun c hc => ?_).trans (List.map_id _)
    rw [Function.comp_apply, hbyte c hc, Char.ofNat_toNat]
    rfl
  · intro b hb
    obtain ⟨c, hc, rfl⟩ := List.mem_map.mp hb
    rw [hbyte c hc]
    exact hdigit c hc

/-- A text without escapes and plus signs stands for itself. -/
theorem decodeComponent_plain {text : Text} (hpercent : percent ∉ text) (hplus : plus ∉ text) :
    decodeComponent text = text := by
  unfold decodeComponent
  induction text with
  | nil => rfl
  | cons ch rest ih =>
    rw [List.mem_cons, not_or] at hpercent hplus
    unfold decodeFrom
    rw [if_neg (Ne.symm hpercent.1), if_neg (Ne.symm hplus.1), ih hpercent.2 hplus.2]

/-- The cursor takes the place of one that was given before. -/
theorem parseQuery_followed {id : Int} (h0 : 0 < id) (hmax : id ≤ 2 ^ 63 - 1)
    (h : parseQuery raw = .ok args) :
    parseQuery (followed raw (some (cursorText id))) = .ok { args with afterId := id } := by
  obtain ⟨hchars, hdigits⟩ := cursorText_digits h0.le
  have hnot (b : UInt8) (hb : b.toNat < 48 ∨ 57 < b.toNat) : b ∉ cursorText id := fun hmem => by
    have := hdigits b hmem
    omega
  have hplain : decodeComponent (cursorText id) = cursorText id :=
    decodeComponent_plain (hnot _ (by decide)) (hnot _ (by decide))
  have hkey : ampersand ∉ cursorKey ∧ equalsSign ∉ cursorKey ∧
      cString (decodeComponent cursorKey) = cursorKey ∧ cursorKey ≠ uriPatternsKey ∧
      cursorKey ≠ sourcesKey ∧ cursorKey ≠ limitKey := by decide +kernel
  obtain ⟨hand, hequals, hname, hpatterns, hsources, hlimit⟩ := hkey
  have hnumber : CString.strtoll (charsOf (cursorText id)) = ⟨id, [], false⟩ := by
    have hdigit : ∀ c ∈ Nat.toDigits 10 id.toNat, c.isDigit = true := fun c hc =>
      Nat.isDigit_of_mem_toDigits (by decide) (by decide) hc
    have hvalue : Nat.ofDigitChars 10 (Nat.toDigits 10 id.toNat) 0 = id.toNat :=
      Nat.ofDigitChars_toDigits (by decide) (by decide)
    have hid : (id.toNat : Int) = id := Int.toNat_of_nonneg h0.le
    rw [hchars, CString.strtoll_digits Nat.toDigits_ne_nil hdigit (by rw [hvalue]; omega), hvalue,
      hid]
  have hnonempty : cursorText id ≠ [] := by
    intro hnil
    rw [hnil] at hchars
    exact Nat.toDigits_ne_nil hchars.symm
  have hand' : ampersand ∉ cursorKey ++ equalsSign :: cursorText id := by
    rw [List.mem_append, List.mem_cons, not_or, not_or]
    exact ⟨hand, by decide, hnot _ (by decide)⟩
  have hread : readPair args (cursorKey ++ equalsSign :: cursorText id) =
      .ok { args with afterId := id } := by
    have hpairName : pairName (cursorKey ++ equalsSign :: cursorText id) = cursorKey :=
      takeWhile_ne_of_append hequals _
    have hpairValue : pairValue (cursorKey ++ equalsSign :: cursorText id) = cursorText id := by
      rw [pairValue, List.dropWhile_append_of_pos, List.dropWhile_cons_of_neg (by simp)]
      · rfl
      · intro c hc
        simpa using fun heq : c = equalsSign => hequals (heq ▸ hc)
    rw [readPair, hpairName, hpairValue, hname, hplain, cString_eq_self (hnot 0 (by decide)),
      readParam, if_neg hpatterns, if_neg hsources, if_neg hlimit, if_pos rfl, hnumber]
    simp [hnonempty, h0.le]
  rw [parseQuery, followed, List.splitOn_append_cons_self, List.splitOn_eq_singleton hand',
    List.foldlM_append]
  rw [parseQuery] at h
  rw [h]
  change List.foldlM readPair args [cursorKey ++ equalsSign :: cursorText id] = _
  rw [List.foldlM_cons, hread]
  rfl

end Parser

/-! ## The pages -/

section Pages

variable {prepares : List SqlPiece → Bool} {raw : Text} {args : QueryArgs} {t : LabelTable}
  {tables : Nat → LabelTable}

/-- The labels behind the cursor of the query that are asked for. -/
def QueryArgs.asked (args : QueryArgs) (t : LabelTable) : List (Int × LabelRow) :=
  rowsAfter Prod.fst (args.query.matching t) (some args.afterId)

theorem QueryArgs.mem_asked {row : Int × LabelRow} : row ∈ args.asked t ↔ args.Asks t row := by
  rw [asked, mem_rowsAfter, LabelQuery.mem_matching, Asks]
  constructor
  · rintro ⟨⟨hrow, hmatches⟩, hafter⟩
    exact ⟨hrow, hafter _ rfl, hmatches⟩
  · rintro ⟨hrow, hafter, hmatches⟩
    exact ⟨⟨hrow, hmatches⟩, fun m hm => Option.some.inj hm ▸ hafter⟩

theorem QueryArgs.ordered_asked : Ordered Prod.fst (args.asked t) :=
  LabelQuery.ordered_matching.rowsAfter _

/-- Whatever is asked for behind a later cursor is among the labels that are asked for. -/
theorem QueryArgs.rowsAfter_asked {id : Int} (h : args.afterId ≤ id) :
    rowsAfter Prod.fst (args.query.matching t) (some id) =
      rowsAfter Prod.fst (args.asked t) (some id) := by
  rw [asked, rowsAfter, rowsAfter, rowsAfter, List.filter_filter]
  refine List.filter_congr fun row _ => ?_
  by_cases hid : id < row.1
  · simp [hid, h.trans_lt hid]
  · simp [hid]

/-- The number of labels of a page. -/
def QueryArgs.pageLimit (args : QueryArgs) : Nat := (clampLimit args.query.limit).toNat

theorem QueryArgs.pageLimit_pos (args : QueryArgs) : 0 < args.pageLimit := by
  have := clampLimit_mem args.query.limit
  rw [pageLimit]
  omega

theorem hQueryLabels_eq (h : parseQuery raw = .ok args) (hgood : args.Admitted) :
    hQueryLabels prepares t raw =
      match storeQuery prepares t args.query with
      | .error _ => .error ⟨500, "InternalServerError", "label query failed"⟩
      | .ok answer => .ok answer := by
  have hlength : args.uriPatterns.length ≠ 0 := fun h0 =>
    hgood.1 (List.length_eq_zero_iff.mp h0)
  rw [hQueryLabels, h]
  dsimp only
  rw [if_neg hlength, if_neg hgood.2]

/-- An admitted query is answered if the database prepares its statement. -/
theorem hQueryLabels_ok_iff (h : parseQuery raw = .ok args) (hgood : args.Admitted) :
    (∃ answer, hQueryLabels prepares t raw = .ok answer) ↔
      prepares (buildQuery args.query).sql = true := by
  rw [hQueryLabels_eq h hgood, storeQuery_eq]
  split_ifs with hprepares
  · exact iff_of_true ⟨_, rfl⟩ hprepares
  · exact iff_of_false nofun hprepares

/-- The statement does not depend on the cursor. -/
theorem sql_buildQuery (args : QueryArgs) (id : Int) :
    (buildQuery { args with afterId := id }.query).sql = (buildQuery args.query).sql := by
  rw [buildQuery_eq, buildQuery_eq]
  rfl

/-- The answer to a query whose statement is prepared. -/
theorem hQueryLabels_page (h : parseQuery raw = .ok args) (hgood : args.Admitted)
    (hprepares : prepares (buildQuery args.query).sql = true) :
    hQueryLabels prepares t raw =
      .ok ⟨(pageAfter Prod.fst args.pageLimit (args.query.matching t) (some args.afterId)).rows,
        (pageAfter Prod.fst args.pageLimit (args.query.matching t)
          (some args.afterId)).next.map cursorText⟩ := by
  rw [hQueryLabels_eq h hgood, storeQuery_eq, if_pos hprepares]
  rfl

/-- The cursors that are followed are keys of labels behind that of the query. -/
def ReachedMark (args : QueryArgs) (mark : Option Int) : Prop :=
  ∀ id, mark = some id → 0 < id ∧ id ≤ 2 ^ 63 - 1 ∧ args.afterId ≤ id

theorem pageAfter_asked {mark : Option Int} (hmark : ∀ id, mark = some id → args.afterId ≤ id) :
    pageAfter Prod.fst args.pageLimit (args.query.matching t) (some (mark.getD args.afterId)) =
      pageAfter Prod.fst args.pageLimit (args.asked t) mark := by
  have hrows : rowsAfter Prod.fst (args.query.matching t) (some (mark.getD args.afterId)) =
      rowsAfter Prod.fst (args.asked t) mark := by
    cases mark with
    | none => exact (List.filter_eq_self.mpr fun _ _ => rfl).symm
    | some id => exact args.rowsAfter_asked (hmark id rfl)
  rw [pageAfter, pageAfter, hrows]

/-- A page is answered to the text of a cursor as it is to the cursor. -/
theorem askLabels_eq (h : parseQuery raw = .ok args) (hgood : args.Admitted)
    (hprepares : prepares (buildQuery args.query).sql = true) (i : Nat) {mark : Option Int}
    (hmark : ReachedMark args mark) :
    askLabels prepares tables raw i (mark.map cursorText) =
      ⟨(pageAfter Prod.fst args.pageLimit (args.asked (tables i)) mark).rows,
        (pageAfter Prod.fst args.pageLimit (args.asked (tables i)) mark).next.map cursorText⟩ := by
  rw [← pageAfter_asked fun id hid => (hmark id hid).2.2]
  cases mark with
  | none =>
    rw [askLabels, Option.map_none, followed, hQueryLabels_page h hgood hprepares]
    rfl
  | some id =>
    obtain ⟨h0, hmax, -⟩ := hmark id rfl
    rw [askLabels, Option.map_some,
      hQueryLabels_page (parseQuery_followed h0 hmax h) hgood (by rw [sql_buildQuery, hprepares])]
    rfl

/-- The route gives the pages of the labels that are asked for. -/
theorem run_askLabels (h : parseQuery raw = .ok args) (hgood : args.Admitted)
    (hprepares : prepares (buildQuery args.query).sql = true) (turns : Nat) :
    run (askLabels prepares tables raw) turns 0 none =
      run (fun i => pageAfter Prod.fst args.pageLimit (args.asked (tables i))) turns 0 none := by
  have hnone : ReachedMark args none := fun id hid => by cases hid
  have hrun :
      run (fun i => pageAfter Prod.fst args.pageLimit (args.asked (tables i))) turns 0 none =
        run (askLabels prepares tables raw) turns 0 (Option.map cursorText none) := by
    refine run_congr cursorText (J := ReachedMark args) (fun i mark hmark => ?_) turns 0 hnone
    rw [askLabels_eq h hgood hprepares i hmark]
    refine ⟨rfl, rfl, fun m hm id hid => ?_⟩
    obtain rfl := Option.some.inj hid
    obtain ⟨row, hrow, rfl⟩ := pageAfter_next_mem hm
    obtain ⟨hmem, hafter, -⟩ := QueryArgs.mem_asked.mp hrow
    have hhigh := (tables i).table.le_highWater row hmem
    have hbounded := (tables i).bounded
    exact ⟨(tables i).positive row hmem, by omega, hafter.le⟩
  exact hrun.symm

/-- Inserted labels stand behind those that were there. -/
theorem exists_append_of_inserted {t' : LabelTable} (h : Inserted t t') :
    ∃ more, t'.table.rows = t.table.rows ++ more := by
  induction h with
  | refl => exact ⟨[], (List.append_nil _).symm⟩
  | tail _ hinsert ih =>
    obtain ⟨more, hmore⟩ := ih
    obtain ⟨row, hrow⟩ := hinsert
    unfold LabelTable.insertRow at hrow
    split_ifs at hrow
    obtain rfl := Option.some.inj hrow
    exact ⟨more ++ [_], by rw [AutoTable.rows_insertNext, hmore, List.append_assoc]⟩

/-- So do those that are asked for. -/
theorem asked_append {t' : LabelTable} (h : Inserted t t') :
    ∃ more, args.asked t' = args.asked t ++ more := by
  obtain ⟨more, hmore⟩ := exists_append_of_inserted h
  rw [QueryArgs.asked, LabelQuery.matching, hmore, rowsAfter, List.filter_append,
    List.filter_append]
  exact ⟨_, rfl⟩

theorem pagesOf_run (hinserted : ∀ i, Inserted (tables i) (tables (i + 1))) (turns : Nat) :
    PagesOf args tables turns
      (run (fun i => pageAfter Prod.fst args.pageLimit (args.asked (tables i))) turns 0 none) := by
  have hordered : ∀ i, Ordered Prod.fst (args.asked (tables i)) := fun i => args.ordered_asked
  refine ⟨(run_ordered hordered turns 0 none).1, fun row hrow => ?_, fun hend => ?_⟩
  · obtain ⟨i, -, hi, hmem⟩ := run_sound turns 0 none hrow
    exact ⟨i, by omega, QueryArgs.mem_asked.mp hmem⟩
  · obtain ⟨i, -, hi, hrows⟩ := run_of_appended args.pageLimit_pos hordered
      (fun i => asked_append (hinserted i)) turns 0 none hend
    refine ⟨i, by omega, fun row => ?_⟩
    rw [hrows, mem_rowsAfter, QueryArgs.mem_asked]
    exact and_iff_left nofun

end Pages

/-- A query string is read as it is meant, and its pages are complete, if and only if it is
rejected, or no NUL cuts a name or a value and the database prepares the statement. -/
theorem queriesLabels_iff (prepares : List SqlPiece → Bool) (raw : Text) :
    QueriesLabels prepares raw ↔ ∀ args, parseQuery raw = .ok args →
      DecodesNoNul raw ∧ (args.Admitted → prepares (buildQuery args.query).sql = true) := by
  have hkeys : (0 : UInt8) ∉ uriPatternsKey ∧ (0 : UInt8) ∉ sourcesKey := by decide +kernel
  constructor
  · intro h args hargs
    obtain ⟨hpatterns, hsources, -⟩ := h.collects args hargs
    obtain ⟨hpatterns', hsources', -⟩ := parseQuery_eq_ok hargs
    have hplain := (collected_eq_named_iff hkeys.1).mp (hpatterns'.symm.trans hpatterns)
    have hplain' := (collected_eq_named_iff hkeys.2).mp (hsources'.symm.trans hsources)
    refine ⟨fun pair hpair key hkey => ?_, fun hgood => ?_⟩
    · simp only [List.mem_cons, List.not_mem_nil, or_false] at hkey
      obtain rfl | rfl := hkey
      · exact hplain pair hpair
      · exact hplain' pair hpair
    · exact (hQueryLabels_ok_iff hargs hgood).mp (h.answered args hargs hgood .empty)
  · intro h
    refine ⟨fun args hargs => ?_, fun args hargs hgood t => ?_,
      fun args hargs hgood tables hinserted turns => ?_, fun args hargs hgood t => ?_⟩
    · obtain ⟨hpatterns, hsources, hpresent⟩ := parseQuery_eq_ok hargs
      obtain ⟨hnul, -⟩ := h args hargs
      refine ⟨hpatterns.trans ((collected_eq_named_iff hkeys.1).mpr fun pair hpair hname => ?_),
        hsources.trans ((collected_eq_named_iff hkeys.2).mpr fun pair hpair hname => ?_), hpresent⟩
      · exact hnul pair hpair _ List.mem_cons_self hname
      · exact hnul pair hpair _ (List.mem_cons_of_mem _ List.mem_cons_self) hname
    · exact (hQueryLabels_ok_iff hargs hgood).mpr ((h args hargs).2 hgood)
    · rw [run_askLabels hargs hgood ((h args hargs).2 hgood)]
      exact pagesOf_run hinserted turns
    · obtain ⟨turns, hturns⟩ :=
        run_pageAfter args.pageLimit_pos (args.ordered_asked (t := t)) 0 none
      refine ⟨turns, ?_⟩
      rw [run_askLabels hargs hgood ((h args hargs).2 hgood), hturns]

/-- A pattern that decodes to a NUL is cut there. -/
theorem nul_cuts_a_pattern :
    ¬ ∃ prepares, QueriesLabels prepares "uriPatterns=at://a%00b".toUTF8.toList := by
  rintro ⟨prepares, h⟩
  have hparse : parseQuery "uriPatterns=at://a%00b".toUTF8.toList =
      .ok { QueryArgs.start with uriPatterns := ["at://a".toUTF8.toList] } := by decide +kernel
  have hnamed : named uriPatternsKey "uriPatterns=at://a%00b".toUTF8.toList =
      ["at://a".toUTF8.toList ++ [0, 98]] := by decide +kernel
  have hpatterns := (h.collects _ hparse).1
  rw [hnamed] at hpatterns
  revert hpatterns
  decide +kernel

end MetalBear.Labels
