import MetalBear.Library.AutoTable
import MetalBear.Library.ByteText
import MetalBear.Library.Paging
import MetalBear.Wolfram.Status

/-!
# The label store

The table of labels, and the SELECT over it. The text of the statement and the values to bind are
put together side by side; the database numbers the placeholders in the order of the text.
-/

namespace MetalBear.Labels

open ByteText Paging

abbrev Text := List UInt8

/-- Texts are compared byte by byte. -/
scoped instance instLawfulBEqText : LawfulBEq (List UInt8) := List.instLawfulBEq

/-! ## The table -/

structure LabelRow where
  src : Text
  uri : Text
  val : Text
  neg : Bool
  cts : Text
  deriving DecidableEq

/-- The `labels` table. Its keys are positive and have 64 bits. -/
structure LabelTable where
  table : AutoTable LabelRow
  positive : ∀ row ∈ table.rows, 0 < row.1
  sorted : table.rows.Pairwise fun a b => a.1 < b.1
  bounded : table.highWater ≤ 2 ^ 63 - 1

namespace LabelTable

/-- The table of a new store. -/
def empty : LabelTable := ⟨.empty, nofun, List.Pairwise.nil, by decide⟩

theorem positive_insertNext (t : LabelTable) (row : LabelRow) :
    ∀ r ∈ (t.table.insertNext row).rows, 0 < r.1 := by
  intro r hr
  rcases List.mem_append.mp hr with hr | hr
  · exact t.positive r hr
  · have := t.table.nonneg
    simp only [List.mem_singleton] at hr
    rw [hr]
    omega

theorem sorted_insertNext (t : LabelTable) (row : LabelRow) :
    (t.table.insertNext row).rows.Pairwise fun a b => a.1 < b.1 := by
  refine List.pairwise_append.mpr ⟨t.sorted, List.pairwise_singleton _ _, fun a ha b hb => ?_⟩
  have := t.table.le_highWater a ha
  rw [List.mem_singleton.mp hb]
  omega

theorem bounded_insertNext {t : LabelTable} (h : t.table.highWater < 2 ^ 63 - 1)
    (row : LabelRow) : (t.table.insertNext row).highWater ≤ 2 ^ 63 - 1 := by
  change t.table.highWater + 1 ≤ _
  omega

/-- The INSERT; there is no key behind the largest. -/
def insertRow (t : LabelTable) (row : LabelRow) : Option LabelTable :=
  if h : t.table.highWater < 2 ^ 63 - 1 then some
    { table := t.table.insertNext row
      positive := t.positive_insertNext row
      sorted := t.sorted_insertNext row
      bounded := bounded_insertNext h row }
  else none

/-- `metalbear_label_store_insert`; `now` is the time where none is given. -/
def insert (t : LabelTable) (src uri val : Text) (neg : Bool) (cts : Option Text) (now : Text) :
    Except WfError LabelTable :=
  if src = [] ∨ uri = [] ∨ val = [] then .error .invalidArg
  else
    match t.insertRow ⟨src, uri, val, neg, (cts.filter (· ≠ [])).getD now⟩ with
    | some t' => .ok t'
    | none => .error .internal

end LabelTable

/-! ## The statement -/

/-- The texts that the statement is put together from. -/
inductive SqlPiece where
  /-- `SELECT id, src, uri, val, neg, cts FROM labels WHERE id > ?` -/
  | select
  /-- ` AND 0` -/
  | andZero
  /-- ` AND (` -/
  | andOpen
  /-- ` OR ` -/
  | or
  /-- `instr(uri, ?) = 1` -/
  | instr
  /-- `uri = ?` -/
  | eq
  /-- `)` -/
  | close
  /-- ` AND src IN (` -/
  | srcIn
  /-- `,` -/
  | comma
  /-- `?` -/
  | param
  /-- ` ORDER BY id ASC LIMIT ?;` -/
  | orderLimit
  deriving DecidableEq

/-- `bind_item`. -/
inductive BindItem where
  | num (n : Int)
  | text (t : Text)
  deriving DecidableEq

/-- `sql_buf` and `binds`. -/
structure QueryText where
  sql : List SqlPiece
  binds : List BindItem
  deriving DecidableEq

namespace QueryText

/-- `sql_append`. -/
def append (q : QueryText) (piece : SqlPiece) : QueryText := { q with sql := q.sql ++ [piece] }

def bind (q : QueryText) (item : BindItem) : QueryText := { q with binds := q.binds ++ [item] }

end QueryText

/-- `metalbear_label_query`. -/
structure LabelQuery where
  uriPatterns : List Text
  sources : List Text
  sourcesPresent : Bool
  afterId : Int
  limit : Int

/-- The byte of `*`. -/
def star : UInt8 := 42

/-- The body of the loop over the patterns. -/
def addPattern (q : QueryText) (i : Nat) (pattern : Text) : QueryText :=
  let q := if i ≠ 0 then q.append .or else q
  if pattern.getLast? = some star then (q.append .instr).bind (.text pattern.dropLast)
  else (q.append .eq).bind (.text pattern)

/-- The body of the loop over the sources. -/
def addSource (q : QueryText) (i : Nat) (source : Text) : QueryText :=
  ((if i ≠ 0 then q.append .comma else q).append .param).bind (.text source)

/-- A loop over a list with an index. -/
def addAll (add : QueryText → Nat → Text → QueryText) : Nat → List Text → QueryText → QueryText
  | _, [], q => q
  | i, text :: rest, q => addAll add (i + 1) rest (add q i text)

/-- The limit of a page. -/
def clampLimit (limit : Int) : Int :=
  let limit := if limit ≤ 0 then 50 else limit
  if limit > 250 then 250 else limit

/-- The statement of `metalbear_label_store_query`, where memory is had. -/
def buildQuery (query : LabelQuery) : QueryText :=
  let q := (QueryText.mk [] []).append .select |>.bind (.num query.afterId)
  let q :=
    if query.uriPatterns.length = 0 then q.append .andZero
    else (addAll addPattern 0 query.uriPatterns (q.append .andOpen)).append .close
  let q :=
    if query.sourcesPresent then
      if query.sources.length = 0 then q.append .andZero
      else (addAll addSource 0 query.sources (q.append .srcIn)).append .close
    else q
  (q.append .orderLimit).bind (.num (clampLimit query.limit + 1))

/-! ## What the database makes of it -/

/-- A byte that continues a character. -/
def isContinuation (b : UInt8) : Bool := 0x80 ≤ b && b < 0xc0

/-- The number of the character, from `n` on, at which the needle is found. -/
def instrFrom (needle : Text) : Nat → Text → Nat
  | _, [] => 0
  | n, b :: rest =>
    if isContinuation b then instrFrom needle n rest
    else if needle <+: b :: rest then n
    else instrFrom needle (n + 1) rest

/-- `instr`. -/
def instr (haystack needle : Text) : Nat :=
  if needle <+: haystack then 1 else instrFrom needle 2 haystack.tail

/-- A term of the disjunction, with its value bound. -/
inductive UriTest where
  | startsWith (text : Text)
  | equals (text : Text)
  deriving DecidableEq

def UriTest.holds (uri : Text) : UriTest → Bool
  | startsWith text => instr uri text = 1
  | equals text => uri = text

/-- The SELECT with its values bound. A conjunct that is `0` is a disjunction of no terms. -/
structure LabelSelect where
  after : Int
  tests : List UriTest
  sources : Option (List Text)
  limit : Int
  deriving DecidableEq

/-- The terms of a disjunction, up to the parenthesis that closes it. -/
def readTerms :
    List SqlPiece → List BindItem → Option (List UriTest × List SqlPiece × List BindItem)
  | .instr :: .or :: sql, .text t :: binds =>
    (readTerms sql binds).map fun r => (.startsWith t :: r.1, r.2)
  | .eq :: .or :: sql, .text t :: binds =>
    (readTerms sql binds).map fun r => (.equals t :: r.1, r.2)
  | .instr :: .close :: sql, .text t :: binds => some ([.startsWith t], sql, binds)
  | .eq :: .close :: sql, .text t :: binds => some ([.equals t], sql, binds)
  | _, _ => none

/-- The members of a set, up to the parenthesis that closes it. -/
def readMembers :
    List SqlPiece → List BindItem → Option (List Text × List SqlPiece × List BindItem)
  | .param :: .comma :: sql, .text t :: binds =>
    (readMembers sql binds).map fun r => (t :: r.1, r.2)
  | .param :: .close :: sql, .text t :: binds => some ([t], sql, binds)
  | _, _ => none

/-- The conjunct on the URI. -/
def readUris :
    List SqlPiece → List BindItem → Option (List UriTest × List SqlPiece × List BindItem)
  | .andZero :: sql, binds => some ([], sql, binds)
  | .andOpen :: sql, binds => readTerms sql binds
  | _, _ => none

/-- The conjunct on the source, if there is one. -/
def readSources :
    List SqlPiece → List BindItem → Option (Option (List Text) × List SqlPiece × List BindItem)
  | .andZero :: sql, binds => some (some [], sql, binds)
  | .srcIn :: sql, binds => (readMembers sql binds).map fun r => (some r.1, r.2)
  | sql, binds => some (none, sql, binds)

/-- The statement, with the values bound to its placeholders from left to right. -/
def bindStatement (q : QueryText) : Option LabelSelect :=
  match q.sql, q.binds with
  | .select :: sql, .num after :: binds => do
    let (tests, sql, binds) ← readUris sql binds
    let (sources, sql, binds) ← readSources sql binds
    match sql, binds with
    | [.orderLimit], [.num limit] => some ⟨after, tests, sources, limit⟩
    | _, _ => none
  | _, _ => none

/-- The row is selected. -/
def LabelSelect.selects (s : LabelSelect) (row : Int × LabelRow) : Bool :=
  s.after < row.1 && s.tests.any (UriTest.holds row.2.uri) &&
    s.sources.all fun sources => row.2.src ∈ sources

/-- The rows of the statement, in their order. -/
def LabelSelect.rows (s : LabelSelect) (t : LabelTable) : List (Int × LabelRow) :=
  ((t.table.rows.filter s.selects).mergeSort fun a b => decide (a.1 ≤ b.1)).take s.limit.toNat

/-! ## The query -/

/-- The variables of the loop over the rows. -/
structure QueryState where
  labels : List (Int × LabelRow)
  hasMore : Bool
  lastId : Int

/-- The loop over the rows. -/
def readRows (limit : Nat) : List (Int × LabelRow) → QueryState → QueryState
  | [], s => s
  | row :: rest, s =>
    if s.labels.length ≥ limit then { s with hasMore := true }
    else readRows limit rest { s with labels := s.labels ++ [row], lastId := row.1 }

/-- The text of a cursor. -/
def cursorText (id : Int) : Text := (toString id).toList.map fun c => UInt8.ofNat c.toNat

/-- `metalbear_label_store_query`: the labels of the page, and its cursor. The database may refuse
to prepare a statement. -/
def storeQuery (prepares : List SqlPiece → Bool) (t : LabelTable) (query : LabelQuery) :
    Except WfError (Answer (Int × LabelRow) Text) :=
  let limit := clampLimit query.limit
  let q := buildQuery query
  if prepares q.sql then
    match bindStatement q with
    | none => .error .internal
    | some select =>
      let s := readRows limit.toNat (select.rows t) ⟨[], false, 0⟩
      .ok ⟨s.labels, if s.hasMore then some (cursorText s.lastId) else none⟩
  else .error .internal

/-! ## Placeholders and values -/

/-- An exact URI matches itself, and a pattern that ends in a star what begins like it. -/
def patternMatches (pattern uri : Text) : Prop :=
  if pattern.getLast? = some star then pattern.dropLast <+: uri else uri = pattern

instance (pattern uri : Text) : Decidable (patternMatches pattern uri) := by
  unfold patternMatches
  infer_instance

/-- The label is asked for. -/
def LabelQuery.Matches (query : LabelQuery) (row : LabelRow) : Prop :=
  (∃ pattern ∈ query.uriPatterns, patternMatches pattern row.uri) ∧
    (query.sourcesPresent = true → row.src ∈ query.sources)

instance (query : LabelQuery) (row : LabelRow) : Decidable (query.Matches row) := by
  unfold LabelQuery.Matches
  infer_instance

/-- The term of a pattern. -/
def testOf (pattern : Text) : UriTest :=
  if pattern.getLast? = some star then .startsWith pattern.dropLast else .equals pattern

def pieceOf (pattern : Text) : SqlPiece :=
  if pattern.getLast? = some star then .instr else .eq

def boundText (pattern : Text) : Text :=
  if pattern.getLast? = some star then pattern.dropLast else pattern

theorem instrFrom_cases (needle : Text) (n : Nat) (haystack : Text) :
    instrFrom needle n haystack = 0 ∨ n ≤ instrFrom needle n haystack := by
  induction haystack generalizing n with
  | nil => exact Or.inl rfl
  | cons b rest ih =>
    rw [instrFrom]
    split_ifs
    · exact ih n
    · exact Or.inr le_rfl
    · exact (ih (n + 1)).imp_right fun h => by omega

/-- Only a prefix is found at the first character. -/
theorem instr_eq_one {haystack needle : Text} : instr haystack needle = 1 ↔ needle <+: haystack := by
  unfold instr
  split_ifs with h
  · exact iff_of_true rfl h
  · have hcases := instrFrom_cases needle 2 haystack.tail
    exact iff_of_false (by omega) h

theorem holds_testOf {pattern uri : Text} :
    (testOf pattern).holds uri = true ↔ patternMatches pattern uri := by
  unfold testOf patternMatches
  split_ifs
  · rw [UriTest.holds, decide_eq_true_eq, instr_eq_one]
  · rw [UriTest.holds, decide_eq_true_eq]

section Loops

variable {add : QueryText → Nat → Text → QueryText} {sep : SqlPiece} {piece : Text → SqlPiece}
  {value : Text → Text}

/-- Behind the first text, each is appended behind a separator. -/
theorem addAll_succ (hadd : ∀ q i text, add q i text =
      ((if i ≠ 0 then q.append sep else q).append (piece text)).bind (.text (value text)))
    (i : Nat) (texts : List Text) (q : QueryText) :
    addAll add (i + 1) texts q =
      ⟨q.sql ++ texts.flatMap fun text => [sep, piece text],
        q.binds ++ texts.map fun text => .text (value text)⟩ := by
  induction texts generalizing i q with
  | nil => simp [addAll]
  | cons text texts ih =>
    rw [addAll, ih, hadd, if_pos i.succ_ne_zero]
    simp [QueryText.append, QueryText.bind]

/-- A loop appends as many placeholders as it binds values, in one order. -/
theorem addAll_cons (hadd : ∀ q i text, add q i text =
      ((if i ≠ 0 then q.append sep else q).append (piece text)).bind (.text (value text)))
    (text : Text) (texts : List Text) (q : QueryText) :
    addAll add 0 (text :: texts) q =
      ⟨q.sql ++ piece text :: texts.flatMap fun text => [sep, piece text],
        q.binds ++ (text :: texts).map fun text => .text (value text)⟩ := by
  rw [addAll, addAll_succ hadd, hadd, if_neg (not_not.mpr rfl)]
  simp [QueryText.append, QueryText.bind]

end Loops

theorem addPattern_eq (q : QueryText) (i : Nat) (pattern : Text) :
    addPattern q i pattern = ((if i ≠ 0 then q.append .or else q).append (pieceOf pattern)).bind
      (.text (boundText pattern)) := by
  unfold addPattern pieceOf boundText
  split_ifs <;> rfl

/-- The terms are read back as they were appended, each with its own value. -/
theorem readTerms_patterns (pattern : Text) (patterns : List Text) (sql : List SqlPiece)
    (binds : List BindItem) :
    readTerms (pieceOf pattern :: (patterns.flatMap fun p => [.or, pieceOf p]) ++ .close :: sql)
        ((pattern :: patterns).map (fun p => .text (boundText p)) ++ binds) =
      some ((pattern :: patterns).map testOf, sql, binds) := by
  induction patterns generalizing pattern with
  | nil =>
    simp only [pieceOf, boundText, testOf, List.flatMap_nil, List.map_cons, List.map_nil]
    split_ifs <;> rfl
  | cons next patterns ih =>
    have hnext := ih next
    rw [List.map_cons] at hnext
    simp only [List.map_cons, List.flatMap_cons, List.cons_append, List.nil_append] at hnext ⊢
    by_cases hstar : pattern.getLast? = some star
    · have hpiece : pieceOf pattern = .instr := if_pos hstar
      have htest : testOf pattern = .startsWith (boundText pattern) := by
        rw [testOf, boundText, if_pos hstar, if_pos hstar]
      rw [hpiece, htest, readTerms, hnext]
      rfl
    · have hpiece : pieceOf pattern = .eq := if_neg hstar
      have htest : testOf pattern = .equals (boundText pattern) := by
        rw [testOf, boundText, if_neg hstar, if_neg hstar]
      rw [hpiece, htest, readTerms, hnext]
      rfl

theorem readMembers_sources (source : Text) (sources : List Text) (sql : List SqlPiece)
    (binds : List BindItem) :
    readMembers (.param :: (sources.flatMap fun _ => [.comma, .param]) ++ .close :: sql)
        ((source :: sources).map (fun s => .text s) ++ binds) =
      some (source :: sources, sql, binds) := by
  induction sources generalizing source with
  | nil => rfl
  | cons next sources ih =>
    have hnext := ih next
    simp only [List.map_cons, List.flatMap_cons, List.cons_append, List.nil_append] at hnext ⊢
    rw [readMembers, hnext]
    rfl

/-- The texts and the values of the conjunct on the URI. -/
def urisText : List Text → QueryText
  | [] => ⟨[.andZero], []⟩
  | pattern :: patterns =>
    ⟨.andOpen :: pieceOf pattern :: (patterns.flatMap fun p => [.or, pieceOf p]) ++ [.close],
      (pattern :: patterns).map fun p => .text (boundText p)⟩

/-- The texts and the values of the conjunct on the source. -/
def sourcesText (present : Bool) (sources : List Text) : QueryText :=
  if present then
    match sources with
    | [] => ⟨[.andZero], []⟩
    | source :: sources =>
      ⟨.srcIn :: .param :: (sources.flatMap fun _ => [.comma, .param]) ++ [.close],
        (source :: sources).map fun s => .text s⟩
  else ⟨[], []⟩

theorem buildQuery_eq (query : LabelQuery) :
    buildQuery query =
      ⟨.select :: ((urisText query.uriPatterns).sql ++
          ((sourcesText query.sourcesPresent query.sources).sql ++ [.orderLimit])),
        .num query.afterId :: ((urisText query.uriPatterns).binds ++
          ((sourcesText query.sourcesPresent query.sources).binds ++
            [.num (clampLimit query.limit + 1)]))⟩ := by
  obtain ⟨patterns, sources, present, after, limit⟩ := query
  have hsource (q : QueryText) (i : Nat) (source : Text) : addSource q i source =
      ((if i ≠ 0 then q.append .comma else q).append .param).bind (.text source) := rfl
  rw [buildQuery]
  cases patterns <;> cases present <;> cases sources <;>
    simp [addAll_cons addPattern_eq, addAll_cons hsource, QueryText.append, QueryText.bind,
      urisText, sourcesText]

theorem readUris_eq (patterns : List Text) (sql : List SqlPiece) (binds : List BindItem) :
    readUris ((urisText patterns).sql ++ sql) ((urisText patterns).binds ++ binds) =
      some (patterns.map testOf, sql, binds) := by
  cases patterns with
  | nil => rfl
  | cons pattern patterns =>
    have hterms := readTerms_patterns pattern patterns sql binds
    simpa [urisText, readUris] using hterms

theorem readSources_eq (present : Bool) (sources : List Text) (sql : List SqlPiece)
    (binds : List BindItem) :
    readSources ((sourcesText present sources).sql ++ .orderLimit :: sql)
        ((sourcesText present sources).binds ++ binds) =
      some (if present then some sources else none, .orderLimit :: sql, binds) := by
  cases present with
  | false => rfl
  | true =>
    cases sources with
    | nil => rfl
    | cons source sources =>
      have hmembers := readMembers_sources source sources (.orderLimit :: sql) binds
      simp only [List.map_cons, List.cons_append] at hmembers
      simp [sourcesText, readSources, hmembers]

/-- The statement asks for what the query says, for every number of patterns and sources. -/
theorem bindStatement_buildQuery (query : LabelQuery) :
    bindStatement (buildQuery query) =
      some ⟨query.afterId, query.uriPatterns.map testOf,
        if query.sourcesPresent then some query.sources else none, clampLimit query.limit + 1⟩ := by
  rw [buildQuery_eq, bindStatement]
  dsimp only
  rw [readUris_eq]
  simp only [Option.bind_eq_bind, Option.bind_some]
  rw [readSources_eq]
  rfl

/-- There is room for the values. -/
theorem length_binds_le (query : LabelQuery) :
    (buildQuery query).binds.length ≤ 2 + query.uriPatterns.length + query.sources.length + 1 := by
  rw [buildQuery_eq]
  cases query.uriPatterns <;> cases query.sourcesPresent <;> cases query.sources <;>
    simp [urisText, sourcesText] <;> omega

/-! ## A page -/

/-- The labels that are asked for. -/
def LabelQuery.matching (query : LabelQuery) (t : LabelTable) : List (Int × LabelRow) :=
  t.table.rows.filter fun row => query.Matches row.2

variable {query : LabelQuery} {t : LabelTable}

theorem LabelQuery.ordered_matching : Ordered Prod.fst (query.matching t) :=
  t.sorted.filter _

theorem LabelQuery.mem_matching {row : Int × LabelRow} :
    row ∈ query.matching t ↔ row ∈ t.table.rows ∧ query.Matches row.2 := by
  rw [matching, List.mem_filter, decide_eq_true_eq]

/-- What the loop over the rows leaves. -/
theorem readRows_eq (limit : Nat) (rows : List (Int × LabelRow)) (s : QueryState)
    (hroom : s.labels.length ≤ limit) :
    readRows limit rows s =
      { labels := s.labels ++ rows.take (limit - s.labels.length)
        hasMore := s.hasMore || decide (limit < s.labels.length + rows.length)
        lastId := ((rows.take (limit - s.labels.length)).getLast?.map Prod.fst).getD s.lastId } := by
  induction rows generalizing s with
  | nil =>
    have hshort : decide (limit < s.labels.length) = false := decide_eq_false (by omega)
    simp [readRows, hshort]
  | cons row rest ih =>
    rw [readRows]
    split_ifs with hfull
    · have hzero : limit - s.labels.length = 0 := by omega
      have hmore : limit < s.labels.length + (row :: rest).length := by
        rw [List.length_cons]
        omega
      rw [hzero, decide_eq_true hmore]
      simp
    · obtain ⟨room, hr⟩ := Nat.exists_eq_add_of_lt (Nat.not_le.mp hfull)
      have hlength : (s.labels ++ [row]).length = s.labels.length + 1 := by simp
      rw [ih _ (by dsimp only; omega)]
      dsimp only
      have htake : limit - s.labels.length = room + 1 := by omega
      have htake' : limit - (s.labels ++ [row]).length = room := by omega
      rw [htake, htake', List.take_succ_cons, hlength, List.length_cons, List.append_assoc,
        List.singleton_append, Nat.add_assoc, Nat.add_comm 1]
      congr 1
      cases hrest : rest.take room with
      | nil => rfl
      | cons next others =>
        rw [List.getLast?_cons_cons, List.getLast?_eq_some_getLast (List.cons_ne_nil next others)]
        rfl

/-- The rows of the statement are those of the page, and one more to look ahead. -/
theorem rows_bindStatement (query : LabelQuery) (t : LabelTable) (limit : Int) :
    (LabelSelect.mk query.afterId (query.uriPatterns.map testOf)
      (if query.sourcesPresent then some query.sources else none) limit).rows t =
      (rowsAfter Prod.fst (query.matching t) (some query.afterId)).take limit.toNat := by
  have hselects (row : Int × LabelRow) : (LabelSelect.mk query.afterId
      (query.uriPatterns.map testOf) (if query.sourcesPresent then some query.sources else none)
      limit).selects row = (decide (query.afterId < row.1) && decide (query.Matches row.2)) := by
    have htests : (query.uriPatterns.map testOf).any (UriTest.holds row.2.uri) =
        decide (∃ pattern ∈ query.uriPatterns, patternMatches pattern row.2.uri) := by
      rw [Bool.eq_iff_iff, List.any_map, List.any_eq_true, decide_eq_true_eq]
      exact exists_congr fun pattern => and_congr_right fun _ => holds_testOf
    have hsources : ((if query.sourcesPresent then some query.sources else none).all fun sources =>
        decide (row.2.src ∈ sources)) =
          decide (query.sourcesPresent = true → row.2.src ∈ query.sources) := by
      cases query.sourcesPresent <;> simp
    rw [LabelSelect.selects, htests, hsources, Bool.and_assoc, ← Bool.decide_and]
    rfl
  have hrows : t.table.rows.filter (LabelSelect.mk query.afterId (query.uriPatterns.map testOf)
      (if query.sourcesPresent then some query.sources else none) limit).selects =
      rowsAfter Prod.fst (query.matching t) (some query.afterId) := by
    rw [rowsAfter, LabelQuery.matching, List.filter_filter]
    exact List.filter_congr fun row _ => hselects row
  rw [LabelSelect.rows, hrows, List.mergeSort_of_pairwise]
  exact (LabelQuery.ordered_matching.rowsAfter _).imp fun h => decide_eq_true h.le

theorem clampLimit_mem (limit : Int) : 1 ≤ clampLimit limit ∧ clampLimit limit ≤ 250 := by
  unfold clampLimit
  dsimp only
  split_ifs <;> omega

/-- What a query answers: a page of the labels after the cursor that are asked for. -/
theorem storeQuery_eq (prepares : List SqlPiece → Bool) (t : LabelTable) (query : LabelQuery) :
    storeQuery prepares t query =
      if prepares (buildQuery query).sql then
        .ok ⟨(pageAfter Prod.fst (clampLimit query.limit).toNat (query.matching t)
            (some query.afterId)).rows,
          (pageAfter Prod.fst (clampLimit query.limit).toNat (query.matching t)
            (some query.afterId)).next.map cursorText⟩
      else .error .internal := by
  have hlimit := clampLimit_mem query.limit
  have hmore : (clampLimit query.limit + 1).toNat = (clampLimit query.limit).toNat + 1 := by omega
  rw [storeQuery, bindStatement_buildQuery]
  dsimp only
  rw [rows_bindStatement, readRows_eq _ _ _ (Nat.zero_le _), hmore, pageAfter]
  have hpos : 0 < (clampLimit query.limit).toNat := by omega
  generalize rowsAfter Prod.fst (query.matching t) (some query.afterId) = rows
  generalize (clampLimit query.limit).toNat = limit at hpos
  have htake : (rows.take (limit + 1)).take limit = rows.take limit := by
    rw [List.take_take, Nat.min_eq_left (Nat.le_succ limit)]
  have hlength : decide (limit < 0 + (rows.take (limit + 1)).length) =
      decide (limit < rows.length) := by
    rw [decide_eq_decide, List.length_take]
    omega
  simp only [List.length_nil, Nat.sub_zero, List.nil_append, htake, hlength, Bool.false_or,
    decide_eq_true_eq]
  split_ifs with hprepared hlong
  · have hne : rows.take limit ≠ [] := by
      rw [ne_eq, List.take_eq_nil_iff]
      rintro (h | rfl)
      · omega
      · cases hlong
    rw [List.getLast?_eq_some_getLast hne]
    rfl
  · rfl
  · rfl

end MetalBear.Labels
