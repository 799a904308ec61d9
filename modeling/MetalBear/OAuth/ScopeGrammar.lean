import MetalBear.OAuth.Scope

/-!
# The grammar of scopes

The forms of a scope as they are documented: a resource, a colon, an optional positional part
and optional named parameters, each with the names and values that the resource knows. The
parser is compared with them on every string.
-/

namespace MetalBear.OAuth

/-! ## The documented forms -/

/-- The resources of dynamic scopes, of which `include` is read otherwise. -/
inductive Resource where
  | repo
  | blob
  | identity
  | account
  | rpc
  | include
  deriving DecidableEq, Repr

def Resource.name : Resource → String
  | .repo => "repo"
  | .blob => "blob"
  | .identity => "identity"
  | .account => "account"
  | .rpc => "rpc"
  | .include => "include"

/-- A percent sign stands in front of two hexadecimal digits. -/
def escapesValid : List Char → Bool
  | [] => true
  | '%' :: a :: b :: rest => isHexDigit a && isHexDigit b && escapesValid rest
  | '%' :: _ => false
  | _ :: rest => escapesValid rest
where
  isHexDigit (c : Char) : Bool := c.isDigit || ('a' ≤ c && c ≤ 'f') || ('A' ≤ c && c ≤ 'F')

/-- `name=value`. -/
def renderParam (param : String × String) : List Char := param.1.toList ++ '=' :: param.2.toList

/-- The named parameters behind their question mark, where there are any. -/
def renderQuery (params : List (String × String)) : List Char :=
  if params = [] then [] else '?' :: List.intercalate ['&'] (params.map renderParam)

/-- The values of a name, in their order. -/
def valuesOf (params : List (String × String)) (name : String) : List String :=
  (params.filter (·.1 == name)).map Prod.snd

/-- A repeatable parameter is given once by its position, or by its name. -/
def Given (positional : String) (named values : List String) : Prop :=
  (positional ≠ "" ∧ named = [] ∧ values = [positional]) ∨ (positional = "" ∧ values = named)

/-- `type/subtype`, `type/*` or `*/*`: one slash, no blank, and no wildcard inside of a part. -/
def AcceptPattern (str : String) : Prop :=
  ∃ type subtype : List Char, str.toList = type ++ '/' :: subtype ∧ type ≠ [] ∧ subtype ≠ [] ∧
    '/' ∉ type ∧ '/' ∉ subtype ∧ ' ' ∉ str.toList ∧
      ('*' ∉ type ∧ '*' ∉ subtype ∨ '*' ∉ type ∧ subtype = ['*'] ∨
        type = ['*'] ∧ subtype = ['*'])

/-- The permission that a positional part and named parameters are of a resource, where
`accepts` are the types a blob scope may name. -/
def Means (syn : Syntax) (accepts : String → Prop) (positional : String)
    (params : List (String × String)) : Resource → ScopePermission → Prop
  | .repo, perm =>
    (positional = "*" ∨ syn.nsidIsValid positional = true) ∧
      (∀ p ∈ params, p.1 = "action" ∧ p.2 ∈ ["create", "update", "delete"]) ∧
      perm = .repo positional (if params = [] then RepoActions.all else
        ⟨"create" ∈ valuesOf params "action", "update" ∈ valuesOf params "action",
          "delete" ∈ valuesOf params "action"⟩)
  | .blob, perm =>
    ∃ accept, (∀ p ∈ params, p.1 = "accept") ∧ Given positional (valuesOf params "accept") accept ∧
      accept ≠ [] ∧ (∀ a ∈ accept, accepts a) ∧ perm = .blob accept
  | .identity, perm =>
    params = [] ∧ (positional = "handle" ∨ positional = "*") ∧ perm = .identity positional
  | .account, perm =>
    positional ∈ ["email", "repo", "status"] ∧
      (∀ p ∈ params, p.1 = "action" ∧ p.2 ∈ ["read", "manage"]) ∧
      perm = .account positional (if params = [] then ⟨true, false⟩ else
        ⟨"read" ∈ valuesOf params "action", "manage" ∈ valuesOf params "action"⟩)
  | .rpc, perm =>
    ∃ lxm aud, (∀ p ∈ params, p.1 = "lxm" ∨ p.1 = "aud") ∧
      Given positional (valuesOf params "lxm") lxm ∧ lxm ≠ [] ∧
      (∀ l ∈ lxm, l = "*" ∨ syn.nsidIsValid l = true) ∧ valuesOf params "aud" = [aud] ∧
      isValidAud syn aud = true ∧ ¬ ("*" ∈ lxm ∧ aud = "*") ∧
      perm = .rpc lxm (lxm.contains "*") aud
  | .include, _ => False

/-- The text is of a documented form, and this is what is written in it. -/
inductive Documented (syn : Syntax) (str : String) : ScopePermission → Prop where
  | static (listed : str ∈ staticScopes) : Documented syn str (.static str)
  | dynamic (r : Resource) (positional : String) (params : List (String × String))
      (perm : ScopePermission)
      (written : str.toList = r.name.toList ++ ':' :: (positional.toList ++ renderQuery params))
      (cut : '?' ∉ positional.toList ∧ ∀ p ∈ params, '&' ∉ p.2.toList)
      (escapes : escapesValid str.toList = true)
      (means : Means syn AcceptPattern positional params r perm) : Documented syn str perm
  | include (value : String) (written : str = "include:" ++ value)
      (escapes : escapesValid str.toList = true) : Documented syn str (.include value)

/-! ## Where the parser keeps to them -/

/-- The resources, in the order in which the parser compares their names. -/
def resources : List Resource := [.repo, .blob, .identity, .account, .rpc, .include]

/-- The first resource whose name starts with the type of the text. -/
def abbreviates (type : List Char) : Option Resource :=
  resources.find? fun r => type.isPrefixOf r.name.toList

/-- The text in front of the colon and behind it, where both are read. -/
def splitScope (cs : List Char) : Option (List Char × List Char) :=
  match cs.dropWhile (· ≠ ':') with
  | [] => none
  | _ :: rest =>
    if cs.takeWhile (· ≠ ':') = [] then none else some (cs.takeWhile (· ≠ ':'), rest)

/-- The text behind the question mark. -/
def queryOf (rest : List Char) : Option (List Char) :=
  match rest.dropWhile (· ≠ '?') with
  | [] => none
  | _ :: query => some query

def positionalOf (rest : List Char) : String := String.ofList (rest.takeWhile (· ≠ '?'))

/-- No wildcard in front of the slash, `*/*` apart. -/
def PlainType (str : String) : Prop := str = "*/*" ∨ '*' ∉ str.toList.takeWhile (· ≠ '/')

theorem takeWhile_before {a c : Char} {before : List Char} (after : List Char) (h : a ∉ before)
    (hc : c = a) :
    (before ++ c :: after).takeWhile (· ≠ a) = before ∧
      (before ++ c :: after).dropWhile (· ≠ a) = c :: after := by
  subst hc
  have hall : ∀ b ∈ before, decide (b ≠ c) = true := by
    intro b hb
    simp only [decide_eq_true_eq]
    rintro rfl
    exact h hb
  constructor
  · rw [List.takeWhile_append_of_pos hall, List.takeWhile_cons_of_neg (by simp), List.append_nil]
  · rw [List.dropWhile_append_of_pos hall, List.dropWhile_cons_of_neg (by simp)]

/-- The code takes the documented patterns, and wildcards inside of a type besides. -/
theorem acceptPattern_iff {str : String} :
    AcceptPattern str ↔ isValidAccept str = true ∧ PlainType str := by
  by_cases hany : str = "*/*"
  · subst hany
    refine iff_of_true ⟨['*'], ['*'], ?_⟩ ⟨rfl, Or.inl rfl⟩
    decide
  constructor
  · rintro ⟨type, subtype, hstr, htype, hsub, hslash, hslash', hblank, hstar⟩
    have hplain : '*' ∉ type ∧ ('*' ∉ subtype ∨ subtype = ['*']) := by
      rcases hstar with h | h | ⟨rfl, rfl⟩
      · exact ⟨h.1, Or.inl h.2⟩
      · exact ⟨h.1, Or.inr h.2⟩
      · exact absurd (String.toList_inj.mp hstr) hany
    obtain ⟨htake, hdrop⟩ := takeWhile_before subtype hslash rfl
    rw [← hstr] at htake hdrop
    refine ⟨?_, Or.inr (htake ▸ hplain.1)⟩
    have hempty : str ≠ "" := by
      rintro rfl
      cases type <;> cases hstr
    have hhead : str.toList.head? ≠ some '/' := by
      obtain ⟨c, type, rfl⟩ := List.exists_cons_of_ne_nil htype
      rw [hstr]
      intro h
      exact hslash (List.mem_cons.mpr (Or.inl (Option.some.inj h).symm))
    unfold isValidAccept
    simp only [hempty, hany, if_false, hdrop, hhead, hsub, or_self, hslash', hblank]
    split
    · rfl
    · next hin =>
      rcases hplain.2 with h | h
      · exact absurd (by simp [hstr, hplain.1, h]) hin
      · simp [h]
  · rintro ⟨hvalid, hplain⟩
    have htype := hplain.resolve_left hany
    unfold isValidAccept at hvalid
    dsimp only at hvalid
    split at hvalid
    · cases hvalid
    cases hdrop : str.toList.dropWhile (· ≠ '/') with
    | nil =>
      rw [hdrop] at hvalid
      cases hvalid
    | cons c subtype =>
      have hc : c = '/' := by
        have hhead := List.head?_dropWhile_not (· ≠ '/') str.toList
        rw [hdrop] at hhead
        simpa using hhead
      have hstr : str.toList = str.toList.takeWhile (· ≠ '/') ++ '/' :: subtype :=
        calc str.toList = str.toList.takeWhile (· ≠ '/') ++ str.toList.dropWhile (· ≠ '/') :=
              (List.takeWhile_append_dropWhile ..).symm
          _ = _ := by rw [hdrop, hc]
      rw [hdrop] at hvalid
      dsimp only at hvalid
      split at hvalid
      · cases hvalid
      next hfilled =>
      split at hvalid
      · cases hvalid
      next hslash =>
      split at hvalid
      · cases hvalid
      next hblank =>
      obtain ⟨hhead, hsub⟩ := not_or.mp hfilled
      refine ⟨_, subtype, hstr, ?_, hsub, ?_, hslash, hblank, ?_⟩
      · intro hnil
        rw [hnil] at hstr
        exact hhead (by rw [hstr]; rfl)
      · intro hin
        simpa using List.mem_takeWhile_imp hin
      · split at hvalid
        · next hstar =>
          refine Or.inl ⟨htype, fun hin => hstar ?_⟩
          rw [hstr]
          exact List.mem_append_right _ (List.mem_cons_of_mem _ hin)
        · exact Or.inr (Or.inl ⟨htype, by simpa using hvalid⟩)

theorem Resource.name_spelled (r : Resource) :
    ':' ∉ r.name.toList ∧ r.name.toList ≠ [] ∧ abbreviates r.name.toList = some r := by
  cases r <;> decide

theorem splitScope_written (r : Resource) (rest : List Char) :
    splitScope (r.name.toList ++ ':' :: rest) = some (r.name.toList, rest) := by
  obtain ⟨hcolon, hne, -⟩ := r.name_spelled
  obtain ⟨htake, hdrop⟩ := takeWhile_before rest hcolon rfl
  rw [splitScope, hdrop, htake]
  simp only [hne, if_false]

section Query

variable {params : List (String × String)}

/-- The parameters have the names of a resource, and values that no `&` ends. -/
def Lexed (params : List (String × String)) : Prop :=
  ∀ p ∈ params, p.1 ∈ ["action", "accept", "lxm", "aud"] ∧ '&' ∉ p.2.toList

theorem Lexed.name_clean (h : Lexed params) {p : String × String} (hp : p ∈ params) :
    '&' ∉ p.1.toList ∧ '=' ∉ p.1.toList := by
  have hname := (h p hp).1
  simp only [List.mem_cons, List.not_mem_nil, or_false] at hname
  rcases hname with hname | hname | hname | hname <;> rw [hname] <;> decide

theorem Lexed.segment_clean (h : Lexed params) {p : String × String} (hp : p ∈ params) :
    '&' ∉ renderParam p ∧ '=' ∈ renderParam p := by
  obtain ⟨hamp, -⟩ := h.name_clean hp
  have hvalue := (h p hp).2
  simp [renderParam, hamp, hvalue]

/-- The parser's reading of one segment. -/
def readParam (seg : List Char) : String × String :=
  (String.ofList (seg.takeWhile (· ≠ '=')), String.ofList ((seg.dropWhile (· ≠ '=')).drop 1))

/-- Where every segment has a name and a value, no segment is left out. -/
theorem queryParse_eq {query : List Char} (h : ∀ seg ∈ query.splitOn '&', '=' ∈ seg) :
    queryParse query = (query.splitOn '&').map readParam := by
  have hlast : (query.splitOn '&').getLast? ≠ some [] := by
    intro hlast
    have := h [] (List.mem_of_getLast? hlast)
    cases this
  rw [queryParse, if_neg hlast]
  rfl

theorem readParam_render (h : Lexed params) {p : String × String} (hp : p ∈ params) :
    readParam (renderParam p) = p := by
  obtain ⟨-, heq⟩ := h.name_clean hp
  obtain ⟨htake, hdrop⟩ := takeWhile_before p.2.toList heq rfl
  rw [readParam, renderParam, htake, hdrop]
  simp

/-- What is rendered is read back. -/
theorem queryParse_render (h : Lexed params) (hne : params ≠ []) :
    queryParse (List.intercalate ['&'] (params.map renderParam)) = params := by
  have hsplit : (List.intercalate ['&'] (params.map renderParam)).splitOn '&' =
      params.map renderParam := by
    apply List.splitOn_intercalate
    · intro seg hseg
      obtain ⟨p, hp, rfl⟩ := List.mem_map.mp hseg
      exact (h.segment_clean hp).1
    · simpa using hne
  rw [queryParse_eq, hsplit, List.map_map]
  · exact (List.map_congr_left fun p hp => readParam_render h hp).trans (List.map_id _)
  · rw [hsplit]
    intro seg hseg
    obtain ⟨p, hp, rfl⟩ := List.mem_map.mp hseg
    exact (h.segment_clean hp).2

/-- The pieces behind the colon, of a text that is rendered. -/
theorem pieces_written (params : List (String × String)) {positional : String}
    (h : '?' ∉ positional.toList) :
    positionalOf (positional.toList ++ renderQuery params) = positional ∧
      queryOf (positional.toList ++ renderQuery params) =
        if params = [] then none
        else some (List.intercalate ['&'] (params.map renderParam)) := by
  by_cases hparams : params = []
  · have hall : ∀ c ∈ positional.toList, decide (c ≠ '?') = true := by
      intro c hc
      simp only [decide_eq_true_eq]
      rintro rfl
      exact h hc
    rw [positionalOf, queryOf, renderQuery, if_pos hparams, List.append_nil,
      List.takeWhile_eq_self_iff.mpr hall, List.dropWhile_eq_nil_iff.mpr hall,
      String.ofList_toList, if_pos hparams]
    exact ⟨rfl, rfl⟩
  · obtain ⟨htake, hdrop⟩ := takeWhile_before
      (List.intercalate ['&'] (params.map renderParam)) h rfl
    rw [positionalOf, queryOf, renderQuery, if_neg hparams, htake, hdrop, String.ofList_toList,
      if_neg hparams]
    exact ⟨rfl, rfl⟩

end Query

/-! ## The branches of the parser -/

section Branches

variable {syn : Syntax} {accepts : String → Prop} {positional : String}
  {params : List (String × String)} {perm : ScopePermission}

/-- The branch of the parser for a resource. -/
def parseResource (syn : Syntax) (positional : String) (query : Option (List Char))
    (rest : String) : Resource → Option ScopePermission
  | .repo =>
    if positional ≠ "*" ∧ syn.nsidIsValid positional = false then none
    else
      match query with
      | none => some (.repo positional RepoActions.all)
      | some query => some (.repo positional (parseRepoActions query))
  | .blob =>
    if (queryParse (query.getD [])).any (·.1 != "accept") then none
    else
      match extractMulti positional (queryParse (query.getD [])) "accept" with
      | none => none
      | some accept =>
        if accept = [] ∨ accept.any (fun a => !isValidAccept a) then none else some (.blob accept)
  | .identity =>
    if queryParse (query.getD []) ≠ [] ∨ positional = "" ∨ isIdentityAttr positional = false then
      none
    else some (.identity positional)
  | .account =>
    if (queryParse (query.getD [])).any (·.1 != "action") ∨ positional = "" ∨
        isAccountAttr positional = false then
      none
    else
      (parseAccountActions ((queryParse (query.getD [])).map Prod.snd)).map (.account positional)
  | .rpc =>
    if (queryParse (query.getD [])).any (fun p => p.1 != "lxm" && p.1 != "aud") then none
    else
      match extractMulti positional (queryParse (query.getD [])) "lxm" with
      | none => none
      | some lxm =>
        if lxm = [] ∨ lxm.any (fun l => !isValidLxm syn l) then none
        else
          match ((queryParse (query.getD [])).filter (·.1 == "aud")).map Prod.snd with
          | [aud] =>
            if isValidAud syn aud = false ∨ (lxm.contains "*" ∧ aud = "*") then none
            else some (.rpc lxm (lxm.contains "*") aud)
          | _ => none
  | .include => some (.include rest)

/-- The parser takes the branch of the first resource whose name the type starts. -/
theorem parseDynamic_eq {type : List Char} (hne : type ≠ []) (query : Option (List Char))
    (rest : String) : parseDynamic syn type positional query rest =
      (abbreviates type).bind (parseResource syn positional query rest) := by
  unfold parseDynamic abbreviates
  simp only [hne, if_false, resources, List.find?_cons, List.find?_nil, Resource.name]
  cases type.isPrefixOf "repo".toList with
  | true => rfl
  | false =>
    cases type.isPrefixOf "blob".toList with
    | true => rfl
    | false =>
      cases type.isPrefixOf "identity".toList with
      | true => rfl
      | false =>
        cases type.isPrefixOf "account".toList with
        | true => rfl
        | false =>
          cases type.isPrefixOf "rpc".toList with
          | true => rfl
          | false => cases type.isPrefixOf "include".toList <;> rfl

theorem extractMulti_iff {name : String} {values : List String} :
    extractMulti positional params name = some values ↔
      Given positional (valuesOf params name) values := by
  unfold extractMulti Given valuesOf
  generalize (params.filter (·.1 == name)).map Prod.snd = named
  by_cases hpos : positional = ""
  · subst hpos
    simp [eq_comm]
  · by_cases hnamed : named = []
    · subst hnamed
      simp [hpos, eq_comm]
    · simp [hpos, hnamed]

/-- What a text means by the documented patterns, it means by those of the code, and the types
it gives a blob scope are plain. -/
theorem means_acceptPattern_iff {r : Resource} :
    Means syn AcceptPattern positional params r perm ↔
      Means syn (isValidAccept · = true) positional params r perm ∧
        (r = .blob → PlainType positional ∧ ∀ a ∈ valuesOf params "accept", PlainType a) := by
  cases r with
  | blob =>
    have hempty : PlainType "" := Or.inr (by decide)
    constructor
    · rintro ⟨accept, hnames, hgiven, hne, hall, rfl⟩
      have hplain : ∀ a ∈ accept, PlainType a := fun a ha => (acceptPattern_iff.mp (hall a ha)).2
      refine ⟨⟨accept, hnames, hgiven, hne,
        fun a ha => (acceptPattern_iff.mp (hall a ha)).1, rfl⟩, fun _ => ?_⟩
      rcases hgiven with ⟨-, hnamed, rfl⟩ | ⟨rfl, rfl⟩
      · exact ⟨hplain _ (List.mem_singleton_self _), by simp [hnamed]⟩
      · exact ⟨hempty, hplain⟩
    · rintro ⟨⟨accept, hnames, hgiven, hne, hall, rfl⟩, hplain⟩
      obtain ⟨hposition, hnamed⟩ := hplain rfl
      refine ⟨accept, hnames, hgiven, hne, fun a ha => acceptPattern_iff.mpr ⟨hall a ha, ?_⟩, rfl⟩
      rcases hgiven with ⟨-, -, rfl⟩ | ⟨-, rfl⟩
      · rwa [List.mem_singleton.mp ha]
      · exact hnamed a ha
  | _ => simp [Means]

theorem parseResource_blob {query : Option (List Char)} {rest : String} :
    parseResource syn positional query rest .blob = some perm ↔
      Means syn (isValidAccept · = true) positional (queryParse (query.getD [])) .blob perm := by
  generalize hparams : queryParse (query.getD []) = params
  simp only [parseResource, Means, hparams]
  by_cases hkeys : ∀ p ∈ params, p.1 = "accept"
  · have hany : params.any (·.1 != "accept") = false := by simpa using hkeys
    rw [hany, if_neg (by simp)]
    cases hextract : extractMulti positional params "accept" with
    | none =>
      refine iff_of_false (by simp) ?_
      rintro ⟨accept, -, hgiven, -⟩
      rw [extractMulti_iff.mpr hgiven] at hextract
      cases hextract
    | some accept =>
      have hgiven := extractMulti_iff.mp hextract
      constructor
      · intro h
        dsimp only at h
        split at h
        · cases h
        · next hvalid =>
          obtain ⟨hne, hall⟩ := not_or.mp hvalid
          exact ⟨accept, hkeys, hgiven, hne, by simpa using hall, (Option.some.inj h).symm⟩
      · rintro ⟨accept', -, hgiven', hne, hall, rfl⟩
        obtain rfl : accept' = accept :=
          Option.some.inj ((extractMulti_iff.mpr hgiven').symm.trans hextract)
        dsimp only
        rw [if_neg (not_or.mpr ⟨hne, by simpa using hall⟩)]
  · have hany : params.any (·.1 != "accept") = true := by
      push Not at hkeys
      simpa using hkeys
    rw [hany, if_pos rfl]
    refine iff_of_false (by simp) ?_
    rintro ⟨accept, h, -⟩
    exact hkeys h

theorem parseResource_identity {query : Option (List Char)} {rest : String} :
    parseResource syn positional query rest .identity = some perm ↔
      Means syn accepts positional (queryParse (query.getD [])) .identity perm := by
  have hattr : isIdentityAttr positional = true ↔ positional = "handle" ∨ positional = "*" := by
    simp [isIdentityAttr]
  simp only [parseResource, Means, ← hattr]
  constructor
  · intro h
    split at h
    · cases h
    · next hvalid =>
      obtain ⟨hparams, hrest⟩ := not_or.mp hvalid
      obtain ⟨-, hidentity⟩ := not_or.mp hrest
      exact ⟨not_not.mp hparams, by simpa using hidentity, (Option.some.inj h).symm⟩
  · rintro ⟨hparams, hidentity, rfl⟩
    have hne : positional ≠ "" := by
      rintro rfl
      cases hidentity
    rw [if_neg (by simp [hparams, hne, hidentity])]

/-- The flags of an account scope are the actions among its values. -/
theorem parseAccountActions_iff {values : List String} {actions : AccountActions} :
    parseAccountActions values = some actions ↔
      (∀ v ∈ values, v ∈ ["read", "manage"]) ∧
        actions = if values = [] then ⟨true, false⟩ else
          ⟨"read" ∈ values, "manage" ∈ values⟩ := by
  have hfold : ∀ (values : List String) (start actions : AccountActions),
      values.foldlM (fun (actions : AccountActions) value =>
        if value = "read" then some { actions with read := true }
        else if value = "manage" then some { actions with manage := true }
        else none) start = some actions ↔
      (∀ v ∈ values, v ∈ ["read", "manage"]) ∧
        actions = ⟨start.read || decide ("read" ∈ values),
          start.manage || decide ("manage" ∈ values)⟩ := by
    intro values
    induction values with
    | nil =>
      intro start actions
      simp only [List.foldlM_nil, Option.pure_def, Option.some.injEq, List.not_mem_nil,
        false_implies, implies_true, decide_false, Bool.or_false, true_and]
      constructor <;> rintro rfl <;> rfl
    | cons v rest ih =>
      intro start actions
      rw [List.foldlM_cons]
      by_cases hread : v = "read"
      · subst hread
        simp [ih]
      · by_cases hmanage : v = "manage"
        · subst hmanage
          simp [ih]
        · simp [hread, hmanage]
  unfold parseAccountActions
  split
  · next hnil =>
    subst hnil
    simp [eq_comm]
  · rw [hfold]
    simp

theorem parseResource_account {query : Option (List Char)} {rest : String} :
    parseResource syn positional query rest .account = some perm ↔
      Means syn accepts positional (queryParse (query.getD [])) .account perm := by
  generalize hparams : queryParse (query.getD []) = params
  have hattr : isAccountAttr positional = true ↔ positional ∈ ["email", "repo", "status"] := by
    simp [isAccountAttr, or_assoc]
  have hvalues : (∀ p ∈ params, p.1 = "action") →
      valuesOf params "action" = params.map Prod.snd := by
    intro hkeys
    rw [valuesOf, List.filter_eq_self.mpr (by simpa using hkeys)]
  simp only [parseResource, Means, hparams, ← hattr]
  constructor
  · intro h
    split at h
    · cases h
    · next hvalid =>
      obtain ⟨hany, hrest⟩ := not_or.mp hvalid
      obtain ⟨-, haccount⟩ := not_or.mp hrest
      have hkeys : ∀ p ∈ params, p.1 = "action" := by simpa using hany
      obtain ⟨actions, hactions, rfl⟩ := Option.map_eq_some_iff.mp h
      obtain ⟨hall, rfl⟩ := parseAccountActions_iff.mp hactions
      refine ⟨by simpa using haccount,
        fun p hp => ⟨hkeys p hp, hall _ (List.mem_map_of_mem hp)⟩, ?_⟩
      rw [hvalues hkeys]
      simp only [List.map_eq_nil_iff]
  · rintro ⟨haccount, hall, rfl⟩
    have hne : positional ≠ "" := by
      rintro rfl
      cases haccount
    have hkeys : ∀ p ∈ params, p.1 = "action" := fun p hp => (hall p hp).1
    rw [if_neg (by simpa [hne, haccount] using hkeys), hvalues hkeys]
    refine Option.map_eq_some_iff.mpr ⟨_, parseAccountActions_iff.mpr ⟨?_, rfl⟩, ?_⟩
    · intro v hv
      obtain ⟨p, hp, rfl⟩ := List.mem_map.mp hv
      exact (hall p hp).2
    · simp only [List.map_eq_nil_iff]

theorem parseResource_rpc {query : Option (List Char)} {rest : String} :
    parseResource syn positional query rest .rpc = some perm ↔
      Means syn accepts positional (queryParse (query.getD [])) .rpc perm := by
  generalize hparams : queryParse (query.getD []) = params
  have hlxmValid : ∀ lxm : List String, (lxm.any fun l => !isValidLxm syn l) = false ↔
      ∀ l ∈ lxm, l = "*" ∨ syn.nsidIsValid l = true := by
    intro lxm
    simp [isValidLxm, or_iff_not_imp_left]
  simp only [parseResource, Means, hparams]
  by_cases hkeys : ∀ p ∈ params, p.1 = "lxm" ∨ p.1 = "aud"
  · have hany : (params.any fun p => p.1 != "lxm" && p.1 != "aud") = false := by
      simpa [or_iff_not_imp_left] using hkeys
    rw [hany, if_neg (by simp)]
    cases hextract : extractMulti positional params "lxm" with
    | none =>
      refine iff_of_false (by simp) ?_
      rintro ⟨lxm, aud, -, hgiven, -⟩
      rw [extractMulti_iff.mpr hgiven] at hextract
      cases hextract
    | some lxm =>
      have hgiven := extractMulti_iff.mp hextract
      constructor
      · intro h
        dsimp only at h
        split at h
        · cases h
        · next hvalid =>
          obtain ⟨hne, hall⟩ := not_or.mp hvalid
          split at h
          · next aud haud =>
            split at h
            · cases h
            · next haudience =>
              obtain ⟨hvalidAud, hwild⟩ := not_or.mp haudience
              exact ⟨lxm, aud, hkeys, hgiven, hne, (hlxmValid lxm).mp (by simpa using hall), haud,
                by simpa using hvalidAud, by simpa using hwild, (Option.some.inj h).symm⟩
          · cases h
      · rintro ⟨lxm', aud, -, hgiven', hne, hall, haud, hvalidAud, hwild, rfl⟩
        obtain rfl : lxm' = lxm :=
          Option.some.inj ((extractMulti_iff.mpr hgiven').symm.trans hextract)
        have haud' : (params.filter (·.1 == "aud")).map Prod.snd = [aud] := haud
        dsimp only
        rw [if_neg (not_or.mpr ⟨hne, by simpa using (hlxmValid lxm').mpr hall⟩), haud']
        dsimp only
        rw [if_neg (not_or.mpr ⟨by simp [hvalidAud], by simpa using hwild⟩)]
  · have hany : (params.any fun p => p.1 != "lxm" && p.1 != "aud") = true := by
      push Not at hkeys
      simpa using hkeys
    rw [hany, if_pos rfl]
    refine iff_of_false (by simp) ?_
    rintro ⟨lxm, aud, h, -⟩
    exact hkeys h

theorem parseResource_repo {query : Option (List Char)} {rest : String} :
    parseResource syn positional query rest .repo = some perm ↔
      (positional = "*" ∨ syn.nsidIsValid positional = true) ∧
        perm = .repo positional (query.elim RepoActions.all parseRepoActions) := by
  simp only [parseResource]
  by_cases hvalid : positional = "*" ∨ syn.nsidIsValid positional = true
  · have hnot : ¬ (positional ≠ "*" ∧ syn.nsidIsValid positional = false) := by
      rintro ⟨hstar, hnsid⟩
      rcases hvalid with h | h
      · exact hstar h
      · rw [h] at hnsid
        cases hnsid
    rw [if_neg hnot]
    constructor
    · intro h
      refine ⟨hvalid, ?_⟩
      cases query <;> exact (Option.some.inj h).symm
    · rintro ⟨-, rfl⟩
      cases query <;> rfl
  · obtain ⟨hstar, hnsid⟩ := not_or.mp hvalid
    rw [if_pos ⟨hstar, by simpa using hnsid⟩]
    exact iff_of_false (by simp) fun h => hvalid h.1

/-- What one parameter of a repo scope adds to the actions. -/
def repoStep (actions : RepoActions) (seg : List Char) : RepoActions :=
  if "action=".toList.isPrefixOf seg then
    match repoActionOf (seg.drop 7) with
    | some action => actions.add action
    | none => actions
  else actions

theorem parseRepoActions_eq (query : List Char) :
    parseRepoActions query = (query.splitOn '&').foldl repoStep RepoActions.none := rfl

/-- Actions that are written out are all read. -/
theorem foldl_repoStep (start : RepoActions)
    (h : ∀ p ∈ params, p.1 = "action" ∧ p.2 ∈ ["create", "update", "delete"]) :
    (params.map renderParam).foldl repoStep start =
      ⟨start.create || decide ("create" ∈ valuesOf params "action"),
        start.update || decide ("update" ∈ valuesOf params "action"),
        start.delete || decide ("delete" ∈ valuesOf params "action")⟩ := by
  induction params generalizing start with
  | nil => simp [valuesOf]
  | cons p rest ih =>
    obtain ⟨name, value⟩ := p
    obtain ⟨hname, hvalue⟩ := h _ List.mem_cons_self
    have hrest := fun start => ih start fun p hp => h p (List.mem_cons_of_mem _ hp)
    simp only at hname hvalue
    subst hname
    have hvalues : valuesOf (("action", value) :: rest) "action" =
        value :: valuesOf rest "action" := rfl
    rw [List.map_cons, List.foldl_cons, hrest, hvalues]
    simp only [List.mem_cons, List.not_mem_nil, or_false] at hvalue
    rcases hvalue with rfl | rfl | rfl
    · rw [show repoStep start (renderParam ("action", "create")) = start.add .create by rfl]
      simp [RepoActions.add]
    · rw [show repoStep start (renderParam ("action", "update")) = start.add .update by rfl]
      simp [RepoActions.add]
    · rw [show repoStep start (renderParam ("action", "delete")) = start.add .delete by rfl]
      simp [RepoActions.add]

/-- The names of the parameters are known where they mean something. -/
theorem Means.names {r : Resource} (h : Means syn accepts positional params r perm) :
    ∀ p ∈ params, p.1 ∈ ["action", "accept", "lxm", "aud"] := by
  intro p hp
  cases r with
  | repo => simp [(h.2.1 p hp).1]
  | blob =>
    obtain ⟨accept, hnames, -⟩ := h
    simp [hnames p hp]
  | identity =>
    rw [h.1] at hp
    cases hp
  | account => simp [(h.2.1 p hp).1]
  | rpc =>
    obtain ⟨lxm, aud, hnames, -⟩ := h
    rcases hnames p hp with hname | hname <;> simp [hname]
  | _ => exact h.elim

end Branches

/-! ## The parser on a text -/

section Texts

variable {syn : Syntax} {str : String} {perm : ScopePermission}

theorem scopePermissionParse_static (h : str ∈ staticScopes) :
    scopePermissionParse syn str = some (.static str) := by
  have hne : str ≠ "" := by
    rintro rfl
    exact absurd h (by decide)
  rw [scopePermissionParse, if_neg hne, if_pos h]

/-- The parser cuts the text at its first colon, and reads the rest for one resource. -/
theorem scopePermissionParse_eq (h : str ∉ staticScopes) : scopePermissionParse syn str =
    (splitScope str.toList).bind fun parts =>
      (abbreviates parts.1).bind (parseResource syn (positionalOf parts.2) (queryOf parts.2)
        (String.ofList parts.2)) := by
  unfold scopePermissionParse splitScope
  rw [if_neg h]
  split
  · next hempty =>
    subst hempty
    rfl
  · dsimp only
    cases hdrop : str.toList.dropWhile (· ≠ ':') with
    | nil => rfl
    | cons c rest =>
      dsimp only
      by_cases htype : str.toList.takeWhile (· ≠ ':') = []
      · rw [if_pos htype, htype]
        unfold parseDynamic
        simp
      · rw [if_neg htype]
        exact parseDynamic_eq htype _ _

/-- The static scopes are no texts of a resource. -/
theorem splitScope_static (h : str ∈ staticScopes) :
    (splitScope str.toList).bind (fun parts => abbreviates parts.1) = none := by
  revert h
  revert str
  decide

/-- What the parser reads of a rendered text. -/
theorem queryParse_pieces {positional : String} {params : List (String × String)}
    (h : Lexed params) (hpos : '?' ∉ positional.toList) :
    queryParse ((queryOf (positional.toList ++ renderQuery params)).getD []) = params := by
  rw [(pieces_written params hpos).2]
  by_cases hparams : params = []
  · rw [if_pos hparams, hparams]
    rfl
  · rw [if_neg hparams]
    exact queryParse_render h hparams

/-- The parser accepts every documented form, as what is written in it. -/
theorem Documented.parsed (h : Documented syn str perm) :
    scopePermissionParse syn str = some perm := by
  have hnotStatic : ∀ (r : Resource) rest, str.toList = r.name.toList ++ ':' :: rest →
      str ∉ staticScopes := by
    intro r rest hwritten hstatic
    have hnone := splitScope_static hstatic
    rw [hwritten, splitScope_written, Option.bind_some, r.name_spelled.2.2] at hnone
    cases hnone
  cases h with
  | static listed => exact scopePermissionParse_static listed
  | dynamic r positional params perm written cut escapes means =>
    have hlexed : Lexed params := fun p hp => ⟨means.names p hp, cut.2 p hp⟩
    obtain ⟨hposition, hquery⟩ := pieces_written params cut.1
    have hparams := queryParse_pieces hlexed cut.1
    rw [scopePermissionParse_eq (hnotStatic r _ written), written, splitScope_written,
      Option.bind_some, r.name_spelled.2.2, Option.bind_some, hposition]
    replace means := (means_acceptPattern_iff.mp means).1
    cases r with
    | repo =>
      obtain ⟨hcollection, hactions, rfl⟩ := means
      refine parseResource_repo.mpr ⟨hcollection, ?_⟩
      rw [hquery]
      by_cases hnil : params = []
      · rw [if_pos hnil, if_pos hnil]
        rfl
      · have hsegments : (List.intercalate ['&'] (params.map renderParam)).splitOn '&' =
            params.map renderParam := by
          apply List.splitOn_intercalate
          · intro seg hseg
            obtain ⟨p, hp, rfl⟩ := List.mem_map.mp hseg
            exact (hlexed.segment_clean hp).1
          · simpa using hnil
        rw [if_neg hnil, if_neg hnil, Option.elim_some, parseRepoActions_eq, hsegments,
          foldl_repoStep _ hactions]
        simp [RepoActions.none]
    | blob => exact parseResource_blob.mpr (by rwa [hparams])
    | identity => exact parseResource_identity.mpr (by rwa [hparams])
    | account => exact parseResource_account.mpr (by rwa [hparams])
    | rpc => exact parseResource_rpc.mpr (by rwa [hparams])
    | _ => exact means.elim
  | «include» value written escapes =>
    have htext : str.toList = Resource.include.name.toList ++ ':' :: value.toList := by
      rw [written, String.toList_append]
      rfl
    rw [scopePermissionParse_eq (hnotStatic .include _ htext), htext, splitScope_written,
      Option.bind_some, Resource.include.name_spelled.2.2, Option.bind_some]
    simp only [parseResource, String.ofList_toList]

end Texts

end MetalBear.OAuth
