import MetalBear.Library.CString

/-!
# OAuth scopes

The grammar of scope strings and the decisions taken on a parsed set: what each
permission is parsed into, and which record operation, read, blob, account, identity or
service call a set allows. The syntax rules for NSIDs and DIDs belong to the protocol
library and are parameters.
-/

namespace MetalBear.OAuth

open CString

/-- The syntax checks of the protocol library that scopes rely on. -/
structure Syntax where
  nsidIsValid : String → Bool
  didIsValid : String → Bool

/-- One of the `mb_repo_action` flags. -/
inductive RepoAction where
  | create
  | update
  | delete
  deriving DecidableEq, Repr

/-- A combination of `mb_repo_action` flags. -/
structure RepoActions where
  create : Bool
  update : Bool
  delete : Bool
  deriving DecidableEq, Repr

/-- `MB_REPO_ACTION_ALL`. -/
def RepoActions.all : RepoActions := ⟨true, true, true⟩

/-- `MB_REPO_ACTION_NONE`. -/
def RepoActions.none : RepoActions := ⟨false, false, false⟩

/-- `(actions & action) != 0`. -/
def RepoActions.has (actions : RepoActions) : RepoAction → Bool
  | .create => actions.create
  | .update => actions.update
  | .delete => actions.delete

/-- A combination of `mb_account_action` flags. -/
structure AccountActions where
  read : Bool
  manage : Bool
  deriving DecidableEq, Repr

/-- `mb_scope_permission`. -/
inductive ScopePermission where
  | static (value : String)
  | repo (collection : String) (actions : RepoActions)
  | blob (accept : List String)
  | identity (attr : String)
  | account (attr : String) (actions : AccountActions)
  | rpc (lxm : List String) (lxmWildcard : Bool) (aud : String)
  | include (value : String)
  deriving DecidableEq, Repr

/-- `mb_scope_set`. -/
abbrev ScopeSet := List ScopePermission

/-! ## Parsing -/

/-- `STATIC_SCOPES`. -/
def staticScopes : List String :=
  ["atproto", "transition:email", "transition:generic", "transition:chat.bsky"]

/-- `is_valid_lxm`. -/
def isValidLxm (syn : Syntax) (str : String) : Bool := str == "*" || syn.nsidIsValid str

/-- `is_valid_aud`. -/
def isValidAud (syn : Syntax) (str : String) : Bool :=
  if str = "*" then true
  else
    let did := str.toList.takeWhile (· ≠ '#')
    match str.toList.dropWhile (· ≠ '#') with
    | [] => syn.didIsValid str
    | _ :: fragment =>
      if did = [] ∨ fragment = [] ∨ '#' ∈ fragment then false
      else syn.didIsValid (String.ofList did)

/-- `is_identity_attr`. -/
def isIdentityAttr (str : String) : Bool := str == "handle" || str == "*"

/-- `is_account_attr`. -/
def isAccountAttr (str : String) : Bool := str == "email" || str == "repo" || str == "status"

/-- `is_valid_accept`. -/
def isValidAccept (str : String) : Bool :=
  let cs := str.toList
  if str = "" then false
  else if str = "*/*" then true
  else
    match cs.dropWhile (· ≠ '/') with
    | [] => false
    | _ :: subtype =>
      if cs.head? = some '/' ∨ subtype = [] then false
      else if '/' ∈ subtype then false
      else if ' ' ∈ cs then false
      else if '*' ∉ cs then true
      else subtype == ['*']

/-- `query_parse`: the parameters after the question mark, a trailing `&` apart. -/
def queryParse (query : List Char) : List (String × String) :=
  let segments := query.splitOn '&'
  let segments := if segments.getLast? = some [] then segments.dropLast else segments
  segments.map fun seg =>
    (String.ofList (seg.takeWhile (· ≠ '=')), String.ofList ((seg.dropWhile (· ≠ '=')).drop 1))

/-- `extract_multi`: all named values of a key, or the positional one, but never both. -/
def extractMulti (positional : String) (params : List (String × String)) (key : String) :
    Option (List String) :=
  let named := (params.filter (·.1 == key)).map Prod.snd
  if positional ≠ "" ∧ named ≠ [] then none
  else if positional ≠ "" then some [positional]
  else some named

/-- The flag one `action=` value of a repo scope sets: the first action of which the value
is a prefix, as `strncmp` compares no further than the value reaches. -/
def repoActionOf (value : List Char) : Option RepoAction :=
  if value.isPrefixOf "create".toList then some .create
  else if value.isPrefixOf "update".toList then some .update
  else if value.isPrefixOf "delete".toList then some .delete
  else none

/-- `actions |= action`. -/
def RepoActions.add (actions : RepoActions) : RepoAction → RepoActions
  | .create => { actions with create := true }
  | .update => { actions with update := true }
  | .delete => { actions with delete := true }

/-- The loop over the query of a repo scope; parameters other than `action` are skipped. -/
def parseRepoActions (query : List Char) : RepoActions :=
  (query.splitOn '&').foldl (fun actions seg =>
    if "action=".toList.isPrefixOf seg then
      match repoActionOf (seg.drop 7) with
      | some action => actions.add action
      | none => actions
    else actions) RepoActions.none

/-- The flags of an account scope; any value but `read` and `manage` is an error. -/
def parseAccountActions (values : List String) : Option AccountActions :=
  if values = [] then some ⟨true, false⟩
  else values.foldlM (fun actions value =>
    if value = "read" then some { actions with read := true }
    else if value = "manage" then some { actions with manage := true }
    else none) ⟨false, false⟩

/-- The dynamic branch of `mb_scope_permission_parse`, for the text before the colon, the
text between colon and question mark, and the query, if there is a question mark. The type
is compared by `strncmp` over its own length, so every prefix of a type name names it. -/
def parseDynamic (syn : Syntax) (type : List Char) (positional : String)
    (query : Option (List Char)) (params : String) : Option ScopePermission :=
  let queryParams := queryParse (query.getD [])
  if type = [] then none
  else if type.isPrefixOf "repo".toList then
    if positional ≠ "*" ∧ syn.nsidIsValid positional = false then none
    else
      match query with
      | none => some (.repo positional RepoActions.all)
      | some query => some (.repo positional (parseRepoActions query))
  else if type.isPrefixOf "blob".toList then
    if queryParams.any (·.1 != "accept") then none
    else
      match extractMulti positional queryParams "accept" with
      | none => none
      | some accept =>
        if accept = [] ∨ accept.any (fun a => !isValidAccept a) then none else some (.blob accept)
  else if type.isPrefixOf "identity".toList then
    if queryParams ≠ [] ∨ positional = "" ∨ isIdentityAttr positional = false then none
    else some (.identity positional)
  else if type.isPrefixOf "account".toList then
    if queryParams.any (·.1 != "action") ∨ positional = "" ∨ isAccountAttr positional = false then
      none
    else (parseAccountActions (queryParams.map Prod.snd)).map (.account positional)
  else if type.isPrefixOf "rpc".toList then
    if queryParams.any (fun p => p.1 != "lxm" && p.1 != "aud") then none
    else
      match extractMulti positional queryParams "lxm" with
      | none => none
      | some lxm =>
        let wildcard := lxm.contains "*"
        if lxm = [] ∨ lxm.any (fun l => !isValidLxm syn l) then none
        else
          -- The audience is required, and may appear only once.
          match (queryParams.filter (·.1 == "aud")).map Prod.snd with
          | [aud] =>
            if isValidAud syn aud = false ∨ (wildcard ∧ aud = "*") then none
            else some (.rpc lxm wildcard aud)
          | _ => none
  else if type.isPrefixOf "include".toList then some (.include params)
  else none

/-- `mb_scope_permission_parse`. -/
def scopePermissionParse (syn : Syntax) (str : String) : Option ScopePermission :=
  if str = "" then none
  else if str ∈ staticScopes then some (.static str)
  else
    let cs := str.toList
    match cs.dropWhile (· ≠ ':') with
    | [] => none
    | _ :: params =>
      let query :=
        match params.dropWhile (· ≠ '?') with
        | [] => none
        | _ :: query => some query
      parseDynamic syn (cs.takeWhile (· ≠ ':')) (String.ofList (params.takeWhile (· ≠ '?')))
        query (String.ofList params)

/-- `mb_scope_set_parse`: invalid scopes are ignored. -/
def scopeSetParse (syn : Syntax) (scope : String) : ScopeSet :=
  (((scope.toList.splitOn ' ').filter (· ≠ [])).map String.ofList).filterMap
    (scopePermissionParse syn)

/-! ## Decisions -/

/-- `mb_scope_set_is_full_access`. -/
def isFullAccess (set : ScopeSet) : Bool :=
  set.any fun perm =>
    match perm with
    | .static value => value == "atproto"
    | .repo collection actions => collection == "*" && actions == RepoActions.all
    | _ => false

/-- `mb_scope_set_allows_repo`. -/
def allowsRepo (set : ScopeSet) (collection : String) (action : RepoAction) : Bool :=
  isFullAccess set || set.any fun perm =>
    match perm with
    | .repo c actions => (c == "*" || c == collection) && actions.has action
    | _ => false

/-- `mb_scope_set_allows_read`; without a collection nothing may be read. -/
def allowsRead (set : ScopeSet) : Option String → Bool
  | none => false
  | some collection =>
    isFullAccess set || set.any fun perm =>
      match perm with
      | .repo c _ => c == "*" || c == collection
      | _ => false

/-- `mb_scope_set_allows_identity`. -/
def allowsIdentity (set : ScopeSet) (attr : String) : Bool :=
  isFullAccess set || set.any fun perm =>
    match perm with
    | .identity a => a == "*" || a == attr
    | _ => false

/-- `mb_scope_set_allows_account` for the `manage` action, the only one the server asks for. -/
def allowsAccountManage (set : ScopeSet) (attr : String) : Bool :=
  isFullAccess set || set.any fun perm =>
    match perm with
    | .account a actions => a == attr && actions.manage
    | _ => false

/-- One `accept` pattern of a blob scope against a concrete MIME type. -/
def acceptMatches (accept mime : String) : Bool :=
  accept == "*/*" || accept == mime ||
    (decide (1 < accept.length) && accept.toList.getLast? == some '*' &&
      accept.toList.dropLast.isPrefixOf mime.toList)

/-- `mb_scope_set_allows_blob`. -/
def allowsBlob (set : ScopeSet) (mime : String) : Bool :=
  mime.toList.contains '/' && (isFullAccess set || set.any fun perm =>
    match perm with
    | .blob accept => accept.any fun a => acceptMatches a mime
    | _ => false)

/-- `mb_scope_set_allows_rpc`. -/
def allowsRpc (set : ScopeSet) (lxm aud : String) : Bool :=
  isFullAccess set || set.any fun perm =>
    match perm with
    | .rpc lxms wildcard a => (a == "*" || a == aud) && (wildcard || lxms.contains lxm)
    | _ => false

end MetalBear.OAuth
