import MetalBear.Json.Value
import MetalBear.Library.CString

/-!
# JSON and DAG-CBOR

The conversions between the JSON text of a record and the items of its DAG-CBOR block.
Numbers are integers, and an object of the single member `$link` or `$bytes` stands for a
CID or for bytes.
-/

namespace MetalBear

/-- `wf_cbor_item`. The key of a pair is its text, if it is a string. -/
inductive CborItem where
  | unsigned (n : Nat)
  | negative (n : Nat)
  | bytes (data : List UInt8)
  | string (s : String)
  | link (data : List UInt8)
  | array (items : List CborItem)
  | map (pairs : List (Option String × CborItem))
  | simple (value : Nat)
  deriving Repr

/-- The texts that CIDs and bytes are written as. -/
structure CborText where
  /-- `wf_cid_from_string`. -/
  cidFromString : String → Option (List UInt8)
  /-- `wf_cid_to_string`. -/
  cidToString : List UInt8 → Option String
  /-- `wf_crypto_base64url_decode`. -/
  base64urlDecode : String → Option (List UInt8)
  /-- `wf_crypto_base64url_encode`. -/
  base64urlEncode : List UInt8 → Option String

/-! ## From JSON -/

/-- The largest integer that every smaller one has a double of its own below. -/
def maxSafeInteger : ℚ := 9007199254740991

/-- A number that is an integer and not too large. -/
def cborFromNumber (d : Double) : Option CborItem := do
  let q ← d.rat?
  if q.den ≠ 1 ∨ maxSafeInteger < |q| then none
  else if 0 ≤ q then some (.unsigned q.num.toNat)
  else some (.negative (-1 - q.num).toNat)

/-- An object of one member that stands for a CID or for bytes. -/
def cborFromSpecial (text : CborText) : List (String × Json) → Option CborItem
  | [("$link", .string s)] => (text.cidFromString s).map .link
  | [("$bytes", .string s)] => (text.base64urlDecode s).map .bytes
  | _ => none

mutual

/-- `cbor_from_json`. -/
def cborFromJson (text : CborText) : Json → Option CborItem
  | .null => some (.simple 22)
  | .bool b => some (.simple (if b then 21 else 20))
  | .number d => cborFromNumber d
  | .string s => some (.string s)
  | .array items => (cborFromItems text items).map .array
  | .object members =>
    match cborFromSpecial text members with
    | some item => some item
    | none => (cborFromMembers text members).map .map

def cborFromItems (text : CborText) : List Json → Option (List CborItem)
  | [] => some []
  | j :: rest => do
    let item ← cborFromJson text j
    let items ← cborFromItems text rest
    some (item :: items)

def cborFromMembers (text : CborText) :
    List (String × Json) → Option (List (Option String × CborItem))
  | [] => some []
  | (k, j) :: rest => do
    let item ← cborFromJson text j
    let pairs ← cborFromMembers text rest
    some ((some k, item) :: pairs)

end

/-! ## To JSON -/

/-- The text of a string or of a key, which an item may hold with a NUL inside, as a `cJSON`
item copies it. -/
def cText (s : String) : String := String.ofList (CString.chars s)

/-- The double nearest to a natural number, a tie to the even side. -/
def roundDouble (n : Nat) : Nat :=
  if n < 2 ^ 53 then n
  else
    let unit := 2 ^ (Nat.log2 n - 52)
    let low := n / unit * unit
    if 2 * (n - low) < unit ∨ (2 * (n - low) = unit ∧ n / unit % 2 = 0) then low else low + unit

mutual

/-- `cbor_to_json`. -/
def cborToJson (text : CborText) : CborItem → Option Json
  | .unsigned n => some (.number (.finite (roundDouble n)))
  | .negative n => some (.number (.finite (-(roundDouble (1 + roundDouble n) : ℚ))))
  | .bytes data =>
    let b64 := if data = [] then none else text.base64urlEncode data
    some (.object [("$bytes", .string (b64.getD ""))])
  | .string s => some (.string (cText s))
  | .link data => some (.object [("$link", .string ((text.cidToString data).getD ""))])
  | .array items => (cborToItems text items).map .array
  | .map pairs => (cborToMembers text pairs).map .object
  | .simple value => some (if value = 21 then .bool true else if value = 20 then .bool false
      else .null)

def cborToItems (text : CborText) : List CborItem → Option (List Json)
  | [] => some []
  | item :: rest => do
    let j ← cborToJson text item
    let items ← cborToItems text rest
    some (j :: items)

def cborToMembers (text : CborText) :
    List (Option String × CborItem) → Option (List (String × Json))
  | [] => some []
  | (k, item) :: rest => do
    let j ← cborToJson text item
    let k ← k
    let members ← cborToMembers text rest
    some ((cText k, j) :: members)

end

end MetalBear
