import Mathlib

/-!
# JSON values

The trees that the JSON parser hands to the server. An object keeps its members in the
order of the text, duplicates included; a lookup answers with the first match.
-/

namespace MetalBear

/-- A double read from decimal text: a rational, or an infinity on overflow. -/
abbrev Double := WithBot (WithTop ℚ)

/-- The double of a rational. -/
def Double.finite (q : ℚ) : Double := ((q : WithTop ℚ) : WithBot (WithTop ℚ))

/-- The rational that a finite double stands for. -/
def Double.rat? (d : Double) : Option ℚ := Option.join (show Option (Option ℚ) from d)

@[simp] theorem Double.rat?_finite (q : ℚ) : (Double.finite q).rat? = some q := rfl

/-- A `cJSON` item. A number is the double it was read as. -/
inductive Json where
  | null
  | bool (b : Bool)
  | number (value : Double)
  | string (s : String)
  | array (items : List Json)
  | object (members : List (String × Json))
  deriving Repr

namespace Json

/-- `cJSON_GetObjectItemCaseSensitive`. -/
def getObjectItem (j : Json) (name : String) : Option Json :=
  match j with
  | object members => (members.find? (·.1 == name)).map Prod.snd
  | _ => none

/-- `valuestring`, where `cJSON_IsString` holds. -/
def valueString : Json → Option String
  | string s => some s
  | _ => none

/-- `valuedouble`, where `cJSON_IsNumber` holds. -/
def valueDouble : Json → Option Double
  | number v => some v
  | _ => none

/-- `cJSON_IsObject`. -/
def isObject : Json → Bool
  | object _ => true
  | _ => false

/-- The string member of that name, if the item has one. -/
def getString (j : Json) (name : String) : Option String := (j.getObjectItem name).bind valueString

/-- The children, where `cJSON_IsArray` holds. -/
def items? : Json → Option (List Json)
  | array items => some items
  | _ => none

@[simp] theorem getObjectItem_object (members : List (String × Json)) (name : String) :
    (object members).getObjectItem name = (members.find? (·.1 == name)).map Prod.snd := rfl

/-! ## Texts that are read back -/

mutual

/-- What the text of an item is read back as, by what becomes of its numbers. -/
def reread (f : Double → Json) : Json → Json
  | number value => f value
  | array items => array (rereadItems f items)
  | object members => object (rereadMembers f members)
  | j => j

def rereadItems (f : Double → Json) : List Json → List Json
  | [] => []
  | j :: rest => j.reread f :: rereadItems f rest

def rereadMembers (f : Double → Json) : List (String × Json) → List (String × Json)
  | [] => []
  | (k, j) :: rest => (k, j.reread f) :: rereadMembers f rest

end

section Reread

variable {f : Double → Json}

theorem rereadItems_eq_map (items : List Json) : rereadItems f items = items.map (reread f) := by
  induction items with
  | nil => rfl
  | cons j items ih => rw [rereadItems, ih, List.map_cons]

theorem rereadMembers_eq_map (members : List (String × Json)) :
    rereadMembers f members = members.map fun m => (m.1, m.2.reread f) := by
  induction members with
  | nil => rfl
  | cons m members ih => rw [rereadMembers, ih, List.map_cons]

theorem getObjectItem_reread (hf : ∀ d, (f d).isObject = false) (j : Json) (name : String) :
    (j.reread f).getObjectItem name = (j.getObjectItem name).map (reread f) := by
  cases j with
  | object members =>
    simp only [reread, rereadMembers_eq_map, getObjectItem_object, List.find?_map, Option.map_map]
    rfl
  | number value =>
    have h := hf value
    rw [reread]
    cases hv : f value <;> simp_all [getObjectItem, isObject]
  | _ => rfl

/-- Strings are read back as they were. -/
theorem valueString_reread (hf : ∀ d, (f d).valueString = none) (j : Json) :
    (j.reread f).valueString = j.valueString := by
  cases j with
  | number value => exact hf value
  | _ => rfl

theorem getString_reread (hf : ∀ d, (f d).isObject = false ∧ (f d).valueString = none) (j : Json)
    (name : String) : (j.reread f).getString name = j.getString name := by
  simp only [getString, getObjectItem_reread fun d => (hf d).1]
  cases j.getObjectItem name with
  | none => rfl
  | some item => exact valueString_reread (fun d => (hf d).2) item

mutual

/-- Where numbers are read back as they were, so is everything. -/
theorem reread_number : (j : Json) → j.reread .number = j
  | .null => rfl
  | .bool _ => rfl
  | .number _ => rfl
  | .string _ => rfl
  | .array items => by rw [reread, rereadItems_number items]
  | .object members => by rw [reread, rereadMembers_number members]

theorem rereadItems_number : (items : List Json) → rereadItems .number items = items
  | [] => rfl
  | j :: rest => by rw [rereadItems, reread_number j, rereadItems_number rest]

theorem rereadMembers_number :
    (members : List (String × Json)) → rereadMembers .number members = members
  | [] => rfl
  | (k, j) :: rest => by rw [rereadMembers, reread_number j, rereadMembers_number rest]

end

end Reread

end Json

end MetalBear
