/-
# DiceFormula.Json.Basic -- JSON values

A JSON number is kept as it was written: as an integer of 64 bits, or as a
double.  `2` and `2.0` are different values, and have different texts when a
formula refers to them.

An object that is read or changed has its members sorted by name, and no name
twice (`Json.insert` keeps both), so such objects are equal when they have equal
members.  A record that is only written has its members in their own order, until
`Json.sorted` makes of it what is read.
-/

namespace DiceFormula

set_option autoImplicit false

/-- A number of a JSON text. -/
inductive JsonNumber where
  | integer (n : Int)
  | double (x : Float)

namespace JsonNumber

/-- The number as a double. -/
def toFloat : JsonNumber → Float
  | .integer n => Float.ofInt n
  | .double x => x

/-- Integers equal integers and doubles equal doubles. -/
def beq : JsonNumber → JsonNumber → Bool
  | .integer n, .integer m => n == m
  | .double x, .double y => x == y
  | _, _ => false

instance : BEq JsonNumber := ⟨beq⟩

end JsonNumber

/-- A JSON value. -/
inductive Json where
  | null
  | bool (b : Bool)
  | number (n : JsonNumber)
  | string (s : String)
  | array (items : List Json)
  | object (members : List (String × Json))

namespace Json

instance : Inhabited Json := ⟨.null⟩

/-! ## Equality -/

mutual

/-- Equality, with that of doubles on doubles. -/
def beq : Json → Json → Bool
  | .null, .null => true
  | .bool a, .bool b => a == b
  | .number a, .number b => a == b
  | .string a, .string b => a == b
  | .array a, .array b => beqItems a b
  | .object a, .object b => beqMembers a b
  | _, _ => false

def beqItems : List Json → List Json → Bool
  | [], [] => true
  | a :: as, b :: bs => beq a b && beqItems as bs
  | _, _ => false

def beqMembers : List (String × Json) → List (String × Json) → Bool
  | [], [] => true
  | (k, a) :: as, (l, b) :: bs => k == l && beq a b && beqMembers as bs
  | _, _ => false

end

instance : BEq Json := ⟨beq⟩

/-! ## Members of objects -/

/-- The value of a member. -/
def find? (name : String) : List (String × Json) → Option Json
  | [] => none
  | (k, v) :: rest => if k = name then some v else find? name rest

/-- Sets a member, in its place by name. -/
def insert (name : String) (value : Json) : List (String × Json) → List (String × Json)
  | [] => [(name, value)]
  | (k, v) :: rest =>
      if k = name then (name, value) :: rest
      else if name < k then (name, value) :: (k, v) :: rest
      else (k, v) :: insert name value rest

/-- The member of a value, if that is an object and has it. -/
def member? (j : Json) (name : String) : Option Json :=
  match j with
  | .object members => find? name members
  | _ => none

/-- An object from its members in any order; a later one replaces an earlier one
of its name. -/
def ofMembers (members : List (String × Json)) : Json :=
  .object (members.foldl (fun sorted (k, v) => insert k v sorted) [])

/-! ## Sorted objects -/

mutual

/-- The value with its objects sorted, as they are once it is read. -/
def sorted : Json → Json
  | .array items => .array (sortedItems items)
  | .object members => ofMembers (sortedMembers members)
  | j => j

def sortedItems : List Json → List Json
  | [] => []
  | item :: rest => sorted item :: sortedItems rest

def sortedMembers : List (String × Json) → List (String × Json)
  | [] => []
  | (name, value) :: rest => (name, sorted value) :: sortedMembers rest

end

/-! ## Values of other types -/

def ofInt (n : Int) : Json :=
  .number (.integer n)

def ofNat (n : Nat) : Json :=
  ofInt n

/-- A finite double as a number; JSON has no others. -/
def ofFloat (x : Float) : Json :=
  if x.isFinite then .number (.double x) else .null

def ofOption {α : Type} (f : α → Json) : Option α → Json
  | none => .null
  | some a => f a

def ofList {α : Type} (f : α → Json) (items : List α) : Json :=
  .array (items.map f)

end Json

end DiceFormula
