import EntityGraph.Value

/-!
# Kinds of atomic properties

Every atomic property declares one of five kinds. `AtomicKind.coerce?` turns an assigned or loaded
value into the declared kind, or refuses it.

* `coerce?_null` — null belongs to every kind;
* `coerce?_holds` — a coerced value is null or of the form that its kind is stored in;
* `coerce?_of_holds` — a value of that form stays as it is.
-/

namespace EntityGraph

/-- What an atomic property holds. A `datetime` is kept as text. -/
inductive AtomicKind where
  | string
  | int
  | float
  | bool
  | datetime
  deriving DecidableEq, Repr, Inhabited

namespace AtomicKind

/-- The name of a kind in messages. -/
def name : AtomicKind → String
  | string => "string"
  | int => "int"
  | float => "float"
  | bool => "bool"
  | datetime => "datetime"

/-- Reads the name of a kind in any case; some kinds have a second name. -/
def parse? (s : String) : Option AtomicKind :=
  match Text.lower s with
  | "string" => some string
  | "int" | "integer" => some int
  | "float" | "double" => some float
  | "bool" | "boolean" => some bool
  | "datetime" => some datetime
  | _ => none

/-- A whole number brought into the range of a 64-bit word. -/
def clampWord (n : Int) : Int64 :=
  Int64.ofIntClamp n

/-- The text forms of truth values. -/
def parseBool? : String → Option Bool
  | "1" | "true" | "TRUE" => some true
  | "0" | "false" | "FALSE" | "" => some false
  | _ => none

/-- A value as a whole number: truth values count as one and zero, and a double must be whole. -/
def toInt? : Value → Option Int64
  | .int n => some n
  | .bool b => some (if b then 1 else 0)
  | .float x => x.toInt?.map clampWord
  | .text s => Value.parseInt? (Text.trim s)
  | .null => none

/-- A value as a double. -/
def toFloat? : Value → Option Binary64
  | .float x => some x
  | .int n => some (Binary64.ofInt n.toInt)
  | .text s => Binary64.parse? (Text.trim s)
  | .bool _ => none
  | .null => none

/-- A value as a truth value. -/
def toBool? : Value → Option Bool
  | .bool b => some b
  | .int n => some (n != 0)
  | .text s => parseBool? (Text.trim s)
  | .float _ => none
  | .null => none

/-- A value as a value of a kind, if it can represent one. Null is a value of every kind. -/
def coerce? (k : AtomicKind) (v : Value) : Option Value :=
  if v.isNull then some .null
  else match k with
    | string | datetime => some (.text v.toText)
    | int => (toInt? v).map .int
    | float => (toFloat? v).map .float
    | bool => (toBool? v).map .bool

/-- The form in which a kind stores its values. -/
def Holds (k : AtomicKind) : Value → Prop
  | .null => True
  | .text _ => k = string ∨ k = datetime
  | .int _ => k = int
  | .float _ => k = float
  | .bool _ => k = bool

instance (k : AtomicKind) : DecidablePred k.Holds
  | .null => .isTrue trivial
  | .text _ => inferInstanceAs (Decidable (k = string ∨ k = datetime))
  | .int _ => inferInstanceAs (Decidable (k = int))
  | .float _ => inferInstanceAs (Decidable (k = float))
  | .bool _ => inferInstanceAs (Decidable (k = bool))

/-- Null is a value of every kind. -/
@[simp] theorem coerce?_null (k : AtomicKind) : k.coerce? .null = some .null := rfl

/-- Coercion ends in the form that the kind stores. -/
theorem coerce?_holds {k : AtomicKind} {v w : Value} (h : k.coerce? v = some w) : k.Holds w := by
  unfold coerce? at h
  split at h
  · obtain rfl := Option.some.inj h
    trivial
  · cases k with
    | string => exact Option.some.inj h ▸ .inl rfl
    | datetime => exact Option.some.inj h ▸ .inr rfl
    | int => obtain ⟨_, _, rfl⟩ := Option.map_eq_some_iff.1 h; rfl
    | float => obtain ⟨_, _, rfl⟩ := Option.map_eq_some_iff.1 h; rfl
    | bool => obtain ⟨_, _, rfl⟩ := Option.map_eq_some_iff.1 h; rfl

/-- A value in the form of a kind is converted to itself. -/
theorem coerce?_of_holds {k : AtomicKind} {v : Value} (h : k.Holds v) :
    k.coerce? v = some v := by
  cases v with
  | null => rfl
  | text s => rcases h with rfl | rfl <;> rfl
  | int n => obtain rfl : k = .int := h; rfl
  | float x => obtain rfl : k = .float := h; rfl
  | bool b => obtain rfl : k = .bool := h; rfl

end AtomicKind

end EntityGraph
