/-!
# CommandSyntax.Json

**JSON values** and how they are taken apart.

A value that is taken from another one comes with the proof that it is smaller
(`Json.Inside`), so a decoder may recurse on it without further argument.

A record is written as an object with a member for each field. Other members are
ignored, and so is the order. A record may also be written as an array of its
fields, in the order of its layout: the array leaves out the fields after its last
item, and has no items beyond the layout.
-/

namespace CommandSyntax

/-- A JSON value. The names of the members of an object are distinct. -/
inductive Json where
  /-- The null value. -/
  | null
  /-- A truth value. -/
  | bool (value : Bool)
  /-- A number written without fraction and exponent. -/
  | integer (value : Int)
  /-- Any other number, as written. -/
  | decimal (text : String)
  /-- A text. -/
  | string (text : String)
  /-- A sequence of values. -/
  | array (items : List Json)
  /-- A set of named members. -/
  | object (members : List (String × Json))

namespace Json

/-- A value inside another one. -/
abbrev Inside (whole : Json) : Type := { value : Json // sizeOf value < sizeOf whole }

/-! ### Plain values -/

/-- The offsets and counts that can be written: those below this bound. -/
def offsetBound : Nat := Nat.pow 2 64

/-- The number of an integer that is an offset or a count. -/
def offset? : Json → Option Nat
  | integer value => if 0 ≤ value ∧ value < offsetBound then some value.toNat else none
  | _ => none

/-- The text of a string. -/
def string? : Json → Option String
  | string text => some text
  | _ => none

/-- The value of a truth value. -/
def bool? : Json → Option Bool
  | bool value => some value
  | _ => none

/-- Whether a value is null. -/
def isNull : Json → Bool
  | null => true
  | _ => false

/-! ### Values inside values -/

theorem sizeOf_lt_of_mem_items {items : List Json} {value : Json} (h : value ∈ items) :
    sizeOf value < sizeOf (array items) := by
  have := List.sizeOf_lt_of_mem h
  simp only [array.sizeOf_spec]
  omega

theorem sizeOf_lt_of_mem_members {members : List (String × Json)} {name : String}
    {value : Json} (h : (name, value) ∈ members) :
    sizeOf value < sizeOf (object members) := by
  have := List.sizeOf_lt_of_mem h
  simp only [object.sizeOf_spec, Prod.mk.sizeOf_spec] at *
  omega

/-- The items of an array. -/
def items? : (json : Json) → Option (List json.Inside)
  | array items => some (items.attach.map fun item => ⟨item.1, sizeOf_lt_of_mem_items item.2⟩)
  | _ => none

/-- The members of an object. -/
def members? : (json : Json) → Option (List (String × json.Inside))
  | object members =>
    some (members.attach.map fun member =>
      (member.1.1, ⟨member.1.2, sizeOf_lt_of_mem_members member.2⟩))
  | _ => none

/-- The fields that a record with some layout has a value for, by name. -/
def fields? (layout : List String) (json : Json) : Option (List (String × json.Inside)) :=
  match json.members?, json.items? with
  | some members, _ => some members
  | none, some items => if items.length ≤ layout.length then some (layout.zip items) else none
  | none, none => none

/-- The value of a field of a record with some layout, or `none` when the record
leaves it out. -/
def field? (layout : List String) (name : String) (json : Json) : Option json.Inside := do
  (← json.fields? layout).lookup name

/-- The items of an array inside a value. -/
def Inside.items? {whole : Json} (value : whole.Inside) : Option (List whole.Inside) :=
  value.1.items?.map fun items =>
    items.map fun item => ⟨item.1, Nat.lt_trans item.2 value.2⟩

/-- What a value that may be absent stands for: a value that is left out and null
stand for nothing. -/
def optional? {α : Type} {whole : Json} (read : whole.Inside → Option α) :
    Option whole.Inside → Option (Option α)
  | none => some none
  | some value => if value.1.isNull then some none else (read value).map some

/-- The name and the content of a value that says which of several forms it has,
by being an object with a single member. -/
def form? (json : Json) : Option (String × json.Inside) :=
  match json.members? with
  | some [member] => some member
  | _ => none

/-- The name of a form without content: a string, or a single member that is null. -/
def emptyForm? (json : Json) : Option String :=
  match json with
  | string name => some name
  | object [(name, null)] => some name
  | _ => none

end Json

end CommandSyntax
