import CatalogQuery.Literal.Basic

namespace CatalogQuery

/-- The families of constraints. -/
inductive Category
  | head
  | filter
  | order
  | require
  deriving DecidableEq, Repr

namespace Category

def name : Category → String
  | .head => "head"
  | .filter => "filter"
  | .order => "order"
  | .require => "require"

/-- Every category, in the order in which keywords are looked up. -/
def all : List Category := [.head, .filter, .order, .require]

def ofName? (name : String) : Option Category := all.find? (·.name == name)

theorem ofName?_name (c : Category) : ofName? c.name = some c := by cases c <;> decide

end Category

/-- What a shape sees of one argument: the literal, or the category of a nested
constraint. -/
inductive Slot
  | literal (value : Literal)
  | constraint (category : Category)

namespace Slot

def isValue : Slot → Bool
  | .literal _ => true
  | .constraint _ => false

/-- A string, which names something. -/
def isName : Slot → Bool
  | .literal (.string _) => true
  | _ => false

def isInt : Slot → Bool
  | .literal (.int _) => true
  | _ => false

/-- A nested constraint of a category. -/
def isOf (category : Category) : Slot → Bool
  | .constraint c => c == category
  | .literal _ => false

end Slot

/-- A layout of arguments. -/
inductive Shape
  | empty
  | name
  | nameWithValue
  | nameWithValueList
  | nameWithBetweenValues
  | value
  | valueList
  | betweenValues
  | nameList
  | valueWithNameList
  | entityTypeWithValueList
  | entityTypeWithFilter
  | entityTypeWithOrderList
  | entityTypeWithRequireList
  | entityTypesWithRequireList
  | filterList
  | singleFilter
  | orderList
  | requireList
  | hierarchyWithin
  | hierarchyWithinRoot
  deriving DecidableEq, Repr

namespace Shape

def all : List Shape :=
  [.empty, .name, .nameWithValue, .nameWithValueList, .nameWithBetweenValues, .value,
    .valueList, .betweenValues, .nameList, .valueWithNameList, .entityTypeWithValueList,
    .entityTypeWithFilter, .entityTypeWithOrderList, .entityTypeWithRequireList,
    .entityTypesWithRequireList, .filterList, .singleFilter, .orderList, .requireList,
    .hierarchyWithin, .hierarchyWithinRoot]

/-- The name under which a shape is listed. -/
def title : Shape → String
  | .empty => "Empty"
  | .name => "Name"
  | .nameWithValue => "NameWithValue"
  | .nameWithValueList => "NameWithValueList"
  | .nameWithBetweenValues => "NameWithBetweenValues"
  | .value => "Value"
  | .valueList => "ValueList"
  | .betweenValues => "BetweenValues"
  | .nameList => "NameList"
  | .valueWithNameList => "ValueWithNameList"
  | .entityTypeWithValueList => "EntityTypeWithValueList"
  | .entityTypeWithFilter => "EntityTypeWithFilter"
  | .entityTypeWithOrderList => "EntityTypeWithOrderList"
  | .entityTypeWithRequireList => "EntityTypeWithRequireList"
  | .entityTypesWithRequireList => "EntityTypesWithRequireList"
  | .filterList => "FilterList"
  | .singleFilter => "SingleFilter"
  | .orderList => "OrderList"
  | .requireList => "RequireList"
  | .hierarchyWithin => "HierarchyWithin"
  | .hierarchyWithinRoot => "HierarchyWithinRoot"

def describe : Shape → String
  | .empty => "no arguments"
  | .name => "(name)"
  | .nameWithValue => "(name, value)"
  | .nameWithValueList => "(name, value, ...)"
  | .nameWithBetweenValues => "(name, from, to)"
  | .value => "(value)"
  | .valueList => "(value, ...)"
  | .betweenValues => "(from, to)"
  | .nameList => "(name, ...)"
  | .valueWithNameList => "(value, name, ...)"
  | .entityTypeWithValueList => "(entityType, value, ...)"
  | .entityTypeWithFilter => "(entityType, filterConstraint)"
  | .entityTypeWithOrderList => "(entityType, orderConstraint, ...)"
  | .entityTypeWithRequireList => "(entityType, requireConstraint, ...)"
  | .entityTypesWithRequireList => "(entityType, ..., requireConstraint, ...)"
  | .filterList => "(filterConstraint, ...)"
  | .singleFilter => "(filterConstraint)"
  | .orderList => "(orderConstraint, ...)"
  | .requireList => "(requireConstraint, ...)"
  | .hierarchyWithin => "([entityType,] primaryKey, filterConstraint, ...)"
  | .hierarchyWithinRoot => "([entityType,] filterConstraint, ...)"

def describeAll (shapes : List Shape) : String := " or ".intercalate (shapes.map describe)

/-- At least one slot, and each as the test wants it. -/
def many (test : Slot → Bool) (slots : List Slot) : Bool := !slots.isEmpty && slots.all test

def one (test : Slot → Bool) : List Slot → Bool
  | [slot] => test slot
  | _ => false

def two (first second : Slot → Bool) : List Slot → Bool
  | [a, b] => first a && second b
  | _ => false

/-- A slot as the first test wants it, and more as the tail test wants them. -/
def followedBy (first : Slot → Bool) (tail : List Slot → Bool) : List Slot → Bool
  | [] => false
  | slot :: rest => first slot && tail rest

/-- The literals a list of slots starts with, and the slots after them. -/
def splitLiterals (slots : List Slot) : List Slot × List Slot :=
  (slots.takeWhile Slot.isValue, slots.dropWhile Slot.isValue)

/-- Whether the leading literals end with a primary key, which is a whole number
and has at most one literal before it. -/
def endsWithKey : List Slot → Bool
  | [key] => key.isInt
  | [_, key] => key.isInt
  | _ => false

/-- Whether slots have the layout of a shape. In a hierarchy a leading literal is
the entity type only if the primary key follows it. -/
def fits (shape : Shape) (slots : List Slot) : Bool :=
  match shape with
  | .empty => slots.isEmpty
  | .name => one Slot.isName slots
  | .nameWithValue => two Slot.isName Slot.isValue slots
  | .nameWithValueList => followedBy Slot.isName (many Slot.isValue) slots
  | .nameWithBetweenValues => followedBy Slot.isName (two Slot.isValue Slot.isValue) slots
  | .value => one Slot.isValue slots
  | .valueList => many Slot.isValue slots
  | .betweenValues => two Slot.isValue Slot.isValue slots
  | .nameList => many Slot.isName slots
  | .valueWithNameList => followedBy Slot.isValue (many Slot.isName) slots
  | .entityTypeWithValueList => followedBy Slot.isValue (many Slot.isValue) slots
  | .entityTypeWithFilter => two Slot.isValue (Slot.isOf .filter) slots
  | .entityTypeWithOrderList => followedBy Slot.isValue (many (Slot.isOf .order)) slots
  | .entityTypeWithRequireList => followedBy Slot.isValue (many (Slot.isOf .require)) slots
  | .entityTypesWithRequireList =>
    let (literals, rest) := splitLiterals slots
    !literals.isEmpty && rest.all (Slot.isOf .require)
  | .filterList => many (Slot.isOf .filter) slots
  | .singleFilter => one (Slot.isOf .filter) slots
  | .orderList => many (Slot.isOf .order) slots
  | .requireList => many (Slot.isOf .require) slots
  | .hierarchyWithin =>
    let (literals, rest) := splitLiterals slots
    endsWithKey literals && rest.all (Slot.isOf .filter)
  | .hierarchyWithinRoot =>
    let (literals, rest) := splitLiterals slots
    literals.length ≤ 1 && rest.all (Slot.isOf .filter)

def slotsOf (category : Category) (arguments : List Literal) (children : Nat) : List Slot :=
  arguments.map Slot.literal ++ List.replicate children (.constraint category)

/-- Whether a constraint with these arguments and this many children has the
layout of a shape. -/
def fitsParts (shape : Shape) (category : Category) (arguments : List Literal)
    (children : Nat) : Bool :=
  shape.fits (slotsOf category arguments children)

end Shape
end CatalogQuery
