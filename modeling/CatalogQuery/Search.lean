import CatalogQuery.Query.Basic

/-!
# Searching constraints

A search visits the nodes of a tree in the order in which they are written, a
node before its children. It may stop at nodes that satisfy a condition: such a
node is still visited, but its children are not. The root never stops it; it is
known by where it stands.
-/

namespace CatalogQuery

namespace Constraint

variable {c : Category}

theorem sizeAll_append (first second : List (Constraint c)) :
    sizeAll (first ++ second) = sizeAll first + sizeAll second := by
  induction first with
  | nil => simp [sizeAll]
  | cons node rest ih => simp [sizeAll, ih, Nat.add_assoc]

theorem size_eq (node : Constraint c) : node.size = sizeAll node.children + 1 := by
  cases node
  simp [size, children]

end Constraint

/-- A node of a tree and the way to it: its place among the children of the node
above it, then the place of that node, and so on up to the root. -/
structure Spot (c : Category) where
  way : List Nat
  node : Constraint c

namespace Spot

open Constraint (sizeAll sizeAll_append)

variable {c : Category}

def root (tree : Constraint c) : Spot c := ⟨[], tree⟩

def isRoot (spot : Spot c) : Bool := spot.way.isEmpty

/-- The children of the node, where they stand. -/
def below (spot : Spot c) : List (Spot c) :=
  spot.node.children.mapIdx fun place child => ⟨place :: spot.way, child⟩

/-- What becomes due once the node has been visited. -/
def dueAfter (stop : Constraint c → Bool) (spot : Spot c) : List (Spot c) :=
  if spot.isRoot || !stop spot.node then spot.below else []

/-- Puts spots on a stack, the last one first. -/
def push (spots stack : List (Spot c)) : List (Spot c) :=
  spots.reverse.foldl (fun stack spot => spot :: stack) stack

/-- One step of a search: the spot on top of the stack is visited, and what becomes
due after it is put on the stack. -/
def advance (stop : Constraint c → Bool) : List (Spot c) → Option (Spot c × List (Spot c))
  | [] => none
  | top :: stack => some (top, push (top.dueAfter stop) stack)

/-- The number of nodes that may still be visited. -/
def weight (stack : List (Spot c)) : Nat := sizeAll (stack.map node)

theorem push_eq (spots stack : List (Spot c)) : push spots stack = spots ++ stack := by
  rw [push, List.foldl_flip_cons_eq_append', List.reverse_reverse]

theorem node_below (spot : Spot c) : spot.below.map node = spot.node.children := by
  apply List.ext_getElem <;> simp [below]

theorem weight_dueAfter_lt (stop : Constraint c → Bool) (spot : Spot c) :
    weight (spot.dueAfter stop) < spot.node.size := by
  have children : weight spot.below < spot.node.size := by
    rw [weight, node_below, Constraint.size_eq]
    exact Nat.lt_succ_self _
  rw [dueAfter]
  split
  · exact children
  · exact Nat.lt_of_le_of_lt (Nat.zero_le _) children

theorem weight_advance_lt {stop : Constraint c → Bool} {stack stack' : List (Spot c)}
    {spot : Spot c} (h : advance stop stack = some (spot, stack')) :
    weight stack' < weight stack := by
  cases stack with
  | nil => cases h
  | cons top stack =>
    have fewer := weight_dueAfter_lt stop top
    simp only [advance, Option.some.injEq, Prod.mk.injEq] at h
    rw [← h.2, push_eq]
    simp only [weight, List.map_append, sizeAll_append, List.map_cons, sizeAll] at *
    omega

def walk (stop : Constraint c → Bool) (stack : List (Spot c)) : List (Spot c) :=
  match h : advance stop stack with
  | none => []
  | some (spot, stack') =>
    have := weight_advance_lt h
    spot :: walk stop stack'
  termination_by weight stack

end Spot

namespace Constraint

variable {c : Category}

/-- The nodes that a search from a root visits, in order. -/
def visits (stop : Constraint c → Bool) (root : Constraint c) : List (Constraint c) :=
  (Spot.walk stop [Spot.root root]).map Spot.node

mutual

/-- The nodes of a tree in the order in which they are written, without those
below a node that stops. -/
def preorder (stop : Constraint c → Bool) : Constraint c → List (Constraint c)
  | .node kind arguments children =>
    .node kind arguments children
      :: (if stop (.node kind arguments children) then [] else preorderAll stop children)

def preorderAll (stop : Constraint c → Bool) : List (Constraint c) → List (Constraint c)
  | [] => []
  | first :: rest => preorder stop first ++ preorderAll stop rest

end

def findAll (stop want : Constraint c → Bool) (root : Constraint c) : List (Constraint c) :=
  (root.visits stop).filter want

def findFirst? (stop want : Constraint c → Bool) (root : Constraint c) : Option (Constraint c) :=
  (root.visits stop).find? want

def everywhere (_ : Constraint c) : Bool := false

end Constraint

namespace Query

def findInFilter? (q : Query) (want : FilterConstraint → Bool) : Option FilterConstraint :=
  q.filterBy.bind (·.findFirst? Constraint.everywhere want)

def findInOrder? (q : Query) (want : OrderConstraint → Bool) : Option OrderConstraint :=
  q.orderBy.bind (·.findFirst? Constraint.everywhere want)

/-- The first node of the require tree that satisfies a condition, not looking
into the containers below its root. -/
def findInRequire? (q : Query) (want : RequireConstraint → Bool) : Option RequireConstraint :=
  q.require.bind (·.findFirst? Constraint.isContainer want)

end Query
end CatalogQuery
