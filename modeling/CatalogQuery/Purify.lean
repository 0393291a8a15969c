import CatalogQuery.Query.Basic

/-!
# Purification

Purification takes out of a tree what no longer constrains anything. The
children of a node come first. Then a hook may keep, replace or remove the node.
Then the node is dropped if it is not applicable, and last a junction of a single
child is replaced by the child.

The outcome tells apart a node that stayed as it was, a node taken from inside
the tree as it stood there, and a node that was built anew.
-/

namespace CatalogQuery

/-- What a hook says about a node. -/
inductive Ruling (c : Category)
  | keep
  | replace (node : Constraint c)
  | remove

/-- How trees of one category are purified. -/
structure Purifier (c : Category) where
  /-- Whether a junction of a single child gives way to the child. -/
  collapse : Bool
  hook : Option (Constraint c → Ruling c)

/-- What purification makes of a node. -/
inductive Outcome (c : Category)
  /-- Nothing is left. -/
  | vanished
  /-- The node stayed as it was. -/
  | unchanged
  /-- A node below it took its place, as it stood there. -/
  | inner (node : Constraint c)
  /-- A node that was built anew took its place. -/
  | rebuilt (node : Constraint c)

namespace Outcome

variable {c : Category}

def result (before : Constraint c) : Outcome c → Option (Constraint c)
  | .vanished => none
  | .unchanged => some before
  | .inner node => some node
  | .rebuilt node => some node

def isUnchanged : Outcome c → Bool
  | .unchanged => true
  | _ => false

def results : List (Constraint c) → List (Outcome c) → List (Constraint c)
  | before :: rest, outcome :: outcomes =>
    (outcome.result before).toList ++ results rest outcomes
  | _, _ => []

end Outcome

namespace Constraint

variable {c : Category}

/-- The only child of a junction that says no more than the child. -/
def soleChild? : Constraint c → Option (Constraint c)
  | .node kind [] [child] => if kind.isCollapsible then some child else none
  | _ => none

end Constraint

namespace Purifier

variable {c : Category}

/-- The answer of the hook; without a hook all is kept. -/
def ask (p : Purifier c) (node : Constraint c) : Ruling c :=
  match p.hook with
  | some hook => hook node
  | none => .keep

/-- The last two steps for a node, which may have been built anew: drop it or
replace it by its only child. -/
def settle (p : Purifier c) (node : Constraint c) (isNew : Bool) : Outcome c :=
  if !node.isApplicable then .vanished
  else
    match if p.collapse then node.soleChild? else none with
    | some child => if isNew then .rebuilt child else .inner child
    | none => if isNew then .rebuilt node else .unchanged

/-- All steps for a node whose children are purified. -/
def conclude (p : Purifier c) (node : Constraint c) (isNew : Bool) : Outcome c :=
  match p.ask node with
  | .keep => p.settle node isNew
  | .replace other => p.settle other true
  | .remove => .vanished

/-- The node with purified children, and whether any of them changed. Only
containers have their children purified. -/
def renew (node : Constraint c) (outcomes : List (Outcome c)) : Constraint c × Bool :=
  if node.isContainer && !outcomes.all Outcome.isUnchanged then
    (node.withChildren (Outcome.results node.children outcomes), true)
  else (node, false)

mutual

def outcome (p : Purifier c) : Constraint c → Outcome c
  | .node kind arguments children =>
    let (node, isNew) := renew (.node kind arguments children) (outcomes p children)
    p.conclude node isNew

def outcomes (p : Purifier c) : List (Constraint c) → List (Outcome c)
  | [] => []
  | first :: rest => outcome p first :: outcomes p rest

end

/-- A purified tree, if anything is left of it. -/
def purify (p : Purifier c) (tree : Constraint c) : Option (Constraint c) :=
  (p.outcome tree).result tree

mutual

/-- The nodes that the hook is asked about, in order. -/
def seen (p : Purifier c) : Constraint c → List (Constraint c)
  | .node kind arguments children =>
    let (node, _) := renew (.node kind arguments children) (outcomes p children)
    (if kind.isContainer then seenAll p children else []) ++ [node]

def seenAll (p : Purifier c) : List (Constraint c) → List (Constraint c)
  | [] => []
  | first :: rest => seen p first ++ seenAll p rest

end

end Purifier

structure QueryPurifier where
  collapse : Bool
  filterHook : Option (FilterConstraint → Ruling .filter)
  orderHook : Option (OrderConstraint → Ruling .order)
  requireHook : Option (RequireConstraint → Ruling .require)

namespace QueryPurifier

/-- A purifier without hooks. -/
def plain (collapse : Bool) : QueryPurifier := ⟨collapse, none, none, none⟩

/-- How trees of a category are purified; heads have no hook. -/
def on (p : QueryPurifier) : (c : Category) → Purifier c
  | .head => ⟨p.collapse, none⟩
  | .filter => ⟨p.collapse, p.filterHook⟩
  | .order => ⟨p.collapse, p.orderHook⟩
  | .require => ⟨p.collapse, p.requireHook⟩

/-- Whether a tree, if there is one, stays as it is. -/
def keeps (p : QueryPurifier) {c : Category} (tree : Option (Constraint c)) : Bool :=
  tree.all fun tree => ((p.on c).outcome tree).isUnchanged

/-- A purified query, if anything changed. -/
def purify? (p : QueryPurifier) (q : Query) : Option Query :=
  if p.keeps q.filterBy && p.keeps q.orderBy && p.keeps q.require then none
  else
    some
      { head := q.head
        filterBy := q.filterBy.bind (p.on .filter).purify
        orderBy := q.orderBy.bind (p.on .order).purify
        require := q.require.bind (p.on .require).purify }

def purify (p : QueryPurifier) (q : Query) : Query := (p.purify? q).getD q

end QueryPurifier
end CatalogQuery
