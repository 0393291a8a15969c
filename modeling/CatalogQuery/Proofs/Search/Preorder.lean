import CatalogQuery.Proofs.Purify.Survivors

/-!
# The order of a search

A search takes spots from a stack and puts the children of each on it, the last one first, so
what is still to come is always what stands on the stack, one spot after the other, each with
what is below it. That is the order in which the nodes are written.

* `Spot.enumeration`: the spots that a search is to visit, by recursion on the tree;
* `Spot.Run`: a run of the stack from its start until nothing is left;
* `Spot.advance_enumerates`: what a step does to what is still to come;
* `Spot.Run.visited_eq`: from it, what a whole run visits;
* `search_is_preorder`: what is found, and that each node is visited once.
-/

namespace CatalogQuery

variable {c : Category}

/-- The node at the end of a way, which is read from its end. -/
def Constraint.follow? (tree : Constraint c) : List Nat → Option (Constraint c)
  | [] => some tree
  | place :: above => (tree.follow? above).bind (·.children[place]?)

namespace Spot

open Constraint (preorder preorderAll)

variable (stop : Constraint c → Bool)

mutual

/-- The spots of a tree to which a way leads, in the order in which its nodes are written,
without those below a node that stops. -/
def spots (way : List Nat) : Constraint c → List (Spot c)
  | .node kind arguments children =>
    ⟨way, .node kind arguments children⟩
      :: (if stop (.node kind arguments children) then [] else spotsAll way 0 children)

/-- The spots of trees that stand below a node from a place on. -/
def spotsAll (above : List Nat) (place : Nat) : List (Constraint c) → List (Spot c)
  | [] => []
  | first :: rest => spots (place :: above) first ++ spotsAll above (place + 1) rest

end

/-- The spots that a search is to visit: the root, and the spots of its children whether the
root would stop or not. -/
def enumeration (tree : Constraint c) : List (Spot c) :=
  root tree :: spotsAll stop [] 0 tree.children

/-- A run of a search: the stack it starts with and the spots it visits until nothing is left
on the stack. -/
inductive Run : List (Spot c) → List (Spot c) → Prop
  | ended {stack : List (Spot c)} : advance stop stack = none → Run stack []
  | step {stack stack' visited : List (Spot c)} {spot : Spot c} :
    advance stop stack = some (spot, stack') → Run stack' visited → Run stack (spot :: visited)

variable {stop}

theorem mem_spotsAll {above : List Nat} {place : Nat} {trees : List (Constraint c)} {spot : Spot c}
    (h : spot ∈ spotsAll stop above place trees) :
    ∃ i tree, trees[i]? = some tree ∧ spot ∈ spots stop ((place + i) :: above) tree := by
  induction trees generalizing place with
  | nil => cases h
  | cons first rest ih =>
    rw [spotsAll, List.mem_append] at h
    rcases h with here | later
    · exact ⟨0, first, rfl, here⟩
    · obtain ⟨i, tree, found, mem⟩ := ih later
      refine ⟨i + 1, tree, found, ?_⟩
      rwa [Nat.add_right_comm, Nat.add_assoc] at mem

theorem mem_spots {way : List Nat} {tree : Constraint c} {spot : Spot c}
    (h : spot ∈ spots stop way tree) :
    spot = ⟨way, tree⟩ ∨ spot ∈ spotsAll stop way 0 tree.children := by
  obtain ⟨kind, arguments, children⟩ := tree
  rw [spots, List.mem_cons] at h
  refine h.imp_right fun below => ?_
  split at below
  · cases below
  · exact below

/-! ### The loop -/

variable (stop)

/-- All that is visited because of a spot on the stack. -/
def visitedFrom (spot : Spot c) : List (Spot c) :=
  if spot.isRoot then enumeration stop spot.node else spots stop spot.way spot.node

theorem flatMap_spots (above : List Nat) (place : Nat) (trees : List (Constraint c)) :
    (trees.mapIdx fun i tree => (⟨(place + i) :: above, tree⟩ : Spot c)).flatMap
      (visitedFrom stop) = spotsAll stop above place trees := by
  induction trees generalizing place with
  | nil => rfl
  | cons first rest ih =>
    have later : (rest.mapIdx fun i tree => (⟨(place + (i + 1)) :: above, tree⟩ : Spot c)) =
        rest.mapIdx fun i tree => ⟨(place + 1 + i) :: above, tree⟩ := by
      simp only [Nat.add_comm, Nat.add_left_comm]
    rw [List.mapIdx_cons, List.flatMap_cons, later, ih, spotsAll]
    rfl

theorem flatMap_below (spot : Spot c) :
    spot.below.flatMap (visitedFrom stop) = spotsAll stop spot.way 0 spot.node.children := by
  rw [← flatMap_spots stop spot.way 0, below]
  simp only [Nat.zero_add]

/-- A spot is visited, and then all that its visit makes due. -/
theorem visitedFrom_eq (spot : Spot c) :
    visitedFrom stop spot = spot :: (spot.dueAfter stop).flatMap (visitedFrom stop) := by
  obtain ⟨way, kind, arguments, children⟩ := spot
  cases way with
  | nil =>
    have outer : isRoot (⟨[], .node kind arguments children⟩ : Spot c) = true := rfl
    rw [dueAfter, outer, Bool.true_or, if_pos rfl, flatMap_below]
    rfl
  | cons place above =>
    have inner : isRoot (⟨place :: above, .node kind arguments children⟩ : Spot c) = false := rfl
    rw [visitedFrom, dueAfter, inner, if_neg Bool.false_ne_true, Bool.false_or, spots]
    cases stop (.node kind arguments children) with
    | true => rfl
    | false =>
      rw [Bool.not_false, if_pos rfl, flatMap_below]
      rfl

/-- **A step of a search** visits the first spot of what is still to come, and leaves the rest
to come. -/
theorem advance_enumerates {stack stack' : List (Spot c)} {spot : Spot c}
    (h : advance stop stack = some (spot, stack')) :
    stack.flatMap (visitedFrom stop) = spot :: stack'.flatMap (visitedFrom stop) := by
  cases stack with
  | nil => cases h
  | cons top stack =>
    simp only [advance, Option.some.injEq, Prod.mk.injEq] at h
    obtain ⟨rfl, rfl⟩ := h
    rw [push_eq, List.flatMap_cons, visitedFrom_eq, List.flatMap_append, List.cons_append]

theorem advance_eq_none {stack : List (Spot c)} (h : advance stop stack = none) : stack = [] := by
  cases stack with
  | nil => rfl
  | cons top stack => cases h

theorem walk_ended {stack : List (Spot c)} (h : advance stop stack = none) :
    walk stop stack = [] := by
  rw [walk]
  split
  · rfl
  · simp_all

theorem walk_next {stack stack' : List (Spot c)} {spot : Spot c}
    (h : advance stop stack = some (spot, stack')) :
    walk stop stack = spot :: walk stop stack' := by
  rw [walk]
  split <;> simp_all

/-- The run of a search from any stack. -/
theorem run_walk (stack : List (Spot c)) : Run stop stack (walk stop stack) := by
  induction stack using walk.induct stop with
  | case1 stack ended =>
    rw [walk_ended stop ended]
    exact .ended ended
  | case2 stack spot stack' next _ ih =>
    rw [walk_next stop next]
    exact .step next ih

variable {stop}

/-- **A run of a search** visits what is to come at its start. -/
theorem Run.visited_eq {stack visited : List (Spot c)} (run : Run stop stack visited) :
    visited = stack.flatMap (visitedFrom stop) := by
  induction run with
  | ended none =>
    rw [advance_eq_none stop none]
    rfl
  | step next _ ih => rw [advance_enumerates stop next, ih]

theorem walk_root (tree : Constraint c) : walk stop [root tree] = enumeration stop tree := by
  rw [(run_walk stop [root tree]).visited_eq, List.flatMap_singleton]
  rfl

/-! ### The enumeration -/

/-- The way to a spot of a tree goes on from the way to the tree. -/
theorem way_of_mem_spots {way : List Nat} {tree : Constraint c} {spot : Spot c}
    (h : spot ∈ spots stop way tree) : way <:+ spot.way := by
  induction tree using Constraint.induct generalizing way with
  | node kind arguments children ih =>
    rcases mem_spots h with rfl | below
    · exact List.suffix_rfl
    · obtain ⟨i, child, found, mem⟩ := mem_spotsAll below
      exact (List.suffix_cons _ way).trans (ih child (List.mem_of_getElem? found) mem)

theorem way_of_mem_spotsAll {above : List Nat} {place : Nat} {trees : List (Constraint c)}
    {spot : Spot c} (h : spot ∈ spotsAll stop above place trees) :
    ∃ i, place ≤ i ∧ i :: above <:+ spot.way := by
  obtain ⟨i, tree, -, mem⟩ := mem_spotsAll h
  exact ⟨place + i, Nat.le_add_right _ _, way_of_mem_spots mem⟩

/-- Ways that go on from different places are different. -/
theorem nodup_spotsAll {above : List Nat} {place : Nat} {trees : List (Constraint c)}
    (each : ∀ tree ∈ trees, ∀ way, ((spots stop way tree).map Spot.way).Nodup) :
    ((spotsAll stop above place trees).map Spot.way).Nodup := by
  induction trees generalizing place with
  | nil => exact List.nodup_nil
  | cons first rest ih =>
    rw [List.forall_mem_cons] at each
    rw [spotsAll, List.map_append, List.nodup_append]
    refine ⟨each.1 _, ih each.2, ?_⟩
    intro way hway way' hway'
    obtain ⟨spot, here, rfl⟩ := List.mem_map.mp hway
    obtain ⟨spot', later, rfl⟩ := List.mem_map.mp hway'
    intro same
    obtain ⟨i, le, further⟩ := way_of_mem_spotsAll later
    have own := way_of_mem_spots here
    rw [same] at own
    have places := (List.suffix_of_suffix_length_le own further le_rfl).eq_of_length rfl
    simp only [List.cons.injEq, and_true] at places
    omega

theorem not_mem_spotsAll (above : List Nat) (place : Nat) (trees : List (Constraint c)) :
    above ∉ (spotsAll stop above place trees).map Spot.way := by
  intro h
  obtain ⟨spot, mem, same⟩ := List.mem_map.mp h
  obtain ⟨i, -, further⟩ := way_of_mem_spotsAll mem
  have longer := further.length_le
  rw [same, List.length_cons] at longer
  omega

theorem nodup_spots (way : List Nat) (tree : Constraint c) :
    ((spots stop way tree).map Spot.way).Nodup := by
  induction tree using Constraint.induct generalizing way with
  | node kind arguments children ih =>
    rw [spots, List.map_cons]
    split
    · exact List.nodup_singleton _
    · exact (nodup_spotsAll fun child hc way => ih child hc way).cons
        (not_mem_spotsAll way 0 children)

/-- The way to a spot leads to its node. -/
theorem follow?_of_mem_spots {whole tree : Constraint c} {way : List Nat} {spot : Spot c}
    (leads : whole.follow? way = some tree) (h : spot ∈ spots stop way tree) :
    whole.follow? spot.way = some spot.node := by
  induction tree using Constraint.induct generalizing way with
  | node kind arguments children ih =>
    rcases mem_spots h with rfl | below
    · exact leads
    · obtain ⟨i, child, found, mem⟩ := mem_spotsAll below
      refine ih child (List.mem_of_getElem? found) ?_ mem
      rw [Constraint.follow?, leads, Option.bind_some, Nat.zero_add]
      exact found

theorem map_node_spots (way : List Nat) (tree : Constraint c) :
    (spots stop way tree).map node = preorder stop tree := by
  have all {trees : List (Constraint c)}
      (each : ∀ tree ∈ trees, ∀ way, (spots stop way tree).map node = preorder stop tree)
      (above : List Nat) (place : Nat) :
      (spotsAll stop above place trees).map node = preorderAll stop trees := by
    induction trees generalizing place with
    | nil => rfl
    | cons first rest ih =>
      rw [List.forall_mem_cons] at each
      rw [spotsAll, List.map_append, each.1, ih each.2, preorderAll]
  induction tree using Constraint.induct generalizing way with
  | node kind arguments children ih =>
    rw [spots, preorder, List.map_cons]
    split
    · rfl
    · rw [all fun child hc way => ih child hc way]

theorem map_node_spotsAll (above : List Nat) (place : Nat) (trees : List (Constraint c)) :
    (spotsAll stop above place trees).map node = trees.flatMap (preorder stop) := by
  induction trees generalizing place with
  | nil => rfl
  | cons first rest ih => rw [spotsAll, List.map_append, map_node_spots, ih, List.flatMap_cons]

theorem nodup_enumeration (tree : Constraint c) :
    ((enumeration stop tree).map Spot.way).Nodup :=
  (nodup_spotsAll fun child _ way => nodup_spots way child).cons (not_mem_spotsAll [] 0 _)

theorem follow?_of_mem_enumeration {tree : Constraint c} {spot : Spot c}
    (h : spot ∈ enumeration stop tree) : tree.follow? spot.way = some spot.node := by
  rcases List.mem_cons.mp h with rfl | below
  · rfl
  · obtain ⟨i, child, found, mem⟩ := mem_spotsAll below
    refine follow?_of_mem_spots ?_ mem
    rw [Constraint.follow?, Constraint.follow?, Option.bind_some, Nat.zero_add]
    exact found

end Spot

namespace Constraint

/-- The nodes that a search visits: the root, and each child with what is below it up to the
nodes that stop. -/
theorem visits_eq (stop : Constraint c → Bool) (root : Constraint c) :
    root.visits stop = root :: root.children.flatMap (preorder stop) := by
  rw [visits, Spot.walk_root, Spot.enumeration, List.map_cons, Spot.map_node_spotsAll]
  rfl

theorem visits_everywhere (root : Constraint c) : root.visits everywhere = root.nodes := by
  cases root
  rw [visits_eq, nodes_node]
  rfl

/-- Leaves without children are all there is below nodes that are no containers. -/
theorem preorder_isContainer {tree : Constraint c} (bare : tree.LeavesBare) :
    tree.preorder isContainer = [tree] := by
  obtain ⟨kind, arguments, children⟩ := tree
  rw [preorder]
  cases container : isContainer (.node kind arguments children) with
  | true => rfl
  | false =>
    cases bare.children_eq_nil container
    rfl

end Constraint

open Constraint (everywhere) in
/-- **A search visits the nodes in the order in which they are written**, each node once and the
children of a stopping node not at all, unless it is the root. It ends, and it finds what it
visits and wants. In the require tree it finds the first of the root and the children of the
root, if the leaves of the tree are bare. -/
theorem search_is_preorder :
    (∀ (c : Category) (stop want : Constraint c → Bool) (root : Constraint c),
      Spot.Run stop [Spot.root root] (Spot.enumeration stop root) ∧
      (∀ visited, Spot.Run stop [Spot.root root] visited → visited = Spot.enumeration stop root) ∧
      ((Spot.enumeration stop root).map Spot.way).Nodup ∧
      (∀ spot ∈ Spot.enumeration stop root, root.follow? spot.way = some spot.node) ∧
      root.findAll stop want = ((Spot.enumeration stop root).map Spot.node).filter want ∧
      root.findFirst? stop want = (root.findAll stop want).head? ∧
      root.findAll everywhere want = root.nodes.filter want ∧
      root.findFirst? everywhere want = (root.nodes.filter want).head?) ∧
    ∀ (q : Query) (want : RequireConstraint → Bool), (∀ root ∈ q.require, root.LeavesBare) →
      q.findInRequire? want = q.require.bind fun root => (root :: root.children).find? want := by
  constructor
  · intro c stop want root
    have run := Spot.run_walk stop [Spot.root root]
    rw [Spot.walk_root] at run
    have only (visited : List (Spot c)) (other : Spot.Run stop [Spot.root root] visited) :
        visited = Spot.enumeration stop root := other.visited_eq.trans run.visited_eq.symm
    have visits : root.visits stop = (Spot.enumeration stop root).map Spot.node := by
      rw [Constraint.visits, Spot.walk_root]
    refine ⟨run, only, Spot.nodup_enumeration root, ?_, ?_, ?_, ?_, ?_⟩
    · intro spot
      exact Spot.follow?_of_mem_enumeration
    · rw [Constraint.findAll, visits]
    · rw [Constraint.findFirst?, Constraint.findAll, List.head?_filter]
    · rw [Constraint.findAll, Constraint.visits_everywhere]
    · rw [Constraint.findFirst?, Constraint.visits_everywhere, List.head?_filter]
  · intro q want bare
    rw [Query.findInRequire?]
    cases tree : q.require with
    | none => rfl
    | some root =>
      have below (child : RequireConstraint) (hc : child ∈ root.children) :
          child.preorder Constraint.isContainer = [child] := by
        obtain ⟨kind, arguments, children⟩ := root
        exact Constraint.preorder_isContainer ((bare _ tree).below child hc)
      rw [Option.bind_some, Option.bind_some, Constraint.findFirst?, Constraint.visits_eq,
        List.flatMap_congr below, List.flatMap_singleton']

/-- A query with attributes wanted of the entities and of their parents. -/
def nestedScope : Query where
  head := .node .entities [.string "Page"] []
  filterBy := none
  orderBy := none
  require := some (.node .require [] [
    .node .parents [] [.node .attributes [] [], .node .entityBody [] []],
    .node .attributes [] []])

theorem nestedScope_not_entered :
    nestedScope.findInRequire? (·.kind == .entityBody) = none ∧
    nestedScope.findInRequire? (·.kind == .parents) =
      some (.node .parents [] [.node .attributes [] [], .node .entityBody [] []]) := by
  have bare : ∀ root ∈ nestedScope.require, root.LeavesBare := by
    intro root hroot
    cases hroot
    intro node found
    fin_cases found <;> rfl
  exact ⟨search_is_preorder.2 nestedScope _ bare, search_is_preorder.2 nestedScope _ bare⟩

end CatalogQuery
