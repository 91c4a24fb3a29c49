import NedCheck.ParseTree.Structure

/-!
# Repair

A tree is repaired by detaching every node that has a structural problem, until no node but the root has one. Each round detaches at least one node, so there are no more rounds than nodes.
-/

namespace NedCheck

namespace ParseTree

/-- The reachable nodes below the root that have a problem, in pre-order. -/
def culprits (tree : ParseTree) : List Nat :=
  let failing := tree.problems.map Prod.fst
  (tree.walk root).filter fun id => id ≠ root && failing.contains id

/-- Detaches the given nodes and counts those that were attached. -/
def detachAll (tree : ParseTree) : List Nat → ParseTree × Nat
  | [] => (tree, 0)
  | id :: rest =>
    match tree.detach? id with
    | none => detachAll tree rest
    | some detached =>
      let (repaired, removed) := detachAll detached rest
      (repaired, removed + 1)

/-- At most `rounds` rounds of detaching, with the number of nodes detached. -/
def repairRounds : Nat → ParseTree → ParseTree × Nat
  | 0, tree => (tree, 0)
  | rounds + 1, tree =>
    match tree.culprits with
    | [] => (tree, 0)
    | found =>
      let (smaller, removed) := tree.detachAll found
      let (repaired, further) := repairRounds rounds smaller
      (repaired, removed + further)

/-- The repaired tree and the number of nodes detached from it. -/
def repair (tree : ParseTree) : ParseTree × Nat := repairRounds tree.size tree

end ParseTree

end NedCheck
