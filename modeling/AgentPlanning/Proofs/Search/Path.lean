import AgentPlanning.Search.Node

/-!
# Paths to Search Nodes

What stands at the end of a search is a node, and its plan is the path from the root to it. The
path is defined here as a list. The planner itself goes back along it twice, once to measure it and
once to write it to a buffer. Main statements:

* `length_pathTo`: the first walk counts the actions of the path;
* `toList_writePath`: the second one fills the cells that were counted with the path.
-/

namespace AgentPlanning

/-- The actions of the path to a node in front of `suffix`, following at most the given number
of steps back. -/
def pathBefore (nodes : Array Node) : Nat → NodeIndex → List ActionId → List ActionId
  | 0, _, suffix => suffix
  | steps + 1, index, suffix =>
    match nodes[index]?.bind (·.arrival) with
    | none => suffix
    | some ⟨parent, action⟩ => pathBefore nodes steps parent (action :: suffix)

/-- The actions of the path from the root to a node. A path visits each node at most once. -/
def pathTo (nodes : Array Node) (index : NodeIndex) : List ActionId :=
  pathBefore nodes nodes.size index []

variable {nodes : Array Node}

theorem pathBefore_eq_append (steps : Nat) (i : NodeIndex) (suffix : List ActionId) :
    pathBefore nodes steps i suffix = pathBefore nodes steps i [] ++ suffix := by
  induction steps generalizing i suffix with
  | zero => rfl
  | succ steps ih =>
    rw [pathBefore, pathBefore]
    split
    next => rfl
    next parent action _ => rw [ih parent (action :: suffix), ih parent [action], List.append_assoc,
        List.singleton_append]

theorem length_pathBefore (steps : Nat) (i : NodeIndex) :
    (pathBefore nodes steps i []).length = depthWithin nodes steps i := by
  induction steps generalizing i with
  | zero => rfl
  | succ steps ih =>
    rw [pathBefore, depthWithin]
    cases nodes[i]?.bind (·.arrival) with
    | none => rfl
    | some arrival =>
      dsimp only
      rw [pathBefore_eq_append, List.length_append, ih, List.length_singleton]

/-- The walk that measures a path counts the actions that the path consists of. -/
theorem length_pathTo (i : NodeIndex) : (pathTo nodes i).length = depth nodes i :=
  length_pathBefore nodes.size i

theorem toList_writePath_depthWithin (steps : Nat) (i : NodeIndex) {buffer : Array ActionId}
    (h : depthWithin nodes steps i ≤ buffer.size) :
    (writePath nodes (depthWithin nodes steps i) i buffer).toList =
      pathBefore nodes steps i [] ++ buffer.toList.drop (depthWithin nodes steps i) := by
  induction steps generalizing i buffer with
  | zero => rfl
  | succ steps ih =>
    rw [depthWithin, pathBefore] at *
    cases harrival : nodes[i]?.bind (·.arrival) with
    | none => rfl
    | some arrival =>
      rw [harrival] at h
      dsimp only at h ⊢
      -- The last action goes to the last of the cells, and the others to those in front of it.
      have hcell : depthWithin nodes steps arrival.parent < buffer.toList.length := h
      have hsize : depthWithin nodes steps arrival.parent ≤
          (buffer.setIfInBounds (depthWithin nodes steps arrival.parent) arrival.action).size := by
        rw [Array.size_setIfInBounds]
        exact Nat.le_of_succ_le h
      rw [writePath, harrival, pathBefore_eq_append]
      dsimp only
      rw [ih arrival.parent hsize, Array.toList_setIfInBounds, List.drop_set,
        if_neg (Nat.lt_irrefl _), Nat.sub_self, List.drop_eq_getElem_cons hcell,
        List.set_cons_zero, List.append_assoc, List.singleton_append]

/-- The walk that writes a path fills as many cells as were measured, and no others. -/
theorem toList_writePath {i : NodeIndex} {buffer : Array ActionId}
    (h : depth nodes i ≤ buffer.size) :
    (writePath nodes (depth nodes i) i buffer).toList =
      pathTo nodes i ++ buffer.toList.drop (depth nodes i) :=
  toList_writePath_depthWithin nodes.size i h

end AgentPlanning
