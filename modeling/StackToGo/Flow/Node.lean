import StackToGo.Tree

/-!
# Nodes

The body of a function as a list of nodes. A node has a label if something jumps to it, statements
that run one after the other, and an exit that says where to go from there. Targets are named by
their labels, so a jump may go forwards or backwards.
-/

namespace StackToGo.Flow

/-- A statement of a node. -/
inductive Statement where
  /-- An expression computed for its side effects. -/
  | eval (tree : Tree)
  /-- Sets the local with this index to the value of its declaration. -/
  | init (index : Nat) (position : Position)

/-- How a node is left. -/
inductive Exit where
  | fallThrough
  | jump (target : Label)
  /-- Goes to `target` when `cond` is zero (or not zero), else to the next node. -/
  | branch (cond : Tree) (target : Label) (onZero : Bool)
  | switch (value : Tree) (type : TypeId) (cases : List (Value × Label)) (default : Label)
  | ret
  | abort

/-- May control go on to the next node? -/
def Exit.fallsThrough : Exit → Bool
  | .fallThrough => true
  | .branch .. => true
  | _ => false

/-- A node. -/
structure Node where
  label : Option Label
  statements : List Statement
  exit : Exit

end StackToGo.Flow
