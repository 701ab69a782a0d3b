/-!
# Blocks of Go code

The body of a Go function as a list of blocks. A block may have a label, holds statements, and ends
with an exit. What statements and conditions are made of is left open: clean-up of blocks does not
look into them.
-/

namespace StackToGo.Go

/-- How a block is left. Conditions, scrutinees and constants are of type `ε`. -/
inductive Exit (ε : Type) where
  | fallThrough
  | jump (target : String)
  /-- Goes to `target` if the condition holds, else to the next block. -/
  | branch (condition : ε) (target : String)
  | switch (scrutinee : ε) (cases : List (ε × String)) (default : String)
  | ret
  | abort
  deriving Repr

/-- A block. Statements are of type `σ`. -/
structure Block (σ ε : Type) where
  label : Option String
  statements : List σ
  exit : Exit ε
  deriving Repr

/-- A function. Header and declarations of locals are text already. -/
structure Function (σ ε : Type) where
  name : String
  header : String
  comment : Option String
  locals : List String
  blocks : List (Block σ ε)
  deriving Repr

/-- A part of a Go file. -/
inductive Item (σ ε : Type) where
  | function (f : Function σ ε)
  /-- A function that runs one statement before the program starts. -/
  | init (statement : σ)
  | text (s : String)
  deriving Repr

namespace Exit

variable {ε : Type}

/-- May control go on to the next block? -/
def fallsThrough : Exit ε → Bool
  | .fallThrough => true
  | .branch .. => true
  | _ => false

/-- Does control always go on to the next block? -/
def isFallThrough : Exit ε → Bool
  | .fallThrough => true
  | _ => false

/-- The labels that an exit names, in order. -/
def targets : Exit ε → List String
  | .jump target => [target]
  | .branch _ target => [target]
  | .switch _ cases default => cases.map (·.2) ++ [default]
  | _ => []

/-- The exit with every label replaced. -/
def mapTargets (f : String → String) : Exit ε → Exit ε
  | .jump target => .jump (f target)
  | .branch condition target => .branch condition (f target)
  | .switch scrutinee cases default =>
    .switch scrutinee (cases.map fun c => (c.1, f c.2)) (f default)
  | e => e

/-- Sends the labels for which there is a route along it. Gives the new exit, and how many labels
were sent. -/
def redirect (route : String → Option String) (e : Exit ε) : Exit ε × Nat :=
  (e.mapTargets fun t => (route t).getD t, e.targets.countP fun t => (route t).isSome)

/-- Replaces one label by another. Gives the new exit, and how many labels were replaced. -/
def retarget (old new : String) (e : Exit ε) : Exit ε × Nat :=
  e.redirect fun t => if t = old then some new else none

end Exit

/-! ## Text -/

variable {σ ε : Type} [ToString σ] [ToString ε]

/-- The lines of an exit. -/
def Exit.lines : Exit ε → List String
  | .fallThrough => []
  | .jump target => ["\tgoto " ++ target]
  | .branch condition target =>
    ["\tif " ++ toString condition ++ " \x7b goto " ++ target ++ " \x7d"]
  | .switch scrutinee cases default =>
    ("\tswitch " ++ toString scrutinee ++ " \x7b") ::
      cases.map (fun c => "\tcase " ++ toString c.1 ++ ": goto " ++ c.2) ++
      ["\tdefault: goto " ++ default, "\t\x7d"]
  | .ret => ["\treturn"]
  | .abort => ["\tpanic(\"abort\")"]

/-- The lines of a block. -/
def Block.lines (b : Block σ ε) : List String :=
  (b.label.map (· ++ ":")).toList ++ b.statements.map (fun s => "\t" ++ toString s) ++ b.exit.lines

/-- The line that a function begins with. -/
def Function.firstLine (f : Function σ ε) : String :=
  match f.comment with
  | some comment => f.header ++ " \x7b // " ++ comment
  | none => f.header ++ " \x7b"

/-- The lines of a function, with an empty one after it. -/
def Function.lines (f : Function σ ε) : List String :=
  f.firstLine :: f.locals.map ("\t" ++ ·) ++ f.blocks.flatMap Block.lines ++ ["\x7d", ""]

/-- The lines of a part of a file. -/
def Item.lines : Item σ ε → List String
  | .function f => f.lines
  | .init statement => ["func init() \x7b", "\t" ++ toString statement, "\x7d"]
  | .text s => [s]

/-- The text of a file. -/
def sourceText (items : List (Item σ ε)) : String :=
  String.join ((items.flatMap Item.lines).map (· ++ "\n"))

end StackToGo.Go
