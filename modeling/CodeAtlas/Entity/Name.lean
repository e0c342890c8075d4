import CodeAtlas.Entity.Basic
import CodeAtlas.Syntax.Tree
import CodeAtlas.Text.Blank
import CodeAtlas.Text.Slice

/-!
# Names of declarations

A declaration is named by its `name` field.  Without one, a leading identifier names it, and failing
that the first identifier below it; a declaration without any identifier is anonymous.

## Main definitions

* `CodeAtlas.Entity.nodeText` — the text of a node without surrounding blanks.
* `CodeAtlas.Entity.firstIdentifier` — the search below a node.
* `CodeAtlas.Entity.resolveName` — the name of a declaration.
-/

namespace CodeAtlas.Entity

open CodeAtlas.Syntax

/-- The text in the byte range of a node; none if the range leaves the text or cuts a character. -/
def rawText (text : List Char) (n : Node) : Option (List Char) :=
  Text.slice text n.startByte n.endByte

/-- The text of a node without surrounding blanks, unless nothing is left. -/
def nodeText (text : List Char) (n : Node) : Option String :=
  match rawText text n with
  | some cs =>
    let trimmed := Text.trimChars cs
    if trimmed.isEmpty then none else some (String.ofList trimmed)
  | none => none

/-- The grammatical kinds that hold a bare identifier. -/
def identifierKinds : List String :=
  ["identifier", "type_identifier", "property_identifier", "private_property_identifier",
   "field_identifier"]

/-- The node holds a bare identifier. -/
def isIdentifier (n : Node) : Bool := identifierKinds.contains n.kind

/-- The text of a node that holds an identifier. -/
def identifierText (text : List Char) (n : Node) : Option String :=
  if isIdentifier n then nodeText text n else none

/-- The text of the first named child, if that is an identifier. -/
def leadingIdentifier (text : List Char) (t : Tree) : Option String :=
  t.namedChildren.head?.bind fun c => identifierText text c.node

/-- The text of the first identifier at or below the trees of `stack`, of which the first is looked at
next.  Only named nodes below them are searched. -/
def firstIdentifier (text : List Char) (stack : List Tree) : Option String :=
  match stack with
  | [] => none
  | t :: rest =>
    match identifierText text t.node with
    | some s => some s
    | none => firstIdentifier text (t.namedChildren ++ rest)
termination_by Tree.sizes stack
decreasing_by
  have := Tree.sizes_filter_le (fun c => c.node.named) t.children
  simp only [Tree.namedChildren, Tree.sizes_append, Tree.sizes_cons, Tree.size_eq t]
  omega

/-- The name of the declaration at the root of a tree. -/
def resolveName (text : List Char) (t : Tree) : String :=
  match (t.childByField? "name").bind fun c => nodeText text c.node with
  | some s => s
  | none =>
    match leadingIdentifier text t with
    | some s => s
    | none => (firstIdentifier text t.namedChildren).getD anonymous

end CodeAtlas.Entity
