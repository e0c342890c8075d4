import CodeAtlas.Entity.Docstring
import CodeAtlas.Language.Rule
import CodeAtlas.Syntax.Cursor

/-!
# Extraction of entities

The declarations of a syntax tree, in the order in which a walk meets them.  A declaration inside
another one is an entity of its own.

## Main definitions

* `CodeAtlas.Entity.ofTree` — the entity that a node declares.
* `CodeAtlas.Entity.extract` — the entities of a tree.
-/

namespace CodeAtlas.Entity

open CodeAtlas.Syntax

/-- The entity of kind `kind` declared at the root of a tree. -/
def ofTree (text : List Char) (language : Language) (kind : Kind) (t : Tree) : Entity where
  kind := kind
  name := resolveName text t
  language := language
  startLine := t.node.startRow + 1
  endLine := max (t.node.endRow + 1) (t.node.startRow + 1)
  snippet := String.ofList ((rawText text t.node).getD [])
  doc := if language.hasDocstrings then (docstring text t).getD "" else ""

/-- The entity declared at the root of a tree, if the language's rules say so. -/
def ofTree? (text : List Char) (language : Language) (t : Tree) : Option Entity :=
  (Language.classify language.rules t).map fun kind => ofTree text language kind t

/-- The entities of a tree, in the order of the walk. -/
def extract (text : List Char) (language : Language) (t : Tree) : List Entity :=
  t.walk.filterMap (ofTree? text language)

end CodeAtlas.Entity
