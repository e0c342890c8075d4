import CodeAtlas.Entity.Basic
import CodeAtlas.Text.Slice

/-!
# The text that stands for an entity

An entity is shown to an embedder as a header line, a line with its documentation if it has any, and
its snippet, of which only the beginning is kept when it is very long.

## Main definitions

* `CodeAtlas.Entity.compose` — the text of an entity.
-/

namespace CodeAtlas.Entity

/-- The greatest number of bytes of a snippet that are shown. -/
def maxSnippetBytes : Nat := 32768

/-- The first line of the text of an entity. -/
def header (e : Entity) (path : String) : String :=
  e.kind.label ++ " " ++ e.name ++ " [" ++ e.language.id ++ "] " ++ path ++ ":"
    ++ toString e.startLine ++ "-" ++ toString e.endLine

/-- The part of the snippet that is shown.  There is always a place to cut. -/
def shownSnippet (e : Entity) : String := (Text.truncate maxSnippetBytes e.snippet).getD ""

/-- The text that stands for an entity of the file at `path`. -/
def compose (e : Entity) (path : String) : String :=
  e.header path ++ (if e.doc.isEmpty then "" else "\ndoc: " ++ e.doc) ++ "\n" ++ e.shownSnippet

end CodeAtlas.Entity
