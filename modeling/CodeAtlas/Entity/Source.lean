import CodeAtlas.Entity.Extract
import CodeAtlas.Failure
import CodeAtlas.Text.Utf8

/-!
# Source files

A source file is its bytes, together with the syntax tree that its grammar finds in them.  Grammars are
not part of this library: a grammar is known by the tree it gives, and by giving none to a text that it
does not accept.

## Main definitions

* `CodeAtlas.Entity.Source` — the bytes and the tree of a file.
* `CodeAtlas.Entity.Source.entities` — the entities of a file.
-/

namespace CodeAtlas.Entity

/-- The contents of a source file. -/
structure Source where
  /-- The bytes. -/
  bytes : List UInt8
  /-- The syntax tree, if the grammar accepts the text. -/
  tree : Option Syntax.Tree := none

namespace Source

/-- The failure of a file that is not UTF-8. -/
def notText (path : String) (fault : Text.Utf8.Fault) : Failure :=
  .parse path s!"not valid UTF-8: {fault.message}"

/-- The failure of a file that the grammar does not accept. -/
def notAccepted (path : String) : Failure := .parse path "source contains syntax errors"

/-- The entities of a file.  Bytes that are no text are refused before the grammar is asked. -/
def entities (path : String) (dialect : Dialect) (source : Source) :
    Except Failure (List Entity) :=
  match Text.Utf8.decode source.bytes with
  | .error fault => .error (notText path fault)
  | .ok text =>
    match source.tree with
    | none => .error (notAccepted path)
    | some t => .ok (extract text dialect.language t)

end Source

end CodeAtlas.Entity
