import CodeAtlas.Entity.Name

/-!
# Documentation texts

In a language with docstrings the first statement of a body, when it is nothing but a string,
documents the declaration.

## Main definitions

* `CodeAtlas.Entity.unquote` — the content of a string literal.
* `CodeAtlas.Entity.docstring` — the documentation of a declaration.
-/

namespace CodeAtlas.Entity

open CodeAtlas.Syntax

/-- A quote character. -/
def isQuote (c : Char) : Bool := c = '"' || c = '\''

/-- A letter before the quotes that makes the literal something else than a constant text. -/
def isFormatLetter (c : Char) : Bool := c = 'f' || c = 'F' || c = 'b' || c = 'B'

/-- The delimiters of string literals, longest first. -/
def delimiters : List (List Char) := [['"', '"', '"'], ['\'', '\'', '\''], ['"'], ['\'']]

/-- What stands between two copies of a delimiter. -/
def between (delimiter literal : List Char) : Option (List Char) :=
  if delimiter.isPrefixOf literal then
    let rest := literal.drop delimiter.length
    if delimiter.isSuffixOf rest then some (rest.take (rest.length - delimiter.length)) else none
  else none

/-- The content of a string literal without surrounding blanks; none for a formatted string, for
bytes, and for what is no literal. -/
def unquote (raw : List Char) : Option (List Char) :=
  let letters := raw.takeWhile fun c => !isQuote c
  let literal := raw.dropWhile fun c => !isQuote c
  if letters.any isFormatLetter then none
  else (delimiters.findSome? fun d => between d literal).map Text.trimChars

/-- The first statement of a body, comments left aside. -/
def firstStatement (body : Tree) : Option Tree :=
  body.namedChildren.find? fun c => c.node.kind ≠ "comment"

/-- The documentation of the declaration at the root of a tree. -/
def docstring (text : List Char) (t : Tree) : Option String :=
  match (t.childByField? "body").bind firstStatement with
  | none => none
  | some statement =>
    if statement.node.kind = "expression_statement" then
      match statement.namedChildren with
      | [expression] =>
        if expression.node.kind = "string" then
          ((rawText text expression.node).bind unquote).map String.ofList
        else none
      | _ => none
    else none

end CodeAtlas.Entity
