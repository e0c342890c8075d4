import CodeAtlas.Files.Path

/-!
# Languages and grammars

The source languages that can be read, and the registry that finds the language of a file by its
extension.  A language may have several grammars, and a grammar several extensions.

## Main definitions

* `CodeAtlas.Language`, `CodeAtlas.Grammar` — the languages and the grammars.
* `CodeAtlas.Dialect` — a language together with a grammar.
* `CodeAtlas.Dialect.ofExtension?`, `CodeAtlas.Dialect.ofPath?` — the registry.
-/

namespace CodeAtlas

/-- A source language. -/
inductive Language where
  /-- Python. -/
  | python
  /-- JavaScript. -/
  | javaScript
  /-- TypeScript. -/
  | typeScript
  /-- Go. -/
  | go
  /-- Rust. -/
  | rust
  /-- Java. -/
  | java
  deriving DecidableEq, Repr

namespace Language

/-- All languages. -/
def all : List Language := [.python, .javaScript, .typeScript, .go, .rust, .java]

/-- The identifier that is stored with every entity. -/
def id : Language → String
  | .python => "python"
  | .javaScript => "javascript"
  | .typeScript => "typescript"
  | .go => "go"
  | .rust => "rust"
  | .java => "java"

/-- The language with an identifier. -/
def ofId? (text : String) : Option Language := all.find? fun l => l.id = text

/-- A text that stands first in a body documents the declaration. -/
def hasDocstrings : Language → Bool
  | .python => true
  | _ => false

end Language

/-- A way to parse a language. -/
inductive Grammar where
  /-- Python. -/
  | python
  /-- JavaScript, with or without embedded markup. -/
  | javaScript
  /-- TypeScript. -/
  | typeScript
  /-- TypeScript with embedded markup. -/
  | tsx
  /-- Go. -/
  | go
  /-- Rust. -/
  | rust
  /-- Java. -/
  | java
  deriving DecidableEq, Repr

/-- The name of a grammar. -/
def Grammar.name : Grammar → String
  | .python => "Python"
  | .javaScript => "JavaScript"
  | .typeScript => "TypeScript"
  | .tsx => "Tsx"
  | .go => "Go"
  | .rust => "Rust"
  | .java => "Java"

/-- A language together with the grammar that parses it. -/
structure Dialect where
  /-- The language recorded on entities. -/
  language : Language
  /-- The grammar that accepts the text. -/
  grammar : Grammar
  deriving DecidableEq, Repr

namespace Dialect

/-- The supported extensions, without the dot. -/
def extensions : List (String × Dialect) :=
  [("py", ⟨.python, .python⟩), ("pyi", ⟨.python, .python⟩),
   ("js", ⟨.javaScript, .javaScript⟩), ("jsx", ⟨.javaScript, .javaScript⟩),
   ("mjs", ⟨.javaScript, .javaScript⟩), ("cjs", ⟨.javaScript, .javaScript⟩),
   ("ts", ⟨.typeScript, .typeScript⟩), ("mts", ⟨.typeScript, .typeScript⟩),
   ("cts", ⟨.typeScript, .typeScript⟩), ("tsx", ⟨.typeScript, .tsx⟩),
   ("go", ⟨.go, .go⟩), ("rs", ⟨.rust, .rust⟩), ("java", ⟨.java, .java⟩)]

/-- The characters in the lower case of ASCII. -/
def lower (cs : List Char) : List Char := cs.map Char.toLower

/-- The dialect of an extension, with or without leading dots and in either case; none if the
extension is not supported. -/
def ofExtension? (extension : String) : Option Dialect :=
  let wanted := lower (extension.toList.dropWhile (· = '.'))
  (extensions.find? fun e => e.1.toList = wanted).map Prod.snd

/-- The dialect of a file, by the extension of its path. -/
def ofPath? (path : String) : Option Dialect := (Files.Path.extension? path).bind ofExtension?

end Dialect

end CodeAtlas
