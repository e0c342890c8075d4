import CodeAtlas.Entity.Basic
import CodeAtlas.Syntax.Tree

/-!
# Rules for declarations

For each language a table says which grammatical kinds are declarations.  A kind that is not in the
table of a language is never one, even if another language has a kind of the same name.

## Main definitions

* `CodeAtlas.Language.Rule` — one line of a table.
* `CodeAtlas.Language.rules` — the tables.
* `CodeAtlas.Language.classify` — the kind of entity that a node declares.
-/

namespace CodeAtlas.Language

/-- The child in `field` has the grammatical kind `kind`. -/
structure FieldIs where
  /-- The field. -/
  field : String
  /-- The grammatical kind that is required of its child. -/
  kind : String
  deriving DecidableEq, Repr

/-- Nodes of one grammatical kind are declarations. -/
structure Rule where
  /-- The grammatical kind. -/
  node : String
  /-- What such a node declares. -/
  kind : Entity.Kind
  /-- What is required of a child. -/
  condition : Option FieldIs := none
  deriving DecidableEq, Repr

namespace Rule

/-- The rule holds for the root of a tree. -/
def applies (r : Rule) (t : Syntax.Tree) : Bool :=
  t.node.kind = r.node &&
    match r.condition with
    | none => true
    | some c => (t.childByField? c.field).any fun child => child.node.kind = c.kind

end Rule

/-- The table of a language.  In Go only structure types count: interfaces and aliases declare a type
without the form of a class. -/
def rules : Language → List Rule
  | .python =>
    [⟨"function_definition", .function, none⟩, ⟨"class_definition", .classLike, none⟩]
  | .javaScript =>
    [⟨"function_declaration", .function, none⟩,
     ⟨"generator_function_declaration", .function, none⟩,
     ⟨"method_definition", .function, none⟩, ⟨"class_declaration", .classLike, none⟩]
  | .typeScript =>
    [⟨"function_declaration", .function, none⟩,
     ⟨"generator_function_declaration", .function, none⟩,
     ⟨"method_definition", .function, none⟩, ⟨"class_declaration", .classLike, none⟩,
     ⟨"abstract_class_declaration", .classLike, none⟩]
  | .go =>
    [⟨"function_declaration", .function, none⟩, ⟨"method_declaration", .function, none⟩,
     ⟨"type_spec", .classLike, some ⟨"type", "struct_type"⟩⟩]
  | .rust =>
    [⟨"function_item", .function, none⟩, ⟨"struct_item", .classLike, none⟩,
     ⟨"enum_item", .classLike, none⟩, ⟨"union_item", .classLike, none⟩,
     ⟨"trait_item", .classLike, none⟩]
  | .java =>
    [⟨"method_declaration", .function, none⟩, ⟨"constructor_declaration", .function, none⟩,
     ⟨"class_declaration", .classLike, none⟩, ⟨"enum_declaration", .classLike, none⟩,
     ⟨"record_declaration", .classLike, none⟩]

/-- What the root of a tree declares, by the first rule that holds. -/
def classify (rules : List Rule) (t : Syntax.Tree) : Option Entity.Kind :=
  (rules.find? fun r => r.applies t).map Rule.kind

end CodeAtlas.Language
