import CodeAtlas.Proofs.Entity.Extraction
import CodeAtlas.Proofs.Entity.Naming

/-!
# Where the texts of an entity come from

In a tree that fits its text, every node stands for a part of the text, and lies inside its parent.  An entity
then takes all its texts from the node that declares it: the snippet is the text of the node, and the name and
the documentation are parts of the snippet.

## Main definitions

* `CodeAtlas.Syntax.Tree.Fits` — every node has a readable range, inside that of its parent.
* `CodeAtlas.Entity.DrawnFrom` — the texts of an entity come from the range of a node.

## Main results

* `CodeAtlas.Syntax.Tree.Fits.infix_of_mem` — the text of a subtree is a part of that of the tree.
* `CodeAtlas.Entity.unquote_infix` — the content of a literal is a trimmed part of it.
* `CodeAtlas.Entity.extract_wellFormed` — the lines and the texts of extracted entities.
-/

namespace CodeAtlas

/-! ## Trees that fit a text -/

namespace Syntax.Tree

/-- **A tree fits a text**: the range of every node ends not before it starts, cuts no character and stays in
the text, and lies inside the range of the parent. -/
structure Fits (text : List Char) (t : Tree) : Prop where
  /-- The ranges are between boundaries of characters. -/
  readable : ∀ u ∈ t.preorder, u.node.startByte ≤ u.node.endByte ∧
    Text.IsBoundary text u.node.startByte ∧ Text.IsBoundary text u.node.endByte
  /-- The ranges of children are inside that of their parent. -/
  nested : ∀ u ∈ t.preorder, ∀ c ∈ u.children,
    u.node.startByte ≤ c.node.startByte ∧ c.node.endByte ≤ u.node.endByte

instance (text : List Char) (t : Tree) : Decidable (Fits text t) :=
  decidable_of_iff
    ((∀ u ∈ t.preorder, u.node.startByte ≤ u.node.endByte ∧
        Text.IsBoundary text u.node.startByte ∧ Text.IsBoundary text u.node.endByte) ∧
      ∀ u ∈ t.preorder, ∀ c ∈ u.children,
        u.node.startByte ≤ c.node.startByte ∧ c.node.endByte ≤ u.node.endByte)
    ⟨fun h => ⟨h.1, h.2⟩, fun h => ⟨h.1, h.2⟩⟩

namespace Fits

variable {text : List Char} {t u : Tree}

/-- A subtree fits too. -/
lemma subtree (h : Fits text t) (hu : u ∈ t.preorder) : Fits text u := by
  have hsub : ∀ v ∈ u.preorder, v ∈ t.preorder := fun v hv =>
    (mem_preorder t v).mpr (((mem_preorder t u).mp hu).trans ((mem_preorder u v).mp hv))
  exact ⟨fun v hv => h.readable v (hsub v hv), fun v hv => h.nested v (hsub v hv)⟩

/-- The range of a subtree is inside that of the tree. -/
lemma range_of_mem (h : Fits text t) (hu : u ∈ t.preorder) :
    t.node.startByte ≤ u.node.startByte ∧ u.node.endByte ≤ t.node.endByte := by
  have hreach := (mem_preorder t u).mp hu
  clear hu
  induction hreach with
  | refl => exact ⟨Nat.le_refl _, Nat.le_refl _⟩
  | @tail v w hv hw ih =>
    obtain ⟨hstart, hend⟩ := h.nested v ((mem_preorder t v).mpr hv) w hw
    exact ⟨Nat.le_trans ih.1 hstart, Nat.le_trans hend ih.2⟩

/-- The text of a tree can be read. -/
lemma exists_rawText (h : Fits text t) : ∃ cs, Entity.rawText text t.node = some cs := by
  obtain ⟨hle, hstart, hend⟩ := h.readable t t.self_mem_preorder
  exact Text.exists_slice hle hstart hend

/-- **The text of a subtree is a part of that of the tree.** -/
theorem infix_of_mem (h : Fits text t) (hu : u ∈ t.preorder) {outer inner : List Char}
    (houter : Entity.rawText text t.node = some outer) (hinner : Entity.rawText text u.node = some inner) :
    inner <:+: outer :=
  Text.infix_of_slice houter hinner (h.range_of_mem hu).1 (h.range_of_mem hu).2

end Fits

end Syntax.Tree

namespace Entity

open CodeAtlas.Syntax

variable {text : List Char}

/-! ## Names -/

/-- What a subtree reads as is a part of the text of the tree. -/
lemma Reads.infix_of_mem {t u : Tree} {s : String} {cs : List Char} (h : Reads text u.node s)
    (hfits : t.Fits text) (hu : u ∈ t.preorder) (hcs : rawText text t.node = some cs) :
    s.toList <:+: cs := by
  obtain ⟨inner, hinner, -, rfl⟩ := h
  rw [Text.trim, String.toList_ofList, String.toList_ofList]
  exact (Text.trimChars_infix inner).trans (hfits.infix_of_mem hu hcs hinner)

/-- **A name other than the sentinel is a part of the text of the declaration.**

**Proof sketch.** A name is read from a child, or from a node that named children lead to.  Both are nodes of the
tree, whose texts lie within that of the root if the tree fits the text. -/
theorem NamedAs.eq_anonymous_or_isInfix {t : Tree} {s : String} {cs : List Char} (h : NamedAs text t s)
    (hfits : t.Fits text) (hcs : rawText text t.node = some cs) :
    s = Entity.anonymous ∨ s.toList <:+: cs := by
  cases h with
  | @field c s hfield h =>
    have hc : c ∈ t.children := List.mem_of_find?_eq_some hfield
    exact .inr (h.infix_of_mem hfits (Tree.mem_preorder_of_mem_children t.self_mem_preorder hc) hcs)
  | @identifier before after u s _ hsplit _ _ h =>
    have hbelow : u ∈ t.namedBelow := by
      rw [hsplit]
      exact List.mem_append_right _ List.mem_cons_self
    have hu : u ∈ t.preorder := by
      obtain ⟨n, ts⟩ := t
      rw [Tree.preorder]
      exact List.mem_cons_of_mem _ ((Tree.namedBelow_sublist (.mk n ts)).subset hbelow)
    exact .inr (h.infix_of_mem hfits hu hcs)
  | anonymous => exact .inl rfl

/-! ## Documentation -/

/-- What stands between delimiters is a part of the literal. -/
lemma isInfix_of_between {delimiter literal inner : List Char} (h : between delimiter literal = some inner) :
    inner <:+: literal := by
  rw [between] at h
  dsimp only at h
  split_ifs at h
  obtain rfl := Option.some.inj h
  exact (List.take_prefix _ _).isInfix.trans (List.drop_suffix _ _).isInfix

/-- **The content of a literal is a trimmed part of it.** -/
theorem unquote_infix {raw content : List Char} (h : unquote raw = some content) :
    content <:+: raw ∧ Text.Trimmed content := by
  rw [unquote] at h
  split_ifs at h
  obtain ⟨inner, hinner, rfl⟩ := Option.map_eq_some_iff.mp h
  obtain ⟨delimiter, -, hbetween⟩ := List.exists_of_findSome?_eq_some hinner
  have hinner' : inner <:+: raw :=
    List.IsInfix.trans (isInfix_of_between hbetween) (List.dropWhile_suffix _).isInfix
  exact ⟨(Text.trimChars_infix inner).trans hinner', Text.trimmed_trimChars inner⟩

/-- The documentation of a declaration is the content of a literal below it.

**Proof sketch.** The documentation is read in steps, from the body to its first statement to the only expression in
it.  Each is a child of the one before, so the expression is a node of the tree; and it is its text that is
unquoted. -/
lemma exists_literal_of_docstring {t : Tree} {s : String} (h : docstring text t = some s) :
    ∃ u ∈ t.preorder, ∃ raw content, rawText text u.node = some raw ∧ unquote raw = some content ∧
      s = String.ofList content := by
  rw [docstring] at h
  cases hstatement : (t.childByField? "body").bind firstStatement with
  | none =>
    rw [hstatement] at h
    cases h
  | some statement =>
    rw [hstatement] at h
    obtain ⟨body, hbody, hfirst⟩ := Option.bind_eq_some_iff.mp hstatement
    dsimp only at h
    split_ifs at h
    split at h
    · next expression hchildren =>
      split_ifs at h
      obtain ⟨content, hcontent, rfl⟩ := Option.map_eq_some_iff.mp h
      obtain ⟨raw, hraw, hunquote⟩ := Option.bind_eq_some_iff.mp hcontent
      refine ⟨expression, ?_, raw, content, hraw, hunquote, rfl⟩
      -- the literal is a child of the statement, which is a child of the body
      have hexpression : expression ∈ statement.namedChildren := by
        rw [hchildren]
        exact List.mem_cons_self
      have hmem : statement ∈ body.namedChildren := List.mem_of_find?_eq_some hfirst
      have hbody' : body ∈ t.preorder :=
        Tree.mem_preorder_of_mem_children t.self_mem_preorder (List.mem_of_find?_eq_some hbody)
      exact Tree.mem_preorder_of_mem_children
        (Tree.mem_preorder_of_mem_children hbody' (List.mem_of_mem_filter hmem))
        (List.mem_of_mem_filter hexpression)
    · cases h

/-- **The documentation of a declaration is a trimmed part of its text.** -/
theorem docstring_infix {t : Tree} {cs : List Char} (hfits : t.Fits text)
    (hcs : rawText text t.node = some cs) :
    ((docstring text t).getD "").toList <:+: cs ∧
      Text.Trimmed ((docstring text t).getD "").toList := by
  cases h : docstring text t with
  | none => exact ⟨List.nil_infix, by decide⟩
  | some s =>
    obtain ⟨u, hu, raw, content, hraw, hunquote, rfl⟩ := exists_literal_of_docstring h
    obtain ⟨hpart, htrimmed⟩ := unquote_infix hunquote
    rw [Option.getD_some, String.toList_ofList]
    exact ⟨hpart.trans (hfits.infix_of_mem hu hcs hraw), htrimmed⟩

/-! ## Entities -/

/-- **The texts of an entity come from the range of a node.** -/
structure DrawnFrom (text : List Char) (n : Node) (e : Entity) : Prop where
  /-- The snippet is the text of the range. -/
  snippet : ∃ l r, text = l ++ e.snippet.toList ++ r ∧ Text.width l = n.startByte ∧
    Text.width (l ++ e.snippet.toList) = n.endByte
  /-- A name that was found is a part of the snippet. -/
  name : e.name = anonymous ∨ (e.name ≠ "" ∧ e.name.toList <:+: e.snippet.toList)
  /-- The documentation is a trimmed part of the snippet. -/
  doc : e.doc.toList <:+: e.snippet.toList ∧ Text.Trimmed e.doc.toList

/-- The entity that a node of a fitting tree declares takes its texts from there.

**Proof sketch.** The snippet is the slice of the text between the offsets of the node, which exists since the tree
fits.  The name follows the rules for names, and the documentation is the content of a literal below the node; both
are parts of the snippet. -/
lemma drawnFrom_ofTree {t : Tree} (hfits : t.Fits text) (language : Language) (kind : Kind) :
    DrawnFrom text t.node (ofTree text language kind t) := by
  obtain ⟨cs, hcs⟩ := hfits.exists_rawText
  have hsnippet : (ofTree text language kind t).snippet.toList = cs := by
    rw [ofTree, hcs, Option.getD_some, String.toList_ofList]
  have hname : NamedAs text t (resolveName text t) := (resolveName_eq_iff text t _).mp rfl
  refine ⟨?_, ?_, ?_⟩
  · rw [hsnippet]
    exact (Text.slice_eq_some_iff text _ _ cs).mp hcs
  · rw [hsnippet]
    exact (hname.eq_anonymous_or_isInfix hfits hcs).imp id fun h => ⟨hname.trimmed.1, h⟩
  · rw [hsnippet, ofTree]
    dsimp only
    split_ifs
    · exact docstring_infix hfits hcs
    · exact ⟨List.nil_infix, by decide⟩

/-- **Extracted entities are well formed.**  Their lines are counted from one and are in order, and only Python
has documentation.  If the tree fits the text, then the texts of each of them come from the node of the tree that
declares it: the snippet is the text of the node, a name other than the sentinel is a part of the snippet that is
not empty, and the documentation is a trimmed part of the snippet.

**Proof sketch.** An extracted entity is the one that some node of the tree declares.  Its lines and whether it has
documentation are read off its definition.  The subtree of the node fits the text as the tree does, so the texts of
the entity come from there. -/
theorem extract_wellFormed (text : List Char) (language : Language) (t : Tree) :
    (∀ e ∈ extract text language t, 1 ≤ e.startLine ∧ e.startLine ≤ e.endLine ∧
      (language ≠ .python → e.doc = "")) ∧
    (t.Fits text → ∀ e ∈ extract text language t,
      ∃ u ∈ t.preorder, ofTree? text language u = some e ∧ DrawnFrom text u.node e) := by
  rw [extract_eq_filterMap_preorder]
  constructor
  · intro e he
    obtain ⟨u, -, hu⟩ := List.mem_filterMap.mp he
    obtain ⟨kind, -, rfl⟩ := Option.map_eq_some_iff.mp hu
    refine ⟨Nat.le_add_left 1 _, Nat.le_max_right _ _, fun hlanguage => ?_⟩
    have hnone : language.hasDocstrings = false := by
      cases language with
      | python => exact absurd rfl hlanguage
      | _ => rfl
    rw [ofTree, hnone]
    rfl
  · intro hfits e he
    obtain ⟨u, hmem, hu⟩ := List.mem_filterMap.mp he
    refine ⟨u, hmem, hu, ?_⟩
    obtain ⟨kind, -, rfl⟩ := Option.map_eq_some_iff.mp hu
    exact drawnFrom_ofTree (hfits.subtree hmem) language kind

/-- The text of a function whose documentation has a letter of two bytes and ends with a blank. -/
def documentedText : List Char := "def f(): \"é \"".toList

/-- The tree of this text. -/
def documented : Tree :=
  .mk ⟨"module", true, none, 0, 14, 0, 0⟩
    [.mk ⟨"function_definition", true, none, 0, 14, 0, 0⟩
      [.mk ⟨"def", false, none, 0, 3, 0, 0⟩ [],
       .mk ⟨"identifier", true, some "name", 4, 5, 0, 0⟩ [],
       .mk ⟨"parameters", true, some "parameters", 5, 7, 0, 0⟩ [],
       .mk ⟨":", false, none, 7, 8, 0, 0⟩ [],
       .mk ⟨"block", true, some "body", 9, 14, 0, 0⟩
         [.mk ⟨"expression_statement", true, none, 9, 14, 0, 0⟩
           [.mk ⟨"string", true, none, 9, 14, 0, 0⟩ []]]]]

/-- The function is extracted with its name and its documentation, both from its snippet. -/
theorem extract_wellFormed_documented :
    documented.Fits documentedText ∧
    extract documentedText .python documented =
      [⟨.function, "f", .python, 1, 1, "def f(): \"é \"", "é"⟩] ∧
    ∀ e ∈ extract documentedText .python documented,
      ∃ u ∈ documented.preorder, ofTree? documentedText .python u = some e ∧
        DrawnFrom documentedText u.node e :=
  ⟨by decide, by rw [extract_eq_filterMap_preorder]; decide,
    (extract_wellFormed documentedText .python documented).2 (by decide)⟩

end Entity

end CodeAtlas
