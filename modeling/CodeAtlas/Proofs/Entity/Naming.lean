import Mathlib.Logic.Relation
import CodeAtlas.Entity.Name
import CodeAtlas.Proofs.Text.Excerpt

/-!
# How a declaration is named

A declaration is named by its field `name`, if that can be read, and otherwise by the first identifier that can
be read among the nodes to which named children lead from it, in pre-order.  The search keeps a stack of trees
that it has not looked at yet.  Looking first at a leading identifier saves it work, and never changes what it
finds.

## Main definitions

* `CodeAtlas.Syntax.Tree.namedBelow` — what named children lead to, in pre-order.
* `CodeAtlas.Entity.Reads` — a node has a text that is not blank.
* `CodeAtlas.Entity.NamedAs` — the name of a declaration, by rules.

## Main results

* `CodeAtlas.Syntax.Tree.mem_namedBelow`, `CodeAtlas.Syntax.Tree.namedBelow_sublist` — which nodes named
  children lead to, and in which order they are listed.
* `CodeAtlas.Entity.firstIdentifier_eq_findSome?` — the search with a stack is a search in pre-order.
* `CodeAtlas.Entity.resolveName_eq_iff` — a declaration has the name that the rules give.
* `CodeAtlas.Entity.resolveName_follows_rules` — the whole account of names.
-/

namespace CodeAtlas

/-! ## What named children lead to -/

namespace Syntax.Tree

mutual

/-- A tree, and then what named children lead to from it, in pre-order. -/
def namedPreorder : Tree → List Tree
  | .mk n ts => .mk n ts :: namedPreorders ts

/-- The same for the named ones among some trees. -/
def namedPreorders : List Tree → List Tree
  | [] => []
  | t :: ts => if t.node.named then t.namedPreorder ++ namedPreorders ts else namedPreorders ts

end

/-- What named children lead to, in pre-order. -/
def namedBelow (t : Tree) : List Tree := namedPreorders t.children

/-- The second is a named child of the first. -/
def NamedChild (t u : Tree) : Prop := u ∈ t.namedChildren

lemma namedPreorder_eq_cons (t : Tree) : t.namedPreorder = t :: t.namedBelow := by
  obtain ⟨n, ts⟩ := t
  rw [namedPreorder, namedBelow, children]

lemma namedPreorders_eq_flatMap (ts : List Tree) :
    namedPreorders ts = (ts.filter fun t => t.node.named).flatMap namedPreorder := by
  induction ts with
  | nil => rw [namedPreorders, List.filter_nil, List.flatMap_nil]
  | cons t ts ih =>
    rw [namedPreorders, ih, List.filter_cons]
    split_ifs
    · rw [List.flatMap_cons]
    · rfl

/-- What named children lead to, by the named children. -/
lemma namedBelow_eq_flatMap (t : Tree) : t.namedBelow = t.namedChildren.flatMap namedPreorder :=
  namedPreorders_eq_flatMap t.children

mutual

/-- The nodes are listed in the order of the tree. -/
theorem namedPreorder_sublist : ∀ t : Tree, t.namedPreorder.Sublist t.preorder
  | .mk n ts => by
    rw [namedPreorder, preorder]
    exact (namedPreorders_sublist ts).cons_cons _

/-- So are those of some trees. -/
theorem namedPreorders_sublist : ∀ ts : List Tree, (namedPreorders ts).Sublist (preorders ts)
  | [] => by
    rw [namedPreorders]
    exact List.nil_sublist _
  | t :: ts => by
    rw [namedPreorders, preorders]
    split_ifs
    · exact (namedPreorder_sublist t).append (namedPreorders_sublist ts)
    · exact (namedPreorders_sublist ts).trans (List.sublist_append_right _ _)

end

/-- **What named children lead to is listed in pre-order.** -/
theorem namedBelow_sublist (t : Tree) : t.namedBelow.Sublist (preorders t.children) :=
  namedPreorders_sublist t.children

mutual

/-- What is listed can be reached. -/
theorem reaches_of_mem_namedPreorder : ∀ (t u : Tree), u ∈ t.namedPreorder →
    Relation.ReflTransGen NamedChild t u
  | .mk n ts, u, h => by
    rw [namedPreorder, List.mem_cons] at h
    rcases h with rfl | h
    · exact .refl
    · obtain ⟨c, hc, hnamed, hreach⟩ := exists_of_mem_namedPreorders ts u h
      exact .head (List.mem_filter.mpr ⟨hc, hnamed⟩) hreach

/-- What is listed of some trees can be reached from a named one of them. -/
theorem exists_of_mem_namedPreorders : ∀ (ts : List Tree) (u : Tree), u ∈ namedPreorders ts →
    ∃ c ∈ ts, c.node.named = true ∧ Relation.ReflTransGen NamedChild c u
  | [], u, h => by
    rw [namedPreorders] at h
    cases h
  | t :: ts, u, h => by
    have hlater : u ∈ namedPreorders ts →
        ∃ c ∈ t :: ts, c.node.named = true ∧ Relation.ReflTransGen NamedChild c u := fun h => by
      obtain ⟨c, hc, hreach⟩ := exists_of_mem_namedPreorders ts u h
      exact ⟨c, List.mem_cons_of_mem _ hc, hreach⟩
    rw [namedPreorders] at h
    split_ifs at h with hnamed
    · rcases List.mem_append.mp h with h | h
      · exact ⟨t, List.mem_cons_self, hnamed, reaches_of_mem_namedPreorder t u h⟩
      · exact hlater h
    · exact hlater h

end

/-- **The nodes listed are those that named children lead to**, in one step or more.

**Proof sketch.** What is listed is listed at or below a named child, so the child comes first and the rest follows
by induction on the tree.  Conversely, by induction on the steps from their beginning: the child is listed first in
its own pre-order, and what is listed below it comes after it. -/
theorem mem_namedBelow (t u : Tree) : u ∈ t.namedBelow ↔ Relation.TransGen NamedChild t u := by
  constructor
  · intro h
    rw [namedBelow_eq_flatMap, List.mem_flatMap] at h
    obtain ⟨c, hc, hu⟩ := h
    exact .head' hc (reaches_of_mem_namedPreorder c u hu)
  · intro h
    induction h using Relation.TransGen.head_induction_on with
    | single hc =>
      rw [namedBelow_eq_flatMap, List.mem_flatMap]
      exact ⟨u, hc, by rw [namedPreorder_eq_cons]; exact List.mem_cons_self⟩
    | head hc _ ih =>
      rw [namedBelow_eq_flatMap, List.mem_flatMap]
      exact ⟨_, hc, by rw [namedPreorder_eq_cons]; exact List.mem_cons_of_mem _ ih⟩

end Syntax.Tree

namespace Entity

open CodeAtlas.Syntax

variable {text : List Char}

/-! ## Texts of nodes -/

/-- **A node reads as a text**: its range can be read, holds something that is not blank, and this is the text
without the blanks around it. -/
def Reads (text : List Char) (n : Node) (s : String) : Prop :=
  ∃ cs, Text.slice text n.startByte n.endByte = some cs ∧ (∃ c ∈ cs, Text.isBlank c = false) ∧
    s = Text.trim (String.ofList cs)

/-- A node has the text as which it reads. -/
lemma nodeText_eq_some_iff (n : Node) (s : String) : nodeText text n = some s ↔ Reads text n s := by
  rw [nodeText, rawText, Reads]
  cases Text.slice text n.startByte n.endByte with
  | none => exact ⟨nofun, nofun⟩
  | some cs =>
    have hblank : (Text.trimChars cs).isEmpty = false ↔ ∃ c ∈ cs, Text.isBlank c = false := by
      rw [List.isEmpty_eq_false_iff, Ne, Text.trimChars_eq_nil_iff]
      simp
    dsimp only
    by_cases h : ∃ c ∈ cs, Text.isBlank c = false
    · rw [hblank.mpr h, if_neg Bool.false_ne_true, Option.some.injEq]
      constructor
      · rintro rfl
        exact ⟨cs, rfl, h, by rw [Text.trim, String.toList_ofList]⟩
      · rintro ⟨cs', hcs', -, rfl⟩
        rw [Option.some.inj hcs', Text.trim, String.toList_ofList]
    · rw [if_pos (by rw [← Bool.not_eq_false, hblank]; exact h)]
      refine ⟨nofun, ?_⟩
      rintro ⟨cs', hcs', h', -⟩
      exact absurd (Option.some.inj hcs' ▸ h') h

/-- Identifiers have the texts as which they read. -/
lemma identifierText_eq_some_iff (n : Node) (s : String) :
    identifierText text n = some s ↔ isIdentifier n = true ∧ Reads text n s := by
  rw [identifierText]
  split_ifs with h
  · simp [h, nodeText_eq_some_iff]
  · simp [h]

/-- The text as which a node reads is not empty and has no blanks around it. -/
lemma Reads.trimmed {n : Node} {s : String} (h : Reads text n s) :
    s ≠ "" ∧ Text.Trimmed s.toList := by
  obtain ⟨cs, -, ⟨c, hc, hblank⟩, rfl⟩ := h
  rw [Text.trim, String.toList_ofList, String.toList_ofList]
  refine ⟨fun hempty => ?_, Text.trimmed_trimChars cs⟩
  have hnil : Text.trimChars cs = [] := by simpa using congrArg String.toList hempty
  rw [Text.trimChars_eq_nil_iff] at hnil
  rw [hnil c hc] at hblank
  cases hblank

/-! ## The search -/

/-- **The search with a stack is a search in pre-order.** -/
theorem firstIdentifier_eq_findSome? (text : List Char) (stack : List Tree) :
    firstIdentifier text stack =
      (stack.flatMap Tree.namedPreorder).findSome? fun u => identifierText text u.node := by
  fun_induction firstIdentifier text stack with
  | case1 => rfl
  | case2 t rest s hs =>
    rw [List.flatMap_cons, Tree.namedPreorder_eq_cons, List.cons_append, List.findSome?_cons, hs]
  | case3 t rest hs ih =>
    rw [ih, List.flatMap_cons, Tree.namedPreorder_eq_cons, List.cons_append, List.findSome?_cons, hs,
      List.flatMap_append, ← Tree.namedBelow_eq_flatMap]

/-- Below a tree it is a search among what named children lead to. -/
lemma firstIdentifier_namedChildren (text : List Char) (t : Tree) :
    firstIdentifier text t.namedChildren =
      t.namedBelow.findSome? fun u => identifierText text u.node := by
  rw [firstIdentifier_eq_findSome?, Tree.namedBelow_eq_flatMap]

/-- **A leading identifier is what the search finds.** -/
theorem firstIdentifier_of_leadingIdentifier {t : Tree} {s : String}
    (h : leadingIdentifier text t = some s) : firstIdentifier text t.namedChildren = some s := by
  rw [leadingIdentifier] at h
  cases hchildren : t.namedChildren with
  | nil =>
    rw [hchildren] at h
    cases h
  | cons c rest =>
    rw [hchildren] at h
    rw [firstIdentifier, show identifierText text c.node = some s from h]

/-- The name of a declaration, without a look at a leading identifier. -/
lemma resolveName_eq (text : List Char) (t : Tree) :
    resolveName text t =
      (((t.childByField? "name").bind fun c => nodeText text c.node).or
        (t.namedBelow.findSome? fun u => identifierText text u.node)).getD anonymous := by
  rw [resolveName, ← firstIdentifier_namedChildren]
  cases (t.childByField? "name").bind fun c => nodeText text c.node with
  | some s => rfl
  | none =>
    cases hleading : leadingIdentifier text t with
    | none => rfl
    | some s => rw [firstIdentifier_of_leadingIdentifier hleading]; rfl

/-! ## The rules -/

/-- The field `name` of a declaration cannot be read. -/
def NoNameField (text : List Char) (t : Tree) : Prop :=
  ∀ c s, t.childByField? "name" = some c → ¬ Reads text c.node s

/-- A node that cannot name a declaration: it is no identifier, or cannot be read. -/
def Nameless (text : List Char) (n : Node) : Prop := ∀ s, ¬ (isIdentifier n = true ∧ Reads text n s)

/-- **The name of a declaration, by rules.** -/
inductive NamedAs (text : List Char) (t : Tree) : String → Prop
  /-- The field `name`, if it can be read. -/
  | field {c : Tree} {s : String} (hfield : t.childByField? "name" = some c) (h : Reads text c.node s) :
      NamedAs text t s
  /-- Otherwise the first identifier that can be read, among what named children lead to. -/
  | identifier {before after : List Tree} {u : Tree} {s : String} (hfield : NoNameField text t)
      (hsplit : t.namedBelow = before ++ u :: after) (hfirst : ∀ v ∈ before, Nameless text v.node)
      (hkind : isIdentifier u.node = true) (h : Reads text u.node s) : NamedAs text t s
  /-- Otherwise none. -/
  | anonymous (hfield : NoNameField text t) (hnone : ∀ v ∈ t.namedBelow, Nameless text v.node) :
      NamedAs text t Entity.anonymous

/-- The field cannot be read when it gives no name. -/
lemma noNameField_iff (text : List Char) (t : Tree) :
    NoNameField text t ↔ ((t.childByField? "name").bind fun c => nodeText text c.node) = none := by
  rw [NoNameField]
  cases t.childByField? "name" with
  | none => simp
  | some c =>
    simp only [Option.some.injEq, Option.bind_some, Option.eq_none_iff_forall_ne_some,
      ← nodeText_eq_some_iff]
    exact ⟨fun h s => h c s rfl, fun h c' s hc => hc ▸ h s⟩

/-- A node cannot name a declaration when it has no text as an identifier. -/
lemma nameless_iff (text : List Char) (n : Node) : Nameless text n ↔ identifierText text n = none := by
  simp only [Nameless, ← identifierText_eq_some_iff, Option.eq_none_iff_forall_ne_some, Ne]

/-- **A declaration has the name that the rules give.**

**Proof sketch.** The resolution tries the name field, then the first identifier below, then gives up; the rules
have one case for each.  What one step finds or does not find is what the rule says, since the reader of a node's
text and the search of a list are characterised by when they succeed. -/
theorem resolveName_eq_iff (text : List Char) (t : Tree) (s : String) :
    resolveName text t = s ↔ NamedAs text t s := by
  constructor
  · rintro rfl
    rw [resolveName_eq]
    cases hfield : (t.childByField? "name").bind fun c => nodeText text c.node with
    | some s =>
      obtain ⟨c, hc, hs⟩ := Option.bind_eq_some_iff.mp hfield
      exact .field hc ((nodeText_eq_some_iff _ _).mp hs)
    | none =>
      have hno := (noNameField_iff text t).mpr hfield
      cases hsearch : t.namedBelow.findSome? fun u => identifierText text u.node with
      | none =>
        refine .anonymous hno fun v hv => (nameless_iff text v.node).mpr ?_
        exact List.findSome?_eq_none_iff.mp hsearch v hv
      | some s =>
        obtain ⟨before, u, after, hsplit, hs, hfirst⟩ := List.findSome?_eq_some_iff.mp hsearch
        obtain ⟨hkind, hreads⟩ := (identifierText_eq_some_iff _ _).mp hs
        exact .identifier hno hsplit (fun v hv => (nameless_iff text v.node).mpr (hfirst v hv)) hkind
          hreads
  · intro h
    rw [resolveName_eq]
    cases h with
    | field hfield h =>
      rw [hfield, Option.bind_some, (nodeText_eq_some_iff _ _).mpr h]
      rfl
    | identifier hfield hsplit hfirst hkind h =>
      have hbefore := List.findSome?_eq_none_iff.mpr fun v hv => (nameless_iff text v.node).mp (hfirst v hv)
      rw [(noNameField_iff text t).mp hfield, hsplit, List.findSome?_append, hbefore,
        List.findSome?_cons, (identifierText_eq_some_iff _ _).mpr ⟨hkind, h⟩]
      rfl
    | anonymous hfield hnone =>
      have hbelow := List.findSome?_eq_none_iff.mpr fun v hv => (nameless_iff text v.node).mp (hnone v hv)
      rw [(noNameField_iff text t).mp hfield, hbelow]
      rfl

/-- Whatever names a declaration is not empty and has no blanks around it. -/
lemma NamedAs.trimmed {t : Tree} {s : String} (h : NamedAs text t s) :
    s ≠ "" ∧ Text.Trimmed s.toList := by
  cases h with
  | field _ h => exact h.trimmed
  | identifier _ _ _ _ h => exact h.trimmed
  | anonymous => decide

/-- **A declaration is named by the rules.**  The name is that of the field `name`, if it can be read and is not
blank, otherwise that of the first identifier for which this holds among what named children lead to, and
otherwise the sentinel.  What named children lead to is listed in the order of the tree.

The search with a stack, from any trees, finds the first identifier in this order, and so finds a leading
identifier if there is one.  A name is never empty, and has no blanks around it.

**Proof sketch.** The name is the one that the rules give, and a name that the rules give is trimmed.  The search
with a stack lists what it visits in pre-order, so the leading identifier, if there is one, is the first that it
finds. -/
theorem resolveName_follows_rules (text : List Char) (t : Tree) :
    (∀ s, resolveName text t = s ↔ NamedAs text t s) ∧
    (∀ u, u ∈ t.namedBelow ↔ Relation.TransGen Tree.NamedChild t u) ∧
    t.namedBelow.Sublist (Tree.preorders t.children) ∧
    (∀ stack, firstIdentifier text stack =
      (stack.flatMap Tree.namedPreorder).findSome? fun u => identifierText text u.node) ∧
    (∀ s, leadingIdentifier text t = some s → firstIdentifier text t.namedChildren = some s) ∧
    resolveName text t ≠ "" ∧ Text.Trimmed (resolveName text t).toList := by
  have hname := resolveName_eq_iff text t
  exact ⟨hname, t.mem_namedBelow, t.namedBelow_sublist, firstIdentifier_eq_findSome? text,
    fun s => firstIdentifier_of_leadingIdentifier, ((hname _).mp rfl).trimmed⟩

end Entity

end CodeAtlas
