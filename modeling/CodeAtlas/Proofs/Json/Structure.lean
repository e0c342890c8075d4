import Mathlib.Data.Finset.Basic
import CodeAtlas.Json.Value
import CodeAtlas.Proofs.Table

/-!
# The structure of JSON values

A JSON value is a tree.  A path of steps, by number into a list and by key into a table, leads to at most one
value in it, and all that can be seen of a value there is its shape: what it is, apart from the values in it.
The fields of a table are reached by their keys, so that their order cannot be seen.  Still, two values whose
tables are in order are equal if nothing that can be seen tells them apart.

## Main definitions

* `CodeAtlas.Json.everywhere` — a test that passes for a value and for all values in it.
* `CodeAtlas.Json.Shape`, `CodeAtlas.Json.Step` — shapes and steps.
* `CodeAtlas.Json.at?`, `CodeAtlas.Json.shapeAt?` — what a path leads to.

## Main results

* `CodeAtlas.Json.induct` — induction over values, with all items of a list and all fields of a table at once.
* `CodeAtlas.Json.eq_of_shapeAt?_eq` — values that cannot be told apart are equal.
-/

namespace CodeAtlas.Json

/-! ## Induction -/

/-- **Induction over JSON values.**  What holds of a list if it holds of its items, of a table if it holds of its
fields, and of all other values, holds of every value. -/
@[elab_as_elim]
theorem induct {P : Json → Prop} (null : P .null) (bool : ∀ b, P (.bool b)) (int : ∀ i, P (.int i))
    (float : ∀ x, P (.float x)) (str : ∀ s, P (.str s))
    (arr : ∀ items, (∀ v ∈ items, P v) → P (.arr items))
    (obj : ∀ fields : Table Json, (∀ e ∈ fields, P e.2) → P (.obj fields)) (v : Json) : P v :=
  Json.rec null bool int float str arr obj
    (fun _ h => absurd h List.not_mem_nil)
    (fun _ _ hhead htail => List.forall_mem_cons.mpr ⟨hhead, htail⟩)
    (fun _ h => absurd h List.not_mem_nil)
    (fun _ _ hhead htail => List.forall_mem_cons.mpr ⟨hhead, htail⟩)
    (fun _ _ h => h) v

/-! ## Tests -/

mutual

/-- The test passes for the value and for all values in it. -/
def everywhere (test : Json → Bool) : Json → Bool
  | .arr items => test (.arr items) && everywhereIn test items
  | .obj fields => test (.obj fields) && everywhereUnder test fields
  | v => test v

/-- The test passes for some items and for all values in them. -/
def everywhereIn (test : Json → Bool) : List Json → Bool
  | [] => true
  | v :: rest => everywhere test v && everywhereIn test rest

/-- The test passes for the values of some fields and for all values in them. -/
def everywhereUnder (test : Json → Bool) : List (String × Json) → Bool
  | [] => true
  | (_, v) :: rest => everywhere test v && everywhereUnder test rest

end

variable {test : Json → Bool}

/-- The test passes for the value itself. -/
lemma test_of_everywhere {v : Json} (h : v.everywhere test = true) : test v = true := by
  cases v with
  | arr items => exact (Bool.and_eq_true_iff.mp h).1
  | obj fields => exact (Bool.and_eq_true_iff.mp h).1
  | _ => exact h

/-- The test passes for each item of a list. -/
lemma everywhere_of_mem_items {items : List Json} (h : (arr items).everywhere test = true) :
    ∀ v ∈ items, v.everywhere test = true := by
  rw [everywhere, Bool.and_eq_true] at h
  replace h := h.2
  induction items with
  | nil => exact fun v hv => absurd hv List.not_mem_nil
  | cons w rest ih =>
    rw [everywhereIn, Bool.and_eq_true] at h
    exact List.forall_mem_cons.mpr ⟨h.1, ih h.2⟩

/-- The test passes for each field of a table. -/
lemma everywhere_of_mem_fields {fields : Table Json} (h : (obj fields).everywhere test = true) :
    ∀ e ∈ fields, e.2.everywhere test = true := by
  rw [everywhere, Bool.and_eq_true] at h
  replace h := h.2
  induction fields with
  | nil => exact fun e he => absurd he List.not_mem_nil
  | cons w rest ih =>
    rw [everywhereUnder, Bool.and_eq_true] at h
    exact List.forall_mem_cons.mpr ⟨h.1, ih h.2⟩

/-- The value is not a table whose fields are out of order. -/
def isOrdered : Json → Bool
  | .obj fields => decide (Table.Ordered fields)
  | _ => true

/-! ## Shapes -/

/-- What a value is, apart from the values in it. -/
inductive Shape where
  /-- The null value. -/
  | null
  /-- A truth value. -/
  | bool (b : Bool)
  /-- An integer. -/
  | int (i : Int)
  /-- A number that is no integer. -/
  | float (x : Number.Binary64)
  /-- A text. -/
  | str (s : String)
  /-- A list with so many items. -/
  | list (length : Nat)
  /-- A table with these keys. -/
  | table (keys : Finset String)

/-- The shape of a value. -/
def shape : Json → Shape
  | .null => .null
  | .bool b => .bool b
  | .int i => .int i
  | .float x => .float x
  | .str s => .str s
  | .arr items => .list items.length
  | .obj fields => .table (Table.keys fields).toFinset

/-- A value with nothing in it is determined by its shape. -/
lemma eq_of_shape_eq {v w : Json} (h : v.shape = w.shape) (hlist : ∀ items, v ≠ .arr items)
    (htable : ∀ fields, v ≠ .obj fields) : v = w := by
  cases v with
  | arr items => exact absurd rfl (hlist items)
  | obj fields => exact absurd rfl (htable fields)
  | _ => cases w <;> simp_all [shape]

/-- A step from a value to one in it. -/
inductive Step where
  /-- To an item of a list, by its number. -/
  | item (i : Nat)
  /-- To a field of a table, by its key. -/
  | field (key : String)

/-- The value that steps lead to. -/
def at? : List Step → Json → Option Json
  | [], v => some v
  | .item i :: rest, .arr items => items[i]?.bind (at? rest)
  | .field key :: rest, .obj fields => (Table.get? key fields).bind (at? rest)
  | _ :: _, _ => none

/-- The shape of the value that steps lead to. -/
def shapeAt? (path : List Step) (v : Json) : Option Shape := (v.at? path).map shape

/-- A test that passes everywhere in a value does so in each value that steps lead to.

**Proof sketch.** Induction on the steps: an item or a field of a value passes the test everywhere if the value
does. -/
lemma everywhere_of_at? {v w : Json} {path : List Step} (h : v.everywhere test = true)
    (hat : v.at? path = some w) : w.everywhere test = true := by
  induction path generalizing v with
  | nil => exact Option.some.inj hat ▸ h
  | cons step rest ih =>
    cases v with
    | arr items =>
      cases step with
      | field key => simp [at?] at hat
      | item i =>
        obtain ⟨u, hu, hat⟩ := Option.bind_eq_some_iff.mp hat
        exact ih (everywhere_of_mem_items h u (List.mem_of_getElem? hu)) hat
    | obj fields =>
      cases step with
      | item i => simp [at?] at hat
      | field key =>
        obtain ⟨u, hu, hat⟩ := Option.bind_eq_some_iff.mp hat
        exact ih (everywhere_of_mem_fields h (key, u) (Table.mem_of_get? hu)) hat
    | _ => cases step <;> simp [at?] at hat

/-- What is seen of a value itself. -/
@[simp] lemma shapeAt?_nil (v : Json) : shapeAt? [] v = some v.shape := by
  rw [shapeAt?, at?]
  rfl

/-- What is seen of the items of a list. -/
lemma shapeAt?_item (i : Nat) (path : List Step) (items : List Json) :
    shapeAt? (.item i :: path) (.arr items) = items[i]?.bind (shapeAt? path) := by
  rw [shapeAt?, at?, Option.map_bind]
  rfl

/-- What is seen of the fields of a table. -/
lemma shapeAt?_field (key : String) (path : List Step) (fields : Table Json) :
    shapeAt? (.field key :: path) (.obj fields) = (fields.get? key).bind (shapeAt? path) := by
  rw [shapeAt?, at?, Option.map_bind]
  rfl

/-- A place that may be empty is the same on both sides if the values there cannot be told apart, and such values
are equal. -/
lemma eq_of_bind_shapeAt?_eq {a b : Option Json}
    (h : ∀ path, a.bind (shapeAt? path) = b.bind (shapeAt? path))
    (ih : ∀ v ∈ a, ∀ w ∈ b, (∀ path, shapeAt? path v = shapeAt? path w) → v = w) : a = b := by
  cases a with
  | none =>
    cases b with
    | none => rfl
    | some w => simpa using h []
  | some v =>
    cases b with
    | none => simpa using h []
    | some w => rw [ih v rfl w rfl h]

/-- **Values that cannot be told apart are equal**, if their tables are in order.

**Proof sketch.** Induction over the first value.  Its own shape determines which kind of value the second one is,
and settles all values without items or fields.  For lists and tables, what is seen further down carries over to
what stands at each number or under each key, where the induction hypothesis applies; lists with the same items,
and ordered tables with the same fields, are equal. -/
theorem eq_of_shapeAt?_eq {v w : Json} (hv : v.everywhere isOrdered = true)
    (hw : w.everywhere isOrdered = true) (h : ∀ path, shapeAt? path v = shapeAt? path w) : v = w := by
  have hshape : v.shape = w.shape := by simpa using h []
  induction v using induct generalizing w with
  | arr items ih =>
    cases w with
    | arr items' =>
      have hitems : items = items' := by
        refine List.ext_getElem? fun i => eq_of_bind_shapeAt?_eq (fun path => ?_) fun a ha b hb hab => ?_
        · rw [← shapeAt?_item, ← shapeAt?_item, h]
        · have hamem : a ∈ items := List.mem_of_getElem? ha
          exact ih a hamem (everywhere_of_mem_items hv a hamem)
            (everywhere_of_mem_items hw b (List.mem_of_getElem? hb)) hab (by simpa using hab [])
      rw [hitems]
    | _ => simp [shape] at hshape
  | obj fields ih =>
    cases w with
    | obj fields' =>
      have hordered : Table.Ordered fields := of_decide_eq_true (test_of_everywhere hv)
      have hordered' : Table.Ordered fields' := of_decide_eq_true (test_of_everywhere hw)
      have hfields : fields = fields' := by
        refine hordered.ext hordered' fun key =>
          eq_of_bind_shapeAt?_eq (fun path => ?_) fun a ha b hb hab => ?_
        · rw [← shapeAt?_field, ← shapeAt?_field, h]
        · have hamem : (key, a) ∈ fields := (hordered.mem_iff_get? key a).mpr ha
          have hbmem : (key, b) ∈ fields' := (hordered'.mem_iff_get? key b).mpr hb
          exact ih _ hamem (everywhere_of_mem_fields hv _ hamem) (everywhere_of_mem_fields hw _ hbmem) hab
            (by simpa using hab [])
      rw [hfields]
    | _ => simp [shape] at hshape
  | _ => exact eq_of_shape_eq hshape (by simp) (by simp)

end CodeAtlas.Json
