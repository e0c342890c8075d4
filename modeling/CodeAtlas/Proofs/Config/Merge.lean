import CodeAtlas.Config.Load
import CodeAtlas.Proofs.Config.Grammar
import CodeAtlas.Proofs.Toml.Order

/-!
# The theory of layers

One layer over another answers each key of a section by itself: what the upper layer has under the key counts,
and where it has nothing, what the lower layer has.  This needs that the keys of every table are different, which
holds of every source, and that both layers have a table under the section, if they have anything.

Two tables under one key are merged further.  No setting is a table, so what the result holds does not matter; to
say this, values are compared by their forms, which leave the entries of tables out.

## Main definitions

* `CodeAtlas.Config.Value.Ordered` — every table in a value is in order.
* `CodeAtlas.Config.Value.Form` — what a value is, apart from its source and the entries of a table.
* `CodeAtlas.Config.Value.Opens` — a table whose part under a name is a table, if there is one.

## Main results

* `CodeAtlas.Config.Value.Ordered.merge` — layers of ordered layers are ordered.
* `CodeAtlas.Config.Value.form_get?_merge` — what one layer over another answers.
* `CodeAtlas.Config.Variable.read_ordered`, `CodeAtlas.Config.Surroundings.fileLayer_ordered` — all sources are
  ordered.
-/

namespace CodeAtlas.Config

namespace Value

/-- **Every table in a value is in order.** -/
inductive Ordered : Value → Prop
  | scalar (o : Origin) (s : Scalar) : Ordered (.scalar o s)
  | list {o : Origin} {items : List Value} (h : ∀ v ∈ items, Ordered v) : Ordered (.list o items)
  | table {o : Origin} {entries : Table Value} (hkeys : entries.Ordered) (h : ∀ e ∈ entries, Ordered e.2) :
      Ordered (.table o entries)

/-- **What a value is**, apart from its source and the entries of a table. -/
inductive Form where
  /-- A value without parts. -/
  | scalar (s : Scalar)
  /-- A list. -/
  | list (items : List Value)
  /-- A table. -/
  | table

/-- The form of a value. -/
def form : Value → Form
  | .scalar _ s => .scalar s
  | .list _ items => .list items
  | .table _ _ => .table

/-- The value is a table. -/
def IsTable (v : Value) : Prop := ∃ o entries, v = .table o entries

/-- **A table whose part under a name is a table**, if there is one. -/
def Opens (name : String) (v : Value) : Prop := v.IsTable ∧ ∀ w, v.get? [name] = some w → w.IsTable

/-! ## One layer over another -/

/-- The upper value decides the form. -/
@[simp] lemma form_merge (below above : Value) : (merge below above).form = above.form := by
  cases below <;> cases above <;> rfl

/-- A table over a table is a table. -/
lemma IsTable.merge {below above : Value} (habove : above.IsTable) : (merge below above).IsTable := by
  obtain ⟨o, entries, rfl⟩ := habove
  cases below with
  | table o' entries' => exact ⟨_, _, rfl⟩
  | scalar => exact ⟨_, _, rfl⟩
  | list => exact ⟨_, _, rfl⟩

/-- What a key answers after entries have been laid over others.

**Proof sketch.** Induction on the upper entries, which are laid over the lower ones one by one.  The first of them
is inserted under its key and, as keys are in order, not touched again; under any other key the insertion changes
nothing. -/
lemma get?_mergeEntries {above : Table Value} (h : above.Ordered) (below : Table Value) (key : String) :
    (mergeEntries below above).get? key =
      match above.get? key with
      | none => below.get? key
      | some v => some (match below.get? key with
        | some old => merge old v
        | none => v) := by
  induction above generalizing below with
  | nil => rfl
  | cons e rest ih =>
    obtain ⟨k, v⟩ := e
    rw [mergeEntries, ih (List.pairwise_cons.mp h).2, Table.get?]
    by_cases hk : k = key
    · subst hk
      rw [h.get?_rest, if_pos rfl]
      exact Table.get?_insert_self _ _ _
    · rw [if_neg hk, Table.get?_insert_of_ne (Ne.symm hk)]

/-- Entries laid over entries, when the values are of a kind that merging keeps. -/
lemma mergeEntries_holding {above : Table Value} (habove : ∀ e ∈ above, ∀ old, Ordered old →
      (merge old e.2).Ordered) (hvalues : ∀ e ∈ above, e.2.Ordered) {below : Table Value}
    (hbelow : below.Holding Ordered) : (mergeEntries below above).Holding Ordered := by
  induction above generalizing below with
  | nil => exact hbelow
  | cons e rest ih =>
    obtain ⟨k, v⟩ := e
    rw [List.forall_mem_cons] at habove hvalues
    rw [mergeEntries]
    refine ih habove.2 hvalues.2 (hbelow.insert k ?_)
    cases hget : Table.get? k below with
    | none => exact hvalues.1
    | some old => exact habove.1 old (hbelow.of_get? hget)

/-- **An ordered layer over an ordered layer is ordered.** -/
theorem Ordered.merge {below above : Value} (hbelow : below.Ordered) (habove : above.Ordered) :
    (Value.merge below above).Ordered := by
  induction habove generalizing below with
  | scalar o s => cases below <;> exact .scalar o s
  | list h _ => cases below <;> exact .list h
  | table hkeys h ih =>
    cases hbelow with
    | scalar => exact .table hkeys h
    | list => exact .table hkeys h
    | table hkeys' h' =>
      have hholding := mergeEntries_holding (fun e he old hold => ih e he hold) h ⟨hkeys', h'⟩
      exact .table hholding.1 hholding.2

/-- Under a path of one name, a table answers as its entries do. -/
@[simp] lemma get?_singleton (o : Origin) (entries : Table Value) (name : String) :
    (Value.table o entries).get? [name] = Table.get? name entries := by
  rw [get?]
  cases Table.get? name entries <;> rfl

/-- Under a path of two names, a table answers through its part. -/
lemma get?_pair (v : Value) (name key : String) :
    v.get? [name, key] = (v.get? [name]).bind (·.get? [key]) := by
  cases v with
  | table o entries =>
    rw [get?_singleton, get?]
    cases Table.get? name entries <;> rfl
  | scalar => rfl
  | list => rfl

/-- What one table over another answers under a name. -/
lemma get?_merge {below above : Value} (hbelow : below.IsTable) (habove : above.IsTable) (h : above.Ordered)
    (name : String) :
    (merge below above).get? [name] =
      match above.get? [name] with
      | none => below.get? [name]
      | some v => some (match below.get? [name] with
        | some old => merge old v
        | none => v) := by
  obtain ⟨o, entries, rfl⟩ := hbelow
  obtain ⟨o', entries', rfl⟩ := habove
  cases h with
  | table hkeys _ =>
    rw [merge, get?_singleton, get?_singleton, get?_singleton]
    exact get?_mergeEntries hkeys entries name

/-- One such table over another is such a table.

**Proof sketch.** What the merged table has under the name is that of the lower one, that of the upper one, or the
two of them merged; all three are tables. -/
lemma Opens.merge {name : String} {below above : Value} (hbelow : below.Opens name) (habove : above.Opens name)
    (h : above.Ordered) : (Value.merge below above).Opens name := by
  refine ⟨habove.1.merge, fun w hw => ?_⟩
  rw [get?_merge hbelow.1 habove.1 h] at hw
  cases hget : above.get? [name] with
  | none =>
    rw [hget] at hw
    exact hbelow.2 w hw
  | some v =>
    rw [hget] at hw
    dsimp only at hw
    rw [← Option.some.inj hw]
    split
    · exact (habove.2 v hget).merge
    · exact habove.2 v hget

/-- What is answered under a path is ordered. -/
lemma Ordered.get? {v w : Value} (h : v.Ordered) {path : List String} (hget : v.get? path = some w) :
    w.Ordered := by
  induction path generalizing v with
  | nil => exact Option.some.inj hget ▸ h
  | cons key path ih =>
    cases h with
    | scalar => cases hget
    | list => cases hget
    | table hkeys h =>
      rw [Value.get?] at hget
      split at hget
      · rename_i u hu
        exact ih (h _ (Table.mem_of_get? hu)) hget
      · cases hget

/-- **What one layer over another answers** for a key of a section: the upper layer first, then the lower.

**Proof sketch.** Under the name of the section both layers have a table or nothing.  If both have one, the two are
merged, and under the key the upper one answers first again.  If only one has, it answers alone. -/
theorem form_get?_merge {name : String} {below above : Value} (hbelow : below.Opens name)
    (habove : above.Opens name) (h : above.Ordered) (key : String) :
    ((merge below above).get? [name, key]).map form =
      ((above.get? [name, key]).map form).or ((below.get? [name, key]).map form) := by
  rw [get?_pair, get?_pair, get?_pair, get?_merge hbelow.1 habove.1 h]
  cases ha : above.get? [name] with
  | none => simp
  | some v =>
    cases hb : below.get? [name] with
    | none => simp
    | some old =>
      dsimp only [Option.bind_some]
      rw [get?_merge (hbelow.2 old hb) (habove.2 v ha) (h.get? ha)]
      cases v.get? [key] with
      | none => simp
      | some w => cases old.get? [key] <;> simp

/-! ## Sources -/

/-- A value at the end of a path of tables is ordered. -/
lemma Ordered.nest {v : Value} (h : v.Ordered) (o : Origin) (path : List String) : (nest o path v).Ordered := by
  induction path with
  | nil => exact h
  | cons key path ih => exact .table (List.pairwise_singleton _ _) (by simpa using ih)

/-- The values of entries, one by one. -/
lemma ofTomlEntries_eq_map (o : Origin) (entries : Table Toml.Value) :
    ofTomlEntries o entries = entries.map fun e => (e.1, ofToml o e.2) := by
  induction entries with
  | nil => rfl
  | cons e rest ih => rw [ofTomlEntries, ih, List.map_cons]

/-- The values of items, one by one. -/
lemma ofTomlItems_eq_map (o : Origin) (items : List Toml.Value) :
    ofTomlItems o items = items.map (ofToml o) := by
  induction items with
  | nil => rfl
  | cons v rest ih => rw [ofTomlItems, ih, List.map_cons]

/-- Ordered values of a document are ordered values. -/
lemma ofToml_ordered (o : Origin) {v : Toml.Value} (h : v.Ordered) : (ofToml o v).Ordered := by
  induction h with
  | text s => exact .scalar _ _
  | integer i => exact .scalar _ _
  | float x => exact .scalar _ _
  | boolean b => exact .scalar _ _
  | moment s => exact .table (List.pairwise_singleton _ _) (by simpa using .scalar _ _)
  | array _ ih =>
    rw [ofToml, ofTomlItems_eq_map]
    exact .list (List.forall_mem_map.mpr ih)
  | table hkeys _ ih =>
    rw [ofToml, ofTomlEntries_eq_map]
    exact .table (List.pairwise_map.mpr hkeys) (List.forall_mem_map.mpr ih)

end Value

namespace Variable

/-- Every table in a part is in order, if those already read are. -/
def Part.Ordered : Part → Prop
  | .value v => v.Ordered
  | .items vs => ∀ v ∈ vs, v.Ordered
  | .entries read all => read.Holding Value.Ordered → all.Holding Value.Ordered

/-- What is written is ordered.

**Proof sketch.** Induction on how the part is written.  Lists and tables inherit it from what they hold; an entry
is inserted into a table, which keeps the keys in order. -/
lemma Written.ordered {o : Origin} {cs rest : List Char} {part : Part} (h : Written o cs part rest) :
    part.Ordered := by
  induction h with
  | true => exact .scalar _ _
  | false => exact .scalar _ _
  | table _ ih => exact .table (ih .nil).1 (ih .nil).2
  | list _ ih => exact .list ih
  | quoted => exact .scalar _ _
  | char => exact .scalar _ _
  | loose => exact .scalar _ _
  | noItem => exact fun v hv => absurd hv List.not_mem_nil
  | lastItem _ _ _ ih => exact List.forall_mem_singleton.mpr ih
  | item _ _ _ _ ihv ih => exact List.forall_mem_cons.mpr ⟨ihv, ih⟩
  | noEntry => exact id
  | lastEntry _ _ _ _ _ ih => exact fun hread => hread.insert _ ih
  | entry _ _ _ _ _ _ ihv ih => exact fun hread => ih (hread.insert _ ihv)

/-- **The value of a variable is ordered.** -/
theorem read_ordered (o : Origin) (text : String) : (read o text).Ordered := by
  by_cases h : ∃ v, Complete o text v
  · obtain ⟨v, hv⟩ := h
    rw [read_of_complete hv]
    obtain ⟨rest, hwritten, -⟩ := hv
    exact hwritten.ordered
  · rw [read_of_not_complete (not_exists.mp h)]
    exact .scalar _ _

end Variable

namespace Surroundings

/-- **The layer of a file is an ordered table.**

**Proof sketch.** Of the cases of reading a file one gives a layer: its bytes are a text, and the text is a
document.  The tables of a document are ordered at every depth, and so are those of the layer that is made from it. -/
theorem fileLayer_ordered {s : Surroundings} {place : List String} {v : Value}
    (h : s.fileLayer place = .ok (some v)) : v.Ordered ∧ v.IsTable := by
  unfold fileLayer at h
  split at h
  · cases h
  · dsimp only at h
    split at h
    · cases h
    · split at h
      · cases h
      · rename_i entries hread
        cases h
        have hholding := Toml.read_ordered hread
        rw [Value.ofTomlEntries_eq_map]
        refine ⟨.table (List.pairwise_map.mpr hholding.1) ?_, _, _, rfl⟩
        exact List.forall_mem_map.mpr fun e he => Value.ofToml_ordered _ (hholding.2 e he)

end Surroundings

end CodeAtlas.Config
