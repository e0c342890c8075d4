import CodeAtlas.Proofs.Table
import CodeAtlas.Toml.Document

/-!
# The tables of a document are in order

A document is read line by line, and its tables grow by insertions only: of a value under a key, of a table or a
list of tables under a header, and of the tables on the way to them.  So the keys of every table, also of those
inside lists and on one line, are strictly increasing; in particular no table has a key twice.

## Main definitions

* `CodeAtlas.Toml.Value.Ordered` — every table in a value is in order.
* `CodeAtlas.Toml.Item.Ordered` — the same while a document is read.

## Main results

* `CodeAtlas.Toml.descend_ordered` — a change to the table at a path.
* `CodeAtlas.Toml.scanWithin_ordered` — values, items and pairs.
* `CodeAtlas.Toml.read_ordered` — documents.
-/

namespace CodeAtlas.Toml

/-- **Every table in a value is in order.** -/
inductive Value.Ordered : Value → Prop
  | text (s : String) : Ordered (.text s)
  | integer (i : Int) : Ordered (.integer i)
  | float (x : Number.Binary64) : Ordered (.float x)
  | boolean (b : Bool) : Ordered (.boolean b)
  | moment (s : String) : Ordered (.moment s)
  | array {items : List Value} (h : ∀ v ∈ items, Ordered v) : Ordered (.array items)
  | table {entries : Table Value} (hkeys : entries.Ordered) (h : ∀ e ∈ entries, Ordered e.2) :
      Ordered (.table entries)

/-- **Every table in an item is in order.** -/
inductive Item.Ordered : Item → Prop
  | value {v : Value} (h : v.Ordered) : Ordered (.value v)
  | table {implicit dotted : Bool} {entries : Entries} (hkeys : Table.Ordered entries)
      (h : ∀ e ∈ entries, Ordered e.2) : Ordered (.table implicit dotted entries)
  | tables {elements : List Entries} (hkeys : ∀ entries ∈ elements, Table.Ordered entries)
      (h : ∀ entries ∈ elements, ∀ e ∈ entries, Ordered e.2) : Ordered (.tables elements)

/-! ## From items to values -/

/-- The values of entries, one by one. -/
lemma entryValues_eq_map (entries : Entries) :
    entryValues entries = entries.map fun e => (e.1, e.2.toValue) := by
  induction entries with
  | nil => rfl
  | cons e rest ih => rw [entryValues, ih, List.map_cons]

/-- The values of tables are among those to come or tables themselves. -/
lemma mem_elementValues {elements : List Entries} {later : List Value} {v : Value}
    (h : v ∈ elementValues elements later) :
    v ∈ later ∨ ∃ entries ∈ elements, v = .table (entryValues entries) := by
  induction elements generalizing later with
  | nil => exact Or.inl h
  | cons entries rest ih =>
    rw [elementValues] at h
    rcases ih h with h | ⟨entries', hmem, rfl⟩
    · rcases List.mem_cons.mp h with rfl | h
      · exact Or.inr ⟨entries, List.mem_cons_self, rfl⟩
      · exact Or.inl h
    · exact Or.inr ⟨entries', List.mem_cons_of_mem _ hmem, rfl⟩

/-- The values of ordered entries, if their items have ordered values. -/
lemma entryValues_holding {entries : Entries} (hkeys : Table.Ordered entries)
    (h : ∀ e ∈ entries, e.2.toValue.Ordered) : Table.Holding Value.Ordered (entryValues entries) := by
  rw [entryValues_eq_map]
  exact Table.Holding.map (p := fun _ => True) Item.toValue ⟨hkeys, fun _ _ => trivial⟩ h

/-- An ordered item has an ordered value. -/
lemma Item.Ordered.toValue {item : Item} (h : item.Ordered) : item.toValue.Ordered := by
  induction h with
  | value h => exact h
  | table hkeys _ ih =>
    obtain ⟨ho, hvalues⟩ := entryValues_holding hkeys ih
    exact .table ho hvalues
  | tables hkeys _ ih =>
    refine .array fun v hv => ?_
    rcases mem_elementValues hv with hv | ⟨entries, hmem, rfl⟩
    · cases hv
    · obtain ⟨ho, hvalues⟩ := entryValues_holding (hkeys entries hmem) (ih entries hmem)
      exact .table ho hvalues

/-! ## Changes to entries -/

/-- **A change to the table at a path** keeps all tables in order, if it keeps the one it is applied to.

**Proof sketch.** Induction on the path.  The table under the first key is changed by the hypothesis and put back
under its key, where the tables around it stay in order; a missing table is made, and is empty before the change. -/
theorem descend_ordered {dotted : Bool} {change : Bool → Entries → Option Entries}
    (hchange : ∀ made entries entries', Table.Holding Item.Ordered entries →
      change made entries = some entries' → Table.Holding Item.Ordered entries')
    {path : List String} {made : Bool} {entries entries' : Entries} (h : Table.Holding Item.Ordered entries)
    (hdescend : descend dotted change path made entries = some entries') :
    Table.Holding Item.Ordered entries' := by
  induction path generalizing made entries entries' with
  | nil => exact hchange made entries entries' h hdescend
  | cons key path ih =>
    rw [descend] at hdescend
    cases hget : Table.get? key entries with
    | none =>
      rw [hget] at hdescend
      obtain ⟨inner, hinner, rfl⟩ := Option.map_eq_some_iff.mp hdescend
      have hholding := ih .nil hinner
      exact h.insert key (.table hholding.1 hholding.2)
    | some item =>
      rw [hget] at hdescend
      have hitem := h.of_get? hget
      cases item with
      | value v => cases hdescend
      | table implicit made' inner =>
        dsimp only at hdescend
        split_ifs at hdescend
        obtain ⟨inner', hinner, rfl⟩ := Option.map_eq_some_iff.mp hdescend
        cases hitem with
        | table hkeys hvalues =>
          have hholding := ih ⟨hkeys, hvalues⟩ hinner
          exact h.insert key (.table hholding.1 hholding.2)
      | tables elements =>
        cases elements with
        | nil => cases hdescend
        | cons latest before =>
          obtain ⟨inner, hinner, rfl⟩ := Option.map_eq_some_iff.mp hdescend
          cases hitem with
          | tables hkeys hvalues =>
            rw [List.forall_mem_cons] at hkeys hvalues
            have hholding := ih ⟨hkeys.1, hvalues.1⟩ hinner
            refine h.insert key (.tables ?_ ?_)
            · exact List.forall_mem_cons.mpr ⟨hholding.1, hkeys.2⟩
            · exact List.forall_mem_cons.mpr ⟨hholding.2, hvalues.2⟩

/-- A value under a dotted key. -/
lemma define_ordered {path : List String} {key : String} {v : Value} {entries entries' : Entries}
    (hv : v.Ordered) (h : Table.Holding Item.Ordered entries)
    (hdefine : define path key v entries = some entries') : Table.Holding Item.Ordered entries' := by
  refine descend_ordered ?_ h hdefine
  intro made entries entries' h hchange
  split_ifs at hchange
  rw [← Option.some.inj hchange]
  exact h.insert key (.value hv)

/-- Values under dotted keys. -/
lemma defineAll_ordered {pairs : List (List String × Value)} {entries entries' : Entries}
    (hpairs : ∀ pair ∈ pairs, pair.2.Ordered) (h : Table.Holding Item.Ordered entries)
    (hdefine : defineAll pairs entries = some entries') : Table.Holding Item.Ordered entries' := by
  induction pairs generalizing entries with
  | nil => exact Option.some.inj hdefine ▸ h
  | cons pair rest ih =>
    rw [List.forall_mem_cons] at hpairs
    rw [defineAll] at hdefine
    split at hdefine
    · cases hdefine
    · split at hdefine
      · cases hdefine
      · rename_i between hbetween
        exact ih hpairs.2 (define_ordered hpairs.1 h hbetween) hdefine

/-- The header of a table. -/
lemma openTable_ordered {path : List String} {key : String} {entries entries' : Entries}
    (h : Table.Holding Item.Ordered entries) (hopen : openTable path key entries = some entries') :
    Table.Holding Item.Ordered entries' := by
  refine descend_ordered ?_ h hopen
  intro _ entries entries' h hchange
  split at hchange
  · rw [← Option.some.inj hchange]
    exact h.insert key (.table List.Pairwise.nil (by simp))
  · rename_i inner hget
    rw [← Option.some.inj hchange]
    cases h.of_get? hget with
    | table hkeys hvalues => exact h.insert key (.table hkeys hvalues)
  · cases hchange

/-- The header of a further element of a list of tables. -/
lemma openElement_ordered {path : List String} {key : String} {entries entries' : Entries}
    (h : Table.Holding Item.Ordered entries) (hopen : openElement path key entries = some entries') :
    Table.Holding Item.Ordered entries' := by
  refine descend_ordered ?_ h hopen
  intro _ entries entries' h hchange
  split at hchange
  · rw [← Option.some.inj hchange]
    refine h.insert key (.tables ?_ ?_)
    · simp [Table.Ordered]
    · simp
  · rename_i elements hget
    rw [← Option.some.inj hchange]
    cases h.of_get? hget with
    | tables hkeys hvalues =>
      refine h.insert key (.tables ?_ ?_)
      · exact List.forall_mem_cons.mpr ⟨List.Pairwise.nil, hkeys⟩
      · exact List.forall_mem_cons.mpr ⟨by simp, hvalues⟩
  · cases hchange

/-! ## Values -/

/-- A value that is found before what follows. -/
lemma ordered_of_map {found : Option Value} (hfound : ∀ w, found = some w → w.Ordered) {after rest : List Char}
    {v : Value} (h : found.map (·, after) = some (v, rest)) : v.Ordered := by
  obtain ⟨w, hw, heq⟩ := Option.map_eq_some_iff.mp h
  exact (Prod.mk.inj heq).1 ▸ hfound w hw

/-- Integers have no tables. -/
lemma integer?_ordered (i : Int) (v : Value) (h : integer? i = some v) : v.Ordered := by
  unfold integer? at h
  split_ifs at h
  exact Option.some.inj h ▸ .integer i

/-- Digits of a base give an integer. -/
lemma scanBased_ordered {base : Nat} {cs rest : List Char} {v : Value} (h : scanBased base cs = some (v, rest)) :
    v.Ordered := by
  unfold scanBased at h
  split at h
  · cases h
  · exact ordered_of_map (integer?_ordered _) h

/-- An integer has no tables. -/
lemma scanInteger_ordered {cs rest : List Char} {v : Value} (h : scanInteger cs = some (v, rest)) :
    v.Ordered := by
  unfold scanInteger at h
  split at h
  · exact scanBased_ordered h
  · exact scanBased_ordered h
  · exact scanBased_ordered h
  · dsimp only at h
    split at h
    · cases h
    · exact ordered_of_map (integer?_ordered _) h

/-- Numbers have no tables. -/
lemma float?_ordered (negative : Bool) (digits : List Char) (exponent : Int) (v : Value)
    (h : float? negative digits exponent = some v) : v.Ordered := by
  unfold float? at h
  dsimp only at h
  split_ifs at h
  exact Option.some.inj h ▸ .float _

/-- A number with a fraction or an exponent has no tables. -/
lemma scanDecimal_ordered {cs rest : List Char} {v : Value} (h : scanDecimal cs = some (v, rest)) :
    v.Ordered := by
  unfold scanDecimal at h
  dsimp only at h
  split at h
  · split at h
    · cases h
    · split at h
      · cases h
      · exact ordered_of_map (float?_ordered _ _ _) h
  · split_ifs at h
    split at h
    · cases h
    · exact ordered_of_map (float?_ordered _ _ _) h
  · cases h

/-- A number that is no integer has no tables. -/
lemma scanFloat_ordered {cs rest : List Char} {v : Value} (h : scanFloat cs = some (v, rest)) : v.Ordered := by
  unfold scanFloat at h
  split at h
  · rename_i found hfound
    exact scanDecimal_ordered (Option.some.inj h ▸ hfound)
  · unfold scanSpecial at h
    split at h
    · cases h
      exact .float _
    · cases h
      exact .float _
    · cases h

/-- A moment or a number has no tables. -/
lemma scanNumeral_ordered {cs rest : List Char} {v : Value} (h : scanNumeral cs = some (v, rest)) :
    v.Ordered := by
  unfold scanNumeral at h
  split at h
  · rename_i found hfound
    obtain ⟨after, -, rfl⟩ := Option.map_eq_some_iff.mp hfound
    rw [← (Prod.mk.inj (Option.some.inj h)).1]
    exact .moment _
  · split at h
    · rename_i found hfound
      exact scanFloat_ordered (Option.some.inj h ▸ hfound)
    · exact scanInteger_ordered h

/-- What is read in a number of steps is in order: values, the items of a list and the pairs of a table. -/
structure ScanOrdered (fuel : Nat) : Prop where
  value : ∀ depth cs v rest, scanValueWithin fuel depth cs = some (v, rest) → v.Ordered
  items : ∀ depth read cs v rest, (∀ w ∈ read, w.Ordered) →
    scanItemsWithin fuel depth read cs = some (v, rest) → v.Ordered
  pairs : ∀ depth read cs v rest, (∀ pair ∈ read, pair.2.Ordered) →
    scanPairsWithin fuel depth read cs = some (v, rest) → v.Ordered

namespace ScanOrdered

variable {fuel depth : Nat} {cs rest : List Char} {v : Value}

/-- One more step for a value.

**Proof sketch.** By how the value begins.  Lists and tables are read by the hypothesis; all other values hold no
tables. -/
lemma value_succ (hfuel : ScanOrdered fuel) (h : scanValueWithin (fuel + 1) depth cs = some (v, rest)) :
    v.Ordered := by
  unfold scanValueWithin at h
  split at h
  · -- a list
    split at h
    · cases h
    · split at h
      · cases h
        exact .array (by simp)
      · exact hfuel.items _ _ _ _ _ (by simp) h
  · -- a table on one line
    split at h
    · cases h
    · split at h
      · cases h
        exact .table List.Pairwise.nil (by simp)
      · exact hfuel.pairs _ _ _ _ _ (by simp) h
  · cases h
    exact .boolean _
  · cases h
    exact .boolean _
  · split_ifs at h
    · obtain ⟨found, -, heq⟩ := Option.map_eq_some_iff.mp h
      cases heq
      exact .text _
    · exact scanNumeral_ordered h
  · cases h

/-- One more step for the items of a list. -/
lemma items_succ (hfuel : ScanOrdered fuel) {read : List Value} (hread : ∀ w ∈ read, w.Ordered)
    (h : scanItemsWithin (fuel + 1) depth read cs = some (v, rest)) : v.Ordered := by
  unfold scanItemsWithin at h
  split at h
  · cases h
  · rename_i w after hw
    have hread' : ∀ w' ∈ w :: read, w'.Ordered := List.forall_mem_cons.mpr ⟨hfuel.value _ _ _ _ hw, hread⟩
    have hlist : Value.Ordered (.array (w :: read).reverse) :=
      .array fun w' hw' => hread' w' (List.mem_reverse.mp hw')
    split at h
    · cases h
      exact hlist
    · split at h
      · cases h
        exact hlist
      · exact hfuel.items _ _ _ _ _ hread' h
    · cases h

/-- One more step for the pairs of a table. -/
lemma pairs_succ (hfuel : ScanOrdered fuel) {read : List (List String × Value)}
    (hread : ∀ pair ∈ read, pair.2.Ordered)
    (h : scanPairsWithin (fuel + 1) depth read cs = some (v, rest)) : v.Ordered := by
  unfold scanPairsWithin at h
  split at h
  · rename_i key after hkey
    split at h
    · cases h
    · rename_i w after' hw
      have hread' : ∀ pair ∈ (key, w) :: read, pair.2.Ordered :=
        List.forall_mem_cons.mpr ⟨hfuel.value _ _ _ _ hw, hread⟩
      split at h
      · obtain ⟨entries, hentries, heq⟩ := Option.map_eq_some_iff.mp h
        cases heq
        have hholding := defineAll_ordered
          (fun pair hpair => hread' pair (List.mem_reverse.mp hpair)) .nil hentries
        obtain ⟨ho, hvalues⟩ := entryValues_holding hholding.1 fun e he => (hholding.2 e he).toValue
        exact .table ho hvalues
      · exact hfuel.pairs _ _ _ _ _ hread' h
      · cases h
  · cases h

end ScanOrdered

/-- **Values, items and pairs**: all tables that are read are in order. -/
theorem scanWithin_ordered (fuel : Nat) : ScanOrdered fuel := by
  induction fuel with
  | zero => constructor <;> simp [scanValueWithin, scanItemsWithin, scanPairsWithin]
  | succ fuel ih =>
    exact ⟨fun _ _ _ _ => ih.value_succ, fun _ _ _ _ _ => ih.items_succ, fun _ _ _ _ _ => ih.pairs_succ⟩

/-! ## Documents -/

/-- The entries after all lines are in order. -/
lemma readLinesWithin_ordered {fuel : Nat} {header : List String} {entries entries' : Entries} {cs : List Char}
    (h : Table.Holding Item.Ordered entries) (hread : readLinesWithin fuel header entries cs = some entries') :
    Table.Holding Item.Ordered entries' := by
  induction fuel generalizing header entries cs with
  | zero =>
    rw [readLinesWithin] at hread
    split_ifs at hread
    exact Option.some.inj hread ▸ h
  | succ fuel ih =>
    unfold readLinesWithin at hread
    split at hread
    · exact Option.some.inj hread ▸ h
    · exact ih h hread
    · split at hread
      · -- the header of an element
        split at hread
        · cases hread
        · split at hread
          · cases hread
          · rename_i between hbetween
            exact ih (openElement_ordered h hbetween) hread
      · -- the header of a table
        split at hread
        · cases hread
        · split at hread
          · cases hread
          · rename_i between hbetween
            exact ih (openTable_ordered h hbetween) hread
      · -- a key and a value
        split at hread
        · split at hread
          · cases hread
          · rename_i v after hv
            have hvalue : v.Ordered := (scanWithin_ordered _).value _ _ _ _ hv
            split at hread
            · cases hread
            · split at hread
              · cases hread
              · rename_i between hbetween
                refine ih (descend_ordered ?_ h hbetween) hread
                intro _ inner inner' hinner hdefine
                exact defineAll_ordered (by simpa using hvalue) hinner hdefine
        · cases hread

/-- **Documents**: every table is in order. -/
theorem read_ordered {cs : List Char} {entries : Table Value} (h : read cs = some entries) :
    entries.Holding Value.Ordered := by
  obtain ⟨items, hitems, rfl⟩ := Option.map_eq_some_iff.mp h
  have hholding := readLinesWithin_ordered .nil hitems
  exact entryValues_holding hholding.1 fun e he => (hholding.2 e he).toValue

end CodeAtlas.Toml
