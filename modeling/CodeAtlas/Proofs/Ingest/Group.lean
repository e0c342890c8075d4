import Mathlib.Data.List.Induction
import Mathlib.Data.List.Nodup
import CodeAtlas.Ingest.Group

/-!
# The theory of grouping by file

Grouping a batch keeps the items of each file and their order; only items of different files change
places.

## Main definitions

* `CodeAtlas.Ingest.ungroup` — the items of groups, in order.

## Main results

* `CodeAtlas.Ingest.nodup_groupByFile` — each file has one group.
* `CodeAtlas.Ingest.ne_nil_of_mem_groupByFile` — no group is empty.
* `CodeAtlas.Ingest.filter_ungroup_groupByFile` — the items of a file keep their order.
* `CodeAtlas.Ingest.length_ungroup_groupByFile` — no item is lost and none is made up.
-/

namespace CodeAtlas.Ingest

/-- The items of a group. -/
def Group.items (g : Group) : List Item := g.2.map (Item.mk g.1)

/-- The items of groups, in order. -/
def ungroup (groups : List Group) : List Item := groups.flatMap Group.items

/-- The items of the first group come first. -/
@[simp] theorem ungroup_cons (g : Group) (rest : List Group) :
    ungroup (g :: rest) = g.items ++ ungroup rest := rfl

/-- Groups are taken apart one after the other. -/
@[simp] theorem ungroup_append (xs ys : List Group) :
    ungroup (xs ++ ys) = ungroup xs ++ ungroup ys := List.flatMap_append

/-- All items of a group are of its file. -/
lemma Group.path_of_mem_items {g : Group} {i : Item} (h : i ∈ g.items) : i.path = g.1 := by
  obtain ⟨e, -, rfl⟩ := List.mem_map.mp h
  rfl

/-! ## One item more -/

/-- The paths of the groups after one more item. -/
lemma mem_paths_addToGroup {item : Item} {groups : List Group} {path : String} :
    path ∈ (addToGroup item groups).map Prod.fst ↔
      path = item.path ∨ path ∈ groups.map Prod.fst := by
  induction groups with
  | nil => simp [addToGroup]
  | cons g rest ih =>
    obtain ⟨q, es⟩ := g
    rw [addToGroup]
    split_ifs with h
    · simp [h]
    · rw [List.map_cons, List.mem_cons, ih, List.map_cons, List.mem_cons, or_left_comm]

/-- One more item does not give a file a second group. -/
lemma nodup_addToGroup {item : Item} {groups : List Group} (h : (groups.map Prod.fst).Nodup) :
    ((addToGroup item groups).map Prod.fst).Nodup := by
  induction groups with
  | nil => exact List.nodup_singleton _
  | cons g rest ih =>
    obtain ⟨q, es⟩ := g
    rw [List.map_cons, List.nodup_cons] at h
    rw [addToGroup]
    split_ifs with hq
    · exact List.nodup_cons.mpr h
    · rw [List.map_cons, List.nodup_cons]
      refine ⟨fun hmem => ?_, ih h.2⟩
      exact (mem_paths_addToGroup.mp hmem).elim hq h.1

/-- One more item leaves no group empty. -/
lemma ne_nil_addToGroup {item : Item} {groups : List Group} (h : ∀ g ∈ groups, g.2 ≠ [])
    {g : Group} (hg : g ∈ addToGroup item groups) : g.2 ≠ [] := by
  induction groups with
  | nil =>
    rw [addToGroup, List.mem_singleton] at hg
    simp [hg]
  | cons d rest ih =>
    obtain ⟨q, es⟩ := d
    rw [addToGroup] at hg
    split_ifs at hg
    · rcases List.mem_cons.mp hg with rfl | hg
      · simp
      · exact h g (List.mem_cons_of_mem _ hg)
    · rcases List.mem_cons.mp hg with rfl | hg
      · exact h _ List.mem_cons_self
      · exact ih (fun g hmem => h g (List.mem_cons_of_mem _ hmem)) hg

/-- There are no items of a file without a group. -/
lemma filter_ungroup_of_notMem {groups : List Group} {path : String}
    (h : path ∉ groups.map Prod.fst) : (ungroup groups).filter (fun i => i.path = path) = [] := by
  rw [List.filter_eq_nil_iff]
  intro i hi
  obtain ⟨g, hg, hig⟩ := List.mem_flatMap.mp hi
  have hne : i.path ≠ path := by
    rw [Group.path_of_mem_items hig]
    exact fun heq => h (List.mem_map.mpr ⟨g, hg, heq⟩)
  simp [hne]

/-- One more item comes last among those of its file, and changes nothing for the other files.

**Proof sketch.** Induction on the groups.  The item is put at the end of the group of its file; no later group is
of this file, so it comes last among the items of the file. -/
lemma filter_ungroup_addToGroup {item : Item} {groups : List Group}
    (h : (groups.map Prod.fst).Nodup) (path : String) :
    (ungroup (addToGroup item groups)).filter (fun i => i.path = path) =
      (ungroup groups).filter (fun i => i.path = path) ++
        [item].filter (fun i => i.path = path) := by
  induction groups with
  | nil => rfl
  | cons g rest ih =>
    obtain ⟨q, es⟩ := g
    rw [List.map_cons, List.nodup_cons] at h
    rw [addToGroup]
    split_ifs with hq
    · have hitems : Group.items (q, es ++ [item.content]) = Group.items (q, es) ++ [item] := by
        rw [Group.items, Group.items, List.map_append, hq]
        rfl
      rw [ungroup_cons, ungroup_cons, hitems, List.append_assoc, List.filter_append,
        List.filter_append, List.filter_append, List.append_assoc]
      by_cases hpath : item.path = path
      · -- no later group is of this file
        rw [filter_ungroup_of_notMem (hpath ▸ hq ▸ h.1), List.append_nil, List.nil_append]
      · rw [List.filter_cons_of_neg (by simp [hpath]), List.filter_nil, List.append_nil,
          List.nil_append]
    · rw [ungroup_cons, ungroup_cons, List.filter_append, List.filter_append, ih h.2,
        List.append_assoc]

/-- One more item is one more item. -/
lemma length_ungroup_addToGroup (item : Item) (groups : List Group) :
    (ungroup (addToGroup item groups)).length = (ungroup groups).length + 1 := by
  induction groups with
  | nil => rfl
  | cons g rest ih =>
    obtain ⟨q, es⟩ := g
    rw [addToGroup]
    split_ifs
    · simp only [ungroup_cons, Group.items, List.length_append, List.length_map,
        List.length_singleton]
      omega
    · rw [ungroup_cons, ungroup_cons, List.length_append, ih, List.length_append, Nat.add_assoc]

/-! ## A whole batch -/

/-- A batch with one more item. -/
@[simp] theorem groupByFile_append_singleton (batch : List Item) (item : Item) :
    groupByFile (batch ++ [item]) = addToGroup item (groupByFile batch) := by
  rw [groupByFile, List.foldl_append]
  rfl

/-- Each file has one group. -/
theorem nodup_groupByFile (batch : List Item) : ((groupByFile batch).map Prod.fst).Nodup := by
  induction batch using List.reverseRecOn with
  | nil => exact List.nodup_nil
  | append_singleton batch item ih =>
    rw [groupByFile_append_singleton]
    exact nodup_addToGroup ih

/-- No group is empty. -/
theorem ne_nil_of_mem_groupByFile {batch : List Item} {g : Group} (h : g ∈ groupByFile batch) :
    g.2 ≠ [] := by
  induction batch using List.reverseRecOn generalizing g with
  | nil => cases h
  | append_singleton batch item ih =>
    rw [groupByFile_append_singleton] at h
    exact ne_nil_addToGroup (fun g => ih) h

/-- **Grouping keeps the items of each file, in order.** -/
theorem filter_ungroup_groupByFile (batch : List Item) (path : String) :
    (ungroup (groupByFile batch)).filter (fun i => i.path = path) =
      batch.filter (fun i => i.path = path) := by
  induction batch using List.reverseRecOn with
  | nil => rfl
  | append_singleton batch item ih =>
    rw [groupByFile_append_singleton, filter_ungroup_addToGroup (nodup_groupByFile batch), ih,
      List.filter_append]

/-- What is in a group comes from the batch. -/
theorem mem_of_mem_groupByFile {batch : List Item} {g : Group} (hg : g ∈ groupByFile batch)
    {e : Graph.Embedded} (he : e ∈ g.2) : Item.mk g.1 e ∈ batch := by
  have hitem : Item.mk g.1 e ∈ (ungroup (groupByFile batch)).filter (fun i => i.path = g.1) := by
    refine List.mem_filter.mpr ⟨List.mem_flatMap.mpr ⟨g, hg, ?_⟩, decide_eq_true rfl⟩
    exact List.mem_map_of_mem he
  rw [filter_ungroup_groupByFile] at hitem
  exact List.mem_of_mem_filter hitem

/-- Grouping keeps the number of items. -/
theorem length_ungroup_groupByFile (batch : List Item) :
    (ungroup (groupByFile batch)).length = batch.length := by
  induction batch using List.reverseRecOn with
  | nil => rfl
  | append_singleton batch item ih =>
    rw [groupByFile_append_singleton, length_ungroup_addToGroup, ih, List.length_append,
      List.length_singleton]

/-! ## Several batches -/

/-- Grouping several batches keeps the items of each file, in order. -/
lemma filter_ungroup_flatMap (batches : List (List Item)) (path : String) :
    (ungroup (batches.flatMap groupByFile)).filter (fun i => i.path = path) =
      batches.flatten.filter (fun i => i.path = path) := by
  induction batches with
  | nil => rfl
  | cons batch rest ih =>
    rw [List.flatMap_cons, ungroup_append, List.filter_append, filter_ungroup_groupByFile, ih,
      List.flatten_cons, List.filter_append]

end CodeAtlas.Ingest
