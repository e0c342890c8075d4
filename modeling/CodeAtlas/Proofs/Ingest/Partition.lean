import Mathlib.Data.List.Sort
import CodeAtlas.Proofs.Ingest.Group

/-!
# Grouping by file is a stable partition

The groups of a batch are determined by what they are for: each file of the batch has one group, the files
come in the order in which they first appear, and a group holds the items of its file in the order of the
batch.  No other list of groups has these properties, and grouping finds the one that has.

## Main definitions

* `CodeAtlas.Ingest.FirstSeenBefore` — the order of first appearance.
* `CodeAtlas.Ingest.StablePartition` — a batch, split stably by file.

## Main results

* `CodeAtlas.Ingest.pairwise_groupByFile` — files are listed in the order of first appearance.
* `CodeAtlas.Ingest.StablePartition.perm` — only items of different files change places.
* `CodeAtlas.Ingest.StablePartition.unique` — a batch is split in one way.
* `CodeAtlas.Ingest.groupByFile_partitions_stably` — grouping splits a batch in this way.
-/

namespace CodeAtlas.Ingest

variable {batch : List Item} {groups : List Group}

/-- The first item of one file comes before all items of another. -/
def FirstSeenBefore (batch : List Item) (p q : String) : Prop :=
  (batch.map Item.path).idxOf p < (batch.map Item.path).idxOf q

/-- **A batch, split stably by file.** -/
structure StablePartition (batch : List Item) (groups : List Group) : Prop where
  /-- No file has two groups. -/
  nodup : (groups.map Prod.fst).Nodup
  /-- Files come in the order in which they first appear in the batch. -/
  ordered : (groups.map Prod.fst).Pairwise (FirstSeenBefore batch)
  /-- Every file of the batch has a group. -/
  complete : ∀ i ∈ batch, i.path ∈ groups.map Prod.fst
  /-- No group is empty. -/
  ne_nil : ∀ g ∈ groups, g.2 ≠ []
  /-- A group holds the items of its file, in the order of the batch. -/
  items_eq : ∀ g ∈ groups, g.items = batch.filter fun i => i.path = g.1

/-! ## The order of first appearance -/

/-- What comes later does not change the order of the files that are there. -/
lemma FirstSeenBefore.append {p q : String} (h : FirstSeenBefore batch p q) (hq : q ∈ batch.map Item.path)
    (later : List Item) : FirstSeenBefore (batch ++ later) p q := by
  have hp : p ∈ batch.map Item.path := by
    rw [← List.idxOf_lt_length_iff]
    exact h.trans (List.idxOf_lt_length_of_mem hq)
  unfold FirstSeenBefore
  rw [List.map_append, List.idxOf_append_of_mem hp, List.idxOf_append_of_mem hq]
  exact h

/-- A new file comes after those that are there. -/
lemma firstSeenBefore_of_notMem {p q : String} (hp : p ∈ batch.map Item.path) (hq : q ∉ batch.map Item.path)
    (later : List Item) : FirstSeenBefore (batch ++ later) p q := by
  unfold FirstSeenBefore
  rw [List.map_append, List.idxOf_append_of_mem hp, List.idxOf_append_of_notMem hq]
  exact Nat.lt_add_right _ (List.idxOf_lt_length_of_mem hp)

/-- One more item adds the path of its file at the end, unless it is known. -/
lemma paths_addToGroup (item : Item) (groups : List Group) :
    (addToGroup item groups).map Prod.fst =
      if item.path ∈ groups.map Prod.fst then groups.map Prod.fst
      else groups.map Prod.fst ++ [item.path] := by
  induction groups with
  | nil => rfl
  | cons g rest ih =>
    obtain ⟨q, es⟩ := g
    rw [addToGroup, List.map_cons]
    by_cases hq : q = item.path
    · rw [if_pos hq, if_pos (List.mem_cons.mpr (Or.inl hq.symm)), List.map_cons]
    · have hmem : item.path ∈ q :: rest.map Prod.fst ↔ item.path ∈ rest.map Prod.fst := by
        rw [List.mem_cons, or_iff_right fun heq => hq heq.symm]
      rw [if_neg hq, List.map_cons, ih]
      simp only [hmem]
      split_ifs
      · rfl
      · rfl

/-- The files of the groups are those of the batch. -/
lemma mem_paths_groupByFile {path : String} :
    path ∈ (groupByFile batch).map Prod.fst ↔ path ∈ batch.map Item.path := by
  induction batch using List.reverseRecOn with
  | nil => rfl
  | append_singleton batch item ih =>
    rw [groupByFile_append_singleton, mem_paths_addToGroup, ih, List.map_append, List.mem_append,
      List.map_singleton, List.mem_singleton, or_comm]

/-- **Files are listed in the order in which they first appear.**

**Proof sketch.** Induction from the end of the batch.  The last item is of a known file, whose place does
not change, or of a new one, which comes last in the groups and in the batch. -/
theorem pairwise_groupByFile (batch : List Item) :
    ((groupByFile batch).map Prod.fst).Pairwise (FirstSeenBefore batch) := by
  induction batch using List.reverseRecOn with
  | nil => exact List.Pairwise.nil
  | append_singleton batch item ih =>
    have hknown : ((groupByFile batch).map Prod.fst).Pairwise (FirstSeenBefore (batch ++ [item])) := by
      refine ih.imp_of_mem fun _ hq hbefore => ?_
      exact hbefore.append (mem_paths_groupByFile.mp hq) [item]
    rw [groupByFile_append_singleton, paths_addToGroup]
    split_ifs with hitem
    · exact hknown
    · rw [mem_paths_groupByFile] at hitem
      refine List.pairwise_append.mpr ⟨hknown, List.pairwise_singleton _ _, ?_⟩
      intro p hp q hq
      rw [List.mem_singleton.mp hq]
      exact firstSeenBefore_of_notMem (mem_paths_groupByFile.mp hp) hitem [item]

/-! ## The items of a group -/

/-- The contents of the items of a group are those of the group. -/
lemma Group.map_content_items (g : Group) : g.items.map Item.content = g.2 := by
  rw [Group.items, List.map_map]
  exact List.map_id g.2

/-- The items of a file are those of its group.

**Proof sketch.** Induction on the groups: the items of a group are of its own file, and no other group is of this
file. -/
lemma filter_ungroup_of_mem (h : (groups.map Prod.fst).Nodup) {g : Group} (hg : g ∈ groups) :
    (ungroup groups).filter (fun i => i.path = g.1) = g.items := by
  induction groups with
  | nil => cases hg
  | cons d rest ih =>
    rw [List.map_cons, List.nodup_cons] at h
    rw [ungroup_cons, List.filter_append]
    rcases List.mem_cons.mp hg with rfl | hg
    · have hall : g.items.filter (fun i => i.path = g.1) = g.items :=
        List.filter_eq_self.mpr fun i hi => decide_eq_true (Group.path_of_mem_items hi)
      rw [hall, filter_ungroup_of_notMem h.1, List.append_nil]
    · have hne : d.1 ≠ g.1 := fun heq => h.1 (heq ▸ List.mem_map_of_mem hg)
      have hnone : d.items.filter (fun i => i.path = g.1) = [] :=
        List.filter_eq_nil_iff.mpr fun i hi hpath =>
          hne ((Group.path_of_mem_items hi).symm.trans (of_decide_eq_true hpath))
      rw [hnone, List.nil_append, ih h.2 hg]

/-- **The groups of a batch split it stably.** -/
theorem stablePartition_groupByFile (batch : List Item) : StablePartition batch (groupByFile batch) where
  nodup := nodup_groupByFile batch
  ordered := pairwise_groupByFile batch
  complete _ hi := mem_paths_groupByFile.mpr (List.mem_map_of_mem hi)
  ne_nil _ := ne_nil_of_mem_groupByFile
  items_eq g hg := by
    rw [← filter_ungroup_groupByFile, filter_ungroup_of_mem (nodup_groupByFile batch) hg]

/-! ## What a stable partition determines -/

namespace StablePartition

/-- The items of each file are kept, in order. -/
lemma filter_ungroup (h : StablePartition batch groups) (path : String) :
    (ungroup groups).filter (fun i => i.path = path) = batch.filter fun i => i.path = path := by
  by_cases hpath : path ∈ groups.map Prod.fst
  · obtain ⟨g, hg, rfl⟩ := List.mem_map.mp hpath
    rw [filter_ungroup_of_mem h.nodup hg, h.items_eq g hg]
  · have hnone : batch.filter (fun i => i.path = path) = [] :=
      List.filter_eq_nil_iff.mpr fun i hi heq => hpath (of_decide_eq_true heq ▸ h.complete i hi)
    rw [filter_ungroup_of_notMem hpath, hnone]

/-- **Nothing is lost, made up or moved to another file**: the items of the groups are those of the batch. -/
theorem perm (h : StablePartition batch groups) : (ungroup groups).Perm batch := by
  rw [List.perm_iff_count]
  intro i
  -- an item is counted among those of its own file
  have hcount : ∀ items : List Item, items.count i = (items.filter fun j => j.path = i.path).count i :=
    fun items => (List.count_filter (by simp)).symm
  rw [hcount, h.filter_ungroup, ← hcount]

/-- A file with a group is one of the batch. -/
lemma mem_paths_iff (h : StablePartition batch groups) {path : String} :
    path ∈ groups.map Prod.fst ↔ path ∈ batch.map Item.path := by
  constructor
  · intro hpath
    obtain ⟨g, hg, rfl⟩ := List.mem_map.mp hpath
    obtain ⟨e, he⟩ := List.exists_mem_of_ne_nil _ (h.ne_nil g hg)
    have hitem : Item.mk g.1 e ∈ Group.items g := List.mem_map_of_mem he
    rw [h.items_eq g hg] at hitem
    exact List.mem_map.mpr ⟨_, List.mem_of_mem_filter hitem, rfl⟩
  · intro hpath
    obtain ⟨i, hi, rfl⟩ := List.mem_map.mp hpath
    exact h.complete i hi

/-- The groups are found from their files. -/
lemma eq_map (h : StablePartition batch groups) :
    groups = (groups.map Prod.fst).map fun path =>
      (path, (batch.filter fun i => i.path = path).map Item.content) := by
  rw [List.map_map]
  refine (List.map_id groups).symm.trans (List.map_congr_left fun g hg => ?_)
  rw [Function.comp_apply, ← h.items_eq g hg, Group.map_content_items]
  rfl

/-- **A batch is split in one way.** -/
theorem unique {others : List Group} (h : StablePartition batch groups) (h' : StablePartition batch others) :
    groups = others := by
  have hperm : (groups.map Prod.fst).Perm (others.map Prod.fst) :=
    (List.perm_ext_iff_of_nodup h.nodup h'.nodup).mpr fun _ => h.mem_paths_iff.trans h'.mem_paths_iff.symm
  have hpaths : groups.map Prod.fst = others.map Prod.fst := by
    refine hperm.eq_of_pairwise (fun p q _ _ hpq hqp => ?_) h.ordered h'.ordered
    exact absurd hqp (Nat.lt_asymm hpq)
  rw [h.eq_map, hpaths, ← h'.eq_map]

end StablePartition

/-- **Grouping by file is the stable partition of a batch.**  The groups have pairwise distinct paths in the
order of first appearance, none of them is empty, each holds exactly the items of its file in the order of the
batch, and no other list of groups is such.  The items of the groups, one after the other and each under the
path of its group, are those of the batch in another order.

**Proof sketch.** Grouping gives a stable partition, by induction on the batch from its end.  A stable partition is
known from the batch: its paths are in the order of first appearance, and each group is what the batch holds for its
path. -/
theorem groupByFile_partitions_stably (batch : List Item) :
    (∀ groups, StablePartition batch groups ↔ groups = groupByFile batch) ∧
      (ungroup (groupByFile batch)).Perm batch := by
  have hgroups := stablePartition_groupByFile batch
  refine ⟨fun groups => ⟨fun h => h.unique hgroups, fun h => ?_⟩, hgroups.perm⟩
  rw [h]
  exact hgroups

/-- Three items of two files, by turns. -/
example (x y z : Graph.Embedded) :
    groupByFile [⟨"b.py", x⟩, ⟨"a.py", y⟩, ⟨"b.py", z⟩] = [("b.py", [x, z]), ("a.py", [y])] := rfl

end CodeAtlas.Ingest
