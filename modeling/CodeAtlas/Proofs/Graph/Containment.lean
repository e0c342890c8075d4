import Mathlib.Data.List.Nodup
import CodeAtlas.Proofs.Entity.Identity
import CodeAtlas.Proofs.Graph.Batch

/-!
# Containment

Every entity of the graph is contained by exactly one file, which is stored and is the one that the entity
names.  This holds because the identity of an entity tells its path, so that whatever is stored under an
identity a second time is stored for the same file.

## Main definitions

* `CodeAtlas.Graph.Memory.Contents.Contained` — the invariant.

## Main results

* `CodeAtlas.Graph.Memory.Contents.Contained.putBatch` — storing a batch keeps the invariant.
* `CodeAtlas.Graph.Memory.Contents.Contained.owners_eq` — an entity has one owner.
* `CodeAtlas.Graph.Memory.Contents.Contained.violations_eq`,
  `CodeAtlas.Graph.Memory.Contents.Contained.length_contains` — there is no violation, and there are as
  many edges as entities.
* `CodeAtlas.Graph.Memory.Contents.Contained.pairwise_uidsOf`,
  `CodeAtlas.Graph.Memory.Contents.Contained.mem_keys_iff` — the files share out the entities, each in
  order.
-/

namespace CodeAtlas

/-- An entity names the path of its file. -/
theorem Entity.get?_path_properties (e : Entity) (path : String) (v : List Number.Binary32) :
    (e.properties path v).get? "path" = some (.str path) := by
  simp only [properties, Table.ofList, List.foldl, Table.get?_insert, String.reduceEq, if_false, if_true]

namespace Graph.Memory.Contents

/-- **Every entity is contained by the file that it names.**  Identities are those of entities, and edges
lead from stored files to stored entities. -/
structure Contained (c : Contents) : Prop where
  /-- Entities are kept in order. -/
  entities_ordered : c.entities.Ordered
  /-- Edges are kept in order. -/
  edges_ordered : c.contains.Pairwise fun a b => a.before b = true
  /-- An edge starts at a stored file. -/
  source : ∀ {path uid}, (path, uid) ∈ c.contains → c.files.contains path = true
  /-- It ends at what is identified as an entity of this file. -/
  identity : ∀ {path uid}, (path, uid) ∈ c.contains → ∃ e : Entity, uid = e.uid path
  /-- It ends at a stored entity, which names this file. -/
  target : ∀ {path uid}, (path, uid) ∈ c.contains →
    ∃ node, c.entities.get? uid = some node ∧ recordedPath node = some path
  /-- At every stored entity some edge ends. -/
  owned : ∀ {uid node}, c.entities.get? uid = some node → ∃ path, (path, uid) ∈ c.contains

namespace Contained

/-- The empty graph. -/
theorem empty : Contained {} where
  entities_ordered := List.Pairwise.nil
  edges_ordered := List.Pairwise.nil
  source h := nomatch h
  identity h := nomatch h
  target h := nomatch h
  owned h := nomatch h

variable {c : Contents}

/-! ## What keeps the invariant -/

/-- Storing a file keeps the invariant. -/
theorem putFile (h : c.Contained) (path : String) (now : Json) : (c.putFile path now).Contained where
  entities_ordered := by rw [entities_putFile]; exact h.entities_ordered
  edges_ordered := by rw [edges_putFile]; exact h.edges_ordered
  source hedge := by
    rw [edges_putFile] at hedge
    rw [contains_putFile, h.source hedge, Bool.or_true]
  identity hedge := by rw [edges_putFile] at hedge; exact h.identity hedge
  target hedge := by
    rw [edges_putFile] at hedge
    rw [entities_putFile]
    exact h.target hedge
  owned hnode := by
    rw [entities_putFile] at hnode
    rw [edges_putFile]
    exact h.owned hnode

/-- The node of an entity names the path that its properties name. -/
lemma recordedPath_node (c : Contents) (uid : String) (now : Json) {props : Table Json} {path : String}
    (h : props.get? "path" = some (.str path)) : recordedPath (c.node uid now props) = some path := by
  rw [recordedPath, node, Table.get?_insert, if_neg (by decide), Table.get?_insert, if_neg (by decide), h]

/-- Storing an entity keeps the invariant.

**Proof sketch.** Only the node under the identity of the entity changes, and it names the path for which
it is stored.  An edge that ends there already comes from the same path, by `Entity.uid_inj`. -/
theorem putEmbedded (h : c.Contained) (now path : String) (e : Embedded) :
    (c.putEmbedded now path e).Contained := by
  rw [Contents.putEmbedded]
  by_cases hfile : c.files.contains path = true
  · rw [putEntity_of_contains hfile]
    have hrecorded := recordedPath_node c (e.1.uid path) (.str now)
      (e.1.get?_path_properties path e.2)
    refine ⟨h.entities_ordered.insert _ _, Edge.pairwise_insert h.edges_ordered, ?_, ?_, ?_, ?_⟩
    · intro p u hedge
      rcases Edge.mem_insert.mp hedge with hnew | hold
      · rw [(Prod.mk.inj hnew).1]
        exact hfile
      · exact h.source hold
    · intro p u hedge
      rcases Edge.mem_insert.mp hedge with hnew | hold
      · obtain ⟨rfl, rfl⟩ := Prod.mk.inj hnew
        exact ⟨e.1, rfl⟩
      · exact h.identity hold
    · intro p u hedge
      by_cases hu : u = e.1.uid path
      · have hp : p = path := by
          rcases Edge.mem_insert.mp hedge with hnew | hold
          · exact (Prod.mk.inj hnew).1
          · obtain ⟨d, hd⟩ := h.identity hold
            exact (Entity.uid_inj (hd.symm.trans hu)).1
        rw [hu, hp]
        exact ⟨_, Table.get?_insert_self _ _ _, hrecorded⟩
      · rcases Edge.mem_insert.mp hedge with hnew | hold
        · exact absurd (Prod.mk.inj hnew).2 hu
        · rw [Table.get?_insert_of_ne hu]
          exact h.target hold
    · intro u n hnode
      by_cases hu : u = e.1.uid path
      · exact ⟨path, Edge.mem_insert.mpr (Or.inl (by rw [hu]))⟩
      · rw [Table.get?_insert_of_ne hu] at hnode
        obtain ⟨p, hp⟩ := h.owned hnode
        exact ⟨p, Edge.mem_insert.mpr (Or.inr hp)⟩
  · rw [putEntity_of_not_contains hfile]
    exact h

/-- **Storing a batch keeps the invariant.** -/
theorem putBatch (h : c.Contained) (now path : String) (entities : List Embedded) :
    (c.putBatch now path entities).Contained := by
  rw [Contents.putBatch]
  have hfile := h.putFile path (.str now)
  generalize c.putFile path (.str now) = d at hfile ⊢
  induction entities generalizing d with
  | nil => exact hfile
  | cons e rest ih => exact ih _ (hfile.putEmbedded now path e)

/-! ## What follows from the invariant -/

/-- Edges that end at the same entity are equal. -/
theorem path_unique (h : c.Contained) {p q uid : String} (hp : (p, uid) ∈ c.contains)
    (hq : (q, uid) ∈ c.contains) : p = q := by
  obtain ⟨node, hnode, hpath⟩ := h.target hp
  obtain ⟨node', hnode', hpath'⟩ := h.target hq
  obtain rfl : node = node' := Option.some.inj (hnode.symm.trans hnode')
  exact Option.some.inj (hpath.symm.trans hpath')

/-- No edge is there twice. -/
theorem nodup_contains (h : c.Contained) : c.contains.Nodup := by
  refine List.Pairwise.imp ?_ h.edges_ordered
  rintro a b hbefore rfl
  exact Edge.not_before_self a hbefore

/-- **An entity has one owner**, which is stored and is the file that the entity names.

**Proof sketch.** The entity has an edge from the file that it names.  Any other edge to it comes from the file that
it names too, hence from the same one; and no edge is listed twice, so the edges to it are a list of one. -/
theorem owners_eq (h : c.Contained) {uid : String} {node : Table Json}
    (hnode : c.entities.get? uid = some node) :
    ∃ path, c.owners uid = [path] ∧ c.files.contains path = true ∧ recordedPath node = some path := by
  obtain ⟨path, hedge⟩ := h.owned hnode
  obtain ⟨node', hnode', hpath⟩ := h.target hedge
  obtain rfl : node' = node := Option.some.inj (hnode'.symm.trans hnode)
  refine ⟨path, ?_, h.source hedge, hpath⟩
  have hall : ∀ a ∈ c.contains.filter (fun e => e.2 = uid), a = (path, uid) := by
    rintro ⟨p, u⟩ ha
    obtain ⟨hmem, hu⟩ := List.mem_filter.mp ha
    obtain rfl : u = uid := of_decide_eq_true hu
    rw [h.path_unique hmem hedge]
  have hmem : (path, uid) ∈ c.contains.filter (fun e => e.2 = uid) :=
    List.mem_filter.mpr ⟨hedge, decide_eq_true rfl⟩
  have hsingle : c.contains.filter (fun e => e.2 = uid) = [(path, uid)] :=
    List.perm_singleton.mp ((List.perm_ext_iff_of_nodup (h.nodup_contains.filter _)
      (List.nodup_singleton _)).mpr fun a =>
        ⟨fun ha => List.mem_singleton.mpr (hall a ha), fun ha => List.mem_singleton.mp ha ▸ hmem⟩)
  rw [owners, hsingle, List.map_singleton]

/-- There is no violation. -/
theorem violations_eq (h : c.Contained) : c.violations = 0 := by
  rw [violations, List.length_eq_zero_iff, List.filter_eq_nil_iff]
  rintro ⟨uid, node⟩ hmem
  obtain ⟨path, howners, -, hpath⟩ :=
    h.owners_eq ((h.entities_ordered.mem_iff_get? uid node).mp hmem)
  simp [isContained, howners, hpath]

/-- The entities are those at which an edge ends. -/
lemma mem_keys_iff_exists_edge (h : c.Contained) (uid : String) :
    uid ∈ c.entities.keys ↔ ∃ path, (path, uid) ∈ c.contains := by
  rw [← Table.contains_iff_mem_keys, Table.contains, Option.isSome_iff_exists]
  constructor
  · rintro ⟨node, hnode⟩
    exact h.owned hnode
  · rintro ⟨path, hedge⟩
    obtain ⟨node, hnode, -⟩ := h.target hedge
    exact ⟨node, hnode⟩

/-- There are as many edges as entities.

**Proof sketch.** Each edge leads to one entity and each entity has one edge, so the targets of the edges are a
permutation of the identities. -/
theorem length_contains (h : c.Contained) : c.contains.length = c.entities.length := by
  have hnodup : (c.contains.map Prod.snd).Nodup := by
    refine List.Nodup.map_on ?_ h.nodup_contains
    rintro ⟨p, u⟩ hp ⟨q, v⟩ hq huv
    obtain rfl : u = v := huv
    rw [h.path_unique hp hq]
  have hkeys : c.entities.keys.Nodup := h.entities_ordered.keys.imp ne_of_lt
  have hperm : (c.contains.map Prod.snd).Perm c.entities.keys := by
    refine (List.perm_ext_iff_of_nodup hnodup hkeys).mpr fun uid => ?_
    rw [h.mem_keys_iff_exists_edge, List.mem_map]
    exact ⟨fun ⟨⟨p, u⟩, hedge, hu⟩ => ⟨p, hu ▸ hedge⟩, fun ⟨p, hedge⟩ => ⟨(p, uid), hedge, rfl⟩⟩
  have hlength := hperm.length_eq
  rw [List.length_map, Table.keys, List.length_map] at hlength
  exact hlength

/-- The entities of a file are those to which an edge leads from it. -/
lemma mem_uidsOf (c : Contents) (path uid : String) :
    uid ∈ c.uidsOf path ↔ (path, uid) ∈ c.contains := by
  rw [uidsOf, List.mem_map]
  constructor
  · rintro ⟨⟨p, u⟩, hmem, rfl⟩
    obtain ⟨hedge, hp⟩ := List.mem_filter.mp hmem
    obtain rfl : p = path := of_decide_eq_true hp
    exact hedge
  · intro hedge
    exact ⟨(path, uid), List.mem_filter.mpr ⟨hedge, decide_eq_true rfl⟩, rfl⟩

/-- The entities of a file are listed in strictly increasing order. -/
theorem pairwise_uidsOf (h : c.Contained) (path : String) : (c.uidsOf path).Pairwise (· < ·) := by
  rw [uidsOf, List.pairwise_map]
  refine (h.edges_ordered.filter _).imp_of_mem ?_
  intro a b ha hb hbefore
  have ha' : a.1 = path := of_decide_eq_true (List.mem_filter.mp ha).2
  have hb' : b.1 = path := of_decide_eq_true (List.mem_filter.mp hb).2
  exact Edge.snd_lt_of_before hbefore (ha'.trans hb'.symm)

/-- Files with a common entity are the same. -/
theorem disjoint_uidsOf (h : c.Contained) {p q : String} (hpq : p ≠ q) :
    List.Disjoint (c.uidsOf p) (c.uidsOf q) := by
  intro uid hp hq
  exact hpq (h.path_unique ((mem_uidsOf c p uid).mp hp) ((mem_uidsOf c q uid).mp hq))

/-- The entities of the stored files are all entities. -/
theorem mem_keys_iff (h : c.Contained) (uid : String) :
    uid ∈ c.entities.keys ↔ ∃ path ∈ c.files.keys, uid ∈ c.uidsOf path := by
  rw [h.mem_keys_iff_exists_edge]
  constructor
  · rintro ⟨path, hedge⟩
    exact ⟨path, (Table.contains_iff_mem_keys _ _).mp (h.source hedge), (mem_uidsOf c path uid).mpr hedge⟩
  · rintro ⟨path, -, huid⟩
    exact ⟨path, (mem_uidsOf c path uid).mp huid⟩

end Contained

end Graph.Memory.Contents

end CodeAtlas
