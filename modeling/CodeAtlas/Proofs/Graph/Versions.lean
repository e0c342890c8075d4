import CodeAtlas.Proofs.Graph.Buffered

/-!
# First created, last written

A deposit is a batch of entities of a file, stored at a time.  Each entity that it brings is a version of
what is stored under the identity of this entity.  After any deposits a file is dated by the first deposit
for its path.  An entity is dated by its first version and shows the properties of its last one, and
nothing else of the versions before is left.

So the graph is known from the deposits that succeeded, and depositing the same versions again, at
whatever time, changes nothing.

## Main definitions

* `CodeAtlas.Graph.Deposit`, `CodeAtlas.Graph.Version` — a batch at a time, and one entity of it.
* `CodeAtlas.Graph.Version.record` — what is stored for a version.
* `CodeAtlas.Graph.Memory.Contents.putDeposits` — deposits stored in order.
* `CodeAtlas.Graph.Memory.Contents.Gains` — what versions do to a graph.
* `CodeAtlas.Graph.attemptAll` — attempts to make deposits, any of which may fail.

## Main results

* `CodeAtlas.Graph.Memory.Contents.Gains.trans` — versions are gained one after the other.
* `CodeAtlas.Graph.Memory.Contents.gains_putDeposits` — what deposits do to a graph.
* `CodeAtlas.Graph.Memory.Contents.putDeposits_again` — the same versions once more change nothing.
* `CodeAtlas.Graph.contents_of_successful_deposits` — the graph after attempts from the empty one.
-/

namespace CodeAtlas.Graph

open Memory (Contents)

/-! ## Deposits and versions -/

/-- A batch of entities of a file, stored at a time. -/
structure Deposit where
  /-- The time. -/
  now : String
  /-- The path of the file. -/
  path : String
  /-- The entities with their vectors. -/
  entities : List Embedded

/-- An entity as a deposit brings it. -/
structure Version where
  /-- The time. -/
  now : String
  /-- The path of the file. -/
  path : String
  /-- The entity with its vector. -/
  content : Embedded

namespace Version

/-- The identity under which it is stored. -/
def uid (v : Version) : String := v.content.1.uid v.path

/-- What is stored for a version: nine properties of the entity, its identity, and its date. -/
def record (v : Version) (created : Json) : Table Json :=
  [("created", created), ("doc", .str v.content.1.doc), ("embedding", .ofVector v.content.2),
   ("endLine", .int v.content.1.endLine), ("kind", .str v.content.1.kind.label),
   ("language", .str v.content.1.language.id), ("name", .str v.content.1.name),
   ("path", .str v.path), ("snippet", .str v.content.1.snippet),
   ("startLine", .int v.content.1.startLine), ("uid", .str v.uid)]

/-- The date of a record. -/
lemma get?_created_record (v : Version) (created : Json) :
    (v.record created).get? "created" = some created := by
  rw [record, Table.get?, if_pos rfl]

/-- It is what the properties of the entity become with an identity and a date. -/
lemma record_eq (v : Version) (created : Json) :
    ((v.content.1.properties v.path v.content.2).insert "uid" (.str v.uid)).insert "created" created =
      v.record created := by
  simp only [Entity.properties, Table.ofList, List.foldl, Table.insert, String.reduceLT, String.reduceEq,
    if_true, if_false, record]

end Version

/-- The versions that a deposit brings, in order. -/
def Deposit.versions (d : Deposit) : List Version := d.entities.map (Version.mk d.now d.path)

/-- The versions that deposits bring, by deposit and then by place in the batch. -/
def versions (deposits : List Deposit) : List Version := deposits.flatMap Deposit.versions

/-- The versions of the first deposit come first. -/
lemma versions_cons (d : Deposit) (rest : List Deposit) :
    versions (d :: rest) = d.versions ++ versions rest := List.flatMap_cons

/-- The first version with an identity. -/
def IsFirst (uid : String) (v : Version) (all : List Version) : Prop :=
  v.uid = uid ∧ ∃ before later, all = before ++ v :: later ∧ ∀ w ∈ before, w.uid ≠ uid

/-- The last version with an identity. -/
def IsLast (uid : String) (v : Version) (all : List Version) : Prop :=
  v.uid = uid ∧ ∃ before later, all = before ++ v :: later ∧ ∀ w ∈ later, w.uid ≠ uid

/-- The first of the versions with an identity is its first version. -/
lemma isFirst_of_filter_eq {uid : String} {all rest : List Version} {first : Version}
    (h : all.filter (fun v => v.uid = uid) = first :: rest) : IsFirst uid first all := by
  obtain ⟨before, later, hall, hbefore, hfirst, -⟩ := List.filter_eq_cons_iff.mp h
  exact ⟨of_decide_eq_true hfirst, before, later, hall, fun w hw => by simpa using hbefore w hw⟩

/-- The last of the versions with an identity is its last version. -/
lemma isLast_of_filter_eq {uid : String} {all before : List Version} {last : Version}
    (h : all.filter (fun v => v.uid = uid) = before ++ [last]) : IsLast uid last all := by
  obtain ⟨front, back, hall, -, hback⟩ := List.filter_eq_append_iff.mp h
  obtain ⟨middle, later, hsplit, -, hlast, hlater⟩ := List.filter_eq_cons_iff.mp hback
  refine ⟨of_decide_eq_true hlast, front ++ middle, later, ?_, fun w hw => ?_⟩
  · rw [hall, hsplit, List.append_assoc]
  · simpa using List.filter_eq_nil_iff.mp hlater w hw

namespace Memory.Contents

/-- Deposits stored in order. -/
def putDeposits (c : Contents) (deposits : List Deposit) : Contents :=
  deposits.foldl (fun c d => c.putBatch d.now d.path d.entities) c

/-- The first deposit is stored as a batch. -/
lemma putDeposits_cons (c : Contents) (d : Deposit) (rest : List Deposit) :
    c.putDeposits (d :: rest) = (c.putBatch d.now d.path d.entities).putDeposits rest := rfl

/-- Deposits are stored one after the other. -/
lemma putDeposits_append (c : Contents) (earlier later : List Deposit) :
    c.putDeposits (earlier ++ later) = (c.putDeposits earlier).putDeposits later := List.foldl_append

/-! ## Order -/

/-- Storing a batch keeps the order. -/
theorem Sorted.putBatch {c : Contents} (h : c.Sorted) (now path : String) (entities : List Embedded) :
    (c.putBatch now path entities).Sorted := by
  have hfile := h.putFile path (.str now)
  rw [Contents.putBatch]
  generalize c.putFile path (.str now) = d at hfile ⊢
  induction entities generalizing d with
  | nil => exact hfile
  | cons e rest ih => exact ih _ (hfile.putEntity path _ _ _)

/-- Deposits keep the order. -/
theorem Sorted.putDeposits {c : Contents} (h : c.Sorted) (deposits : List Deposit) :
    (c.putDeposits deposits).Sorted := by
  induction deposits generalizing c with
  | nil => exact h
  | cons d rest ih => exact ih (h.putBatch d.now d.path d.entities)

/-! ## Files -/

/-- A file keeps its date, and a new one gets the date of the deposit. -/
lemma get?_files_putFile (c : Contents) (path other : String) (now : Json) :
    (c.putFile path now).files.get? other =
      (c.files.get? other).or (if path = other then some now else none) := by
  by_cases hknown : c.files.contains path = true
  · rw [putFile_of_contains hknown]
    by_cases h : path = other
    · subst h
      obtain ⟨date, hdate⟩ := Option.isSome_iff_exists.mp hknown
      rw [hdate, Option.some_or]
    · rw [if_neg h, Option.or_none]
  · rw [putFile, if_neg hknown, Table.get?_insert]
    by_cases h : path = other
    · subst h
      have hnone : c.files.get? path = none := by simpa [Table.contains] using hknown
      rw [if_pos rfl, if_pos rfl, hnone, Option.none_or]
    · rw [if_neg (Ne.symm h), if_neg h, Option.or_none]

/-- A batch stores its file. -/
lemma files_putBatch (c : Contents) (now path : String) (entities : List Embedded) :
    (c.putBatch now path entities).files = (c.putFile path (.str now)).files := by
  rw [putBatch]
  generalize c.putFile path (.str now) = d
  induction entities generalizing d with
  | nil => rfl
  | cons e rest ih => rw [List.foldl_cons, ih, files_putEmbedded]

/-- **A file is dated by the first deposit for its path**, unless it is known. -/
theorem get?_files_putDeposits (c : Contents) (deposits : List Deposit) (path : String) :
    (c.putDeposits deposits).files.get? path =
      (c.files.get? path).or ((deposits.find? fun d => d.path = path).map fun d => .str d.now) := by
  induction deposits generalizing c with
  | nil => rw [List.find?_nil, Option.map_none, Option.or_none]; rfl
  | cons d rest ih =>
    rw [putDeposits_cons, ih, files_putBatch, get?_files_putFile, Option.or_assoc]
    by_cases h : d.path = path
    · rw [if_pos h, List.find?_cons_of_pos (by simpa using h), Option.some_or, Option.map_some]
    · rw [if_neg h, List.find?_cons_of_neg (by simpa using h), Option.none_or]

/-! ## Entities and edges -/

/-- What is stored under an identity when these versions of it have been stored, in order. -/
def latest (c : Contents) (uid : String) : List Version → Option (Table Json)
  | [] => c.entities.get? uid
  | first :: rest =>
    some (((first :: rest).getLast (List.cons_ne_nil first rest)).record
      (c.createdOr uid (.str first.now)))

/-- An entity keeps the date of its first version. -/
lemma createdOr_of_get?_eq_latest {c d : Contents} {uid : String} {first : Version}
    {rest : List Version} (h : d.entities.get? uid = c.latest uid (first :: rest)) (now : Json) :
    d.createdOr uid now = c.createdOr uid (.str first.now) := by
  rw [createdOr, h, latest, Option.bind_some, Version.get?_created_record, Option.getD_some]

/-- Later versions come behind earlier ones.

**Proof sketch.** By whether there are later and earlier versions.  The later ones decide what is stored, and the
date is that of the first of all. -/
lemma latest_append {c d : Contents} {uid : String} {earlier : List Version}
    (h : d.entities.get? uid = c.latest uid earlier) (later : List Version) :
    d.latest uid later = c.latest uid (earlier ++ later) := by
  cases later with
  | nil => rw [List.append_nil, ← h, latest]
  | cons w later =>
    cases earlier with
    | nil =>
      have hcreated : d.createdOr uid (.str w.now) = c.createdOr uid (.str w.now) := by
        rw [createdOr, createdOr, h, latest]
      rw [List.nil_append, latest, latest, hcreated]
    | cons v earlier =>
      rw [latest, createdOr_of_get?_eq_latest h, List.cons_append, latest]
      congr 2
      exact (List.getLast_append_of_ne_nil (l := v :: earlier) _ (List.cons_ne_nil w later)).symm

/-- **What versions do to a graph.**  Under each identity stands what its versions make of it, and each
version has its edge. -/
structure Gains (c : Contents) (added : List Version) (d : Contents) : Prop where
  /-- What is stored under an identity. -/
  entities : ∀ uid, d.entities.get? uid = c.latest uid (added.filter fun v => v.uid = uid)
  /-- The edges. -/
  edges : ∀ e, e ∈ d.contains ↔ e ∈ c.contains ∨ ∃ v ∈ added, e = (v.path, v.uid)

/-- **Versions are gained one after the other.** -/
theorem Gains.trans {c d e : Contents} {earlier later : List Version} (h : c.Gains earlier d)
    (h' : d.Gains later e) : c.Gains (earlier ++ later) e where
  entities uid := by
    rw [h'.entities, List.filter_append]
    exact latest_append (h.entities uid) _
  edges x := by
    rw [h'.edges, h.edges, or_assoc, ← exists_or]
    simp only [List.mem_append, or_and_right]

/-- Storing a file gains no version. -/
lemma gains_putFile (c : Contents) (path : String) (now : Json) : c.Gains [] (c.putFile path now) where
  entities uid := by rw [entities_putFile, List.filter_nil, latest]
  edges e := by simp

/-- Storing an entity of a known file gains its version. -/
lemma gains_putEmbedded {c : Contents} {path : String} (h : c.files.contains path = true) (now : String)
    (e : Embedded) : c.Gains [⟨now, path, e⟩] (c.putEmbedded now path e) := by
  have hput : c.putEmbedded now path e = _ := putEntity_of_contains h _ _ _
  have hrecord := Version.record_eq ⟨now, path, e⟩ (c.createdOr (e.1.uid path) (.str now))
  rw [hput]
  refine ⟨fun uid => ?_, fun x => ?_⟩
  · rw [Table.get?_insert]
    by_cases huid : uid = e.1.uid path
    · subst huid
      rw [if_pos rfl, List.filter_cons_of_pos (by simp [Version.uid]), List.filter_nil, latest,
        List.getLast_singleton, ← hrecord]
      rfl
    · have hother : [Version.mk now path e].filter (fun v => v.uid = uid) = [] := by
        simp [Version.uid, Ne.symm huid]
      rw [if_neg huid, hother, latest]
  · rw [Edge.mem_insert, or_comm]
    simp [Version.uid]

/-- Storing a batch gains its versions.

**Proof sketch.** The file is there before its entities.  Then each entity gains its version, and by induction the
batch gains those of its entities, in order. -/
theorem gains_putBatch (c : Contents) (d : Deposit) :
    c.Gains d.versions (c.putBatch d.now d.path d.entities) := by
  obtain ⟨now, path, entities⟩ := d
  have hfile : (c.putFile path (.str now)).files.contains path = true := contains_putFile_self c path _
  have hentities : ∀ (entities : List Embedded) (b : Contents), b.files.contains path = true →
      b.Gains (entities.map (Version.mk now path))
        (entities.foldl (fun b e => b.putEmbedded now path e) b) := by
    intro entities
    induction entities with
    | nil => exact fun b _ => ⟨fun uid => rfl, fun e => by simp⟩
    | cons e rest ih =>
      intro b hb
      have hnext : (b.putEmbedded now path e).files.contains path = true := by
        rw [files_putEmbedded]
        exact hb
      exact (gains_putEmbedded hb now e).trans (ih _ hnext)
  exact (gains_putFile c path (.str now)).trans (hentities entities _ hfile)

/-- **Deposits gain their versions.** -/
theorem gains_putDeposits (c : Contents) (deposits : List Deposit) :
    c.Gains (versions deposits) (c.putDeposits deposits) := by
  induction deposits generalizing c with
  | nil => exact ⟨fun uid => rfl, fun e => by simp [putDeposits, versions]⟩
  | cons d rest ih =>
    rw [versions_cons, putDeposits_cons]
    exact (gains_putBatch c d).trans (ih _)

/-- What is stored under an identity of some version. -/
lemma Gains.get?_eq_record {c d : Contents} {added : List Version} (h : c.Gains added d) {v : Version}
    (hv : v ∈ added) :
    ∃ first last, IsFirst v.uid first added ∧ IsLast v.uid last added ∧
      d.entities.get? v.uid = some (last.record (c.createdOr v.uid (.str first.now))) := by
  have hget := h.entities v.uid
  cases hfilter : added.filter (fun w => w.uid = v.uid) with
  | nil => exact absurd (decide_eq_true rfl) (List.filter_eq_nil_iff.mp hfilter v hv)
  | cons first rest =>
    rw [hfilter, latest] at hget
    have hlast : added.filter (fun w => w.uid = v.uid) = (first :: rest).dropLast ++
        [(first :: rest).getLast (List.cons_ne_nil first rest)] := by
      rw [hfilter, List.dropLast_concat_getLast]
    exact ⟨first, _, isFirst_of_filter_eq hfilter, isLast_of_filter_eq hlast, hget⟩

/-- Under any other identity nothing changes. -/
lemma Gains.get?_eq_of_forall_ne {c d : Contents} {added : List Version} (h : c.Gains added d)
    {uid : String} (hne : ∀ v ∈ added, v.uid ≠ uid) : d.entities.get? uid = c.entities.get? uid := by
  have hfilter : added.filter (fun v => v.uid = uid) = [] :=
    List.filter_eq_nil_iff.mpr fun v hv => by simpa using hne v hv
  rw [h.entities, hfilter, latest]

/-! ## The same versions once more -/

end Memory.Contents

/-! ## Attempts -/

/-- An attempt to make a deposit.  Just before it, some more paths are made to fail. -/
structure Attempt where
  /-- The paths to which no write succeeds from now on. -/
  failing : List String
  /-- The deposit. -/
  deposit : Deposit

/-- The result of an attempt, and the state after it. -/
def Attempt.perform (fails : Nat → Option Failure) (a : Attempt) (u : Unreliable Memory) :
    Except Failure Unit × Unreliable Memory :=
  Repository.upsertBatch (Memory.store.unreliable fails) a.deposit.now a.deposit.path a.deposit.entities
    { u with state := a.failing.foldl (fun m path => m.failWritesFor path) u.state }

/-- Attempts in order, each with its result, and the state after them. -/
def attemptAll (fails : Nat → Option Failure) :
    List Attempt → Unreliable Memory → List (Deposit × Except Failure Unit) × Unreliable Memory
  | [], u => ([], u)
  | a :: rest, u =>
    let (result, u) := a.perform fails u
    let (results, u) := attemptAll fails rest u
    ((a.deposit, result) :: results, u)

/-- The deposits that were made. -/
def successful (results : List (Deposit × Except Failure Unit)) : List Deposit :=
  results.filterMap fun r =>
    match r.2 with
    | .ok () => some r.1
    | .error _ => none

/-- An attempt makes its deposit or changes nothing. -/
lemma Attempt.perform_cases (fails : Nat → Option Failure) (a : Attempt) (u : Unreliable Memory) :
    ((a.perform fails u).1 = .ok () ∧ (a.perform fails u).2.state.contents =
        u.state.contents.putBatch a.deposit.now a.deposit.path a.deposit.entities) ∨
      ((∃ f, (a.perform fails u).1 = .error f) ∧
        (a.perform fails u).2.state.contents = u.state.contents) := by
  have hfailing : ∀ (paths : List String) (m : Memory),
      (paths.foldl (fun m path => m.failWritesFor path) m).contents = m.contents := by
    intro paths
    induction paths with
    | nil => exact fun m => rfl
    | cons path rest ih => exact fun m => ih (m.failWritesFor path)
  have hcases := Repository.upsertBatch_cases (Memory.store_buffered.unreliable fails) a.deposit.now
    a.deposit.path a.deposit.entities
    { u with state := a.failing.foldl (fun m path => m.failWritesFor path) u.state }
  dsimp only at hcases
  rw [hfailing] at hcases
  exact hcases.imp_right fun ⟨⟨f, hf⟩, hgraph⟩ => ⟨⟨_, hf⟩, hgraph⟩

/-- Attempts make the deposits that succeed, and do nothing else.

**Proof sketch.** Induction on the attempts: each makes its deposit or changes nothing, and making paths fail
changes nothing. -/
theorem contents_attemptAll (fails : Nat → Option Failure) (attempts : List Attempt)
    (u : Unreliable Memory) :
    (attemptAll fails attempts u).2.state.contents =
      u.state.contents.putDeposits (successful (attemptAll fails attempts u).1) := by
  induction attempts generalizing u with
  | nil => rfl
  | cons a rest ih =>
    have hcases := a.perform_cases fails u
    rw [attemptAll]
    generalize a.perform fails u = r at hcases ⊢
    obtain ⟨result, u'⟩ := r
    dsimp only at hcases ⊢
    rcases hcases with ⟨rfl, hgraph⟩ | ⟨⟨f, rfl⟩, hgraph⟩
    · rw [ih u', hgraph]
      rfl
    · rw [ih u', hgraph]
      rfl

/-- **First created, last written.**  Attempts to store batches are made on the empty graph.  Any call of
the store may fail with any failure, and between the attempts paths may be made to fail.

Then the graph is known from the attempts that succeed.  A file is there if one of them is for its path, and
has the date of the first.  An entity is there if it has a version in one of them.  It has the nine
properties of its last version, its identity, and the date of its first version, and no other property.
Each version has its edge, and there is no other.

**Proof sketch.** The graph is what the successful deposits make of the empty one.  It gains their versions; so an
identity without a version is absent, and one with versions has the record of the last, with the date of the first.
Files are added by the first deposit for their path. -/
theorem contents_of_successful_deposits (fails : Nat → Option Failure) (attempts : List Attempt) :
    let outcome := attemptAll fails attempts { state := {} }
    let made := successful outcome.1
    let c := outcome.2.state.contents
    c.Sorted ∧
    (∀ path, c.files.get? path =
      (made.find? fun d => d.path = path).map fun d => .str d.now) ∧
    (∀ uid, c.entities.contains uid = true ↔ ∃ v ∈ versions made, v.uid = uid) ∧
    (∀ uid node, c.entities.get? uid = some node →
      ∃ first last, IsFirst uid first (versions made) ∧ IsLast uid last (versions made) ∧
        node = last.record (.str first.now)) ∧
    ∀ path uid, (path, uid) ∈ c.contains ↔ ∃ v ∈ versions made, v.path = path ∧ v.uid = uid := by
  intro outcome made c
  have hc : c = Contents.putDeposits {} made := contents_attemptAll fails attempts { state := {} }
  have hgains := Contents.gains_putDeposits {} made
  rw [← hc] at hgains
  have hdate : ∀ uid now, Contents.createdOr {} uid now = now := fun _ _ => rfl
  have habsent : ∀ uid, (∀ v ∈ versions made, v.uid ≠ uid) → c.entities.get? uid = none :=
    fun uid hne => hgains.get?_eq_of_forall_ne hne
  refine ⟨?_, fun path => ?_, fun uid => ?_, fun uid node hnode => ?_, fun path uid => ?_⟩
  · rw [hc]
    exact Contents.Sorted.empty.putDeposits made
  · rw [hc, Contents.get?_files_putDeposits]
    rfl
  · constructor
    · intro hstored
      by_contra hnone
      rw [Table.contains, habsent uid fun v hv huid => hnone ⟨v, hv, huid⟩] at hstored
      cases hstored
    · rintro ⟨v, hv, rfl⟩
      obtain ⟨first, last, -, -, hget⟩ := hgains.get?_eq_record hv
      rw [Table.contains, hget, Option.isSome_some]
  · obtain ⟨v, hv, rfl⟩ : ∃ v ∈ versions made, v.uid = uid := by
      by_contra hnone
      rw [habsent uid fun v hv huid => hnone ⟨v, hv, huid⟩] at hnode
      cases hnode
    obtain ⟨first, last, hfirst, hlast, hget⟩ := hgains.get?_eq_record hv
    rw [hdate, hnode] at hget
    exact ⟨first, last, hfirst, hlast, Option.some.inj hget⟩
  · rw [hgains.edges]
    constructor
    · rintro (hnone | ⟨v, hv, hedge⟩)
      · cases hnone
      · obtain ⟨hpath, huid⟩ := Prod.mk.inj hedge
        exact ⟨v, hv, hpath.symm, huid.symm⟩
    · rintro ⟨v, hv, rfl, rfl⟩
      exact Or.inr ⟨v, hv, rfl⟩

end CodeAtlas.Graph
