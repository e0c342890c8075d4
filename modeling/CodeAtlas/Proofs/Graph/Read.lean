import CodeAtlas.Proofs.Graph.Execute

/-!
# What the repository reads from the graph in memory

The statements that read are answered from the contents of the graph, and reading changes nothing.

## Main results

* `CodeAtlas.Graph.Repository.stats_store` — the size of the graph, unless it is too great to be told.
* `CodeAtlas.Graph.Repository.entityUids_store` — the entities of a file.
* `CodeAtlas.Graph.Repository.findEntity_store_snd` — looking up an entity changes nothing.
-/

namespace CodeAtlas.Graph

/-- An action that succeeds is followed by the next. -/
lemma Action.bind_ok {σ α β : Type} {x : Action σ α} {f : α → Action σ β} {s s' : σ} {a : α}
    (h : x s = (.ok a, s')) : (x >>= f) s = f a s' := by
  simp only [bind, ExceptT.bind, ExceptT.mk, StateT.bind, h, ExceptT.bindCont]

/-- An action that fails is not followed by any other. -/
lemma Action.bind_error {σ α β : Type} {x : Action σ α} {f : α → Action σ β} {s s' : σ} {e : Failure}
    (h : x s = (.error e, s')) : (x >>= f) s = (.error e, s') := by
  simp only [bind, ExceptT.bind, ExceptT.mk, StateT.bind, h, ExceptT.bindCont]
  rfl

/-- A statement of the program that reads is answered from the contents. -/
lemma Memory.execute_store_of_read {statement : Statement} (h : statement.isWrite = false)
    {params : Params} {m : Memory} {rows : List Row}
    (hread : m.contents.read statement params = .ok rows) :
    store.direct.execute statement.text params m = (.ok (rows.map .ok), m) := by
  rw [store_direct_execute, execute_of_not_isWrite (Statement.recognize_text statement) h, hread]
  rfl

namespace Repository

open Number (Word.leastSigned Word.greatestSigned)

/-! ## Counts -/

/-- A count is told if it fits a signed word.

**Proof sketch.** The statement gives one row with the count in it, which is read as a signed word; a natural number
is one exactly if it is not too great. -/
lemma count_store {statement : Statement} (h : statement.isWrite = false) {m : Memory} {n : Nat}
    (hread : m.contents.read statement [] = .ok (Memory.Contents.countRow n)) :
    (n ≤ Word.greatestSigned ∧ count Memory.store statement m = (.ok n, m)) ∨
      (Word.greatestSigned < n ∧ ∃ f, count Memory.store statement m = (.error f, m)) := by
  have hleast : Word.leastSigned ≤ (n : Int) := by
    rw [Word.leastSigned]
    omega
  have hfetch : (query statement).fetchOne Memory.store.direct m = (.ok _, m) :=
    Query.fetchOne_of_execute rfl (Memory.execute_store_of_read h hread)
  rw [count, hfetch]
  dsimp only [Memory.Contents.countRow, List.head?]
  rw [Row.getOptional, Row.single, Table.get?, if_pos rfl]
  dsimp only
  rw [Json.readSigned, Json.readInt]
  by_cases hn : (n : Int) ≤ Word.greatestSigned
  · rw [if_pos ⟨hleast, hn⟩]
    exact Or.inl ⟨hn, rfl⟩
  · rw [if_neg fun hfits => hn hfits.2]
    exact Or.inr ⟨by omega, _, rfl⟩

/-- **The size of the graph is told**, unless a count is too great.

**Proof sketch.** The four counts are told one after the other; the first that is too great makes the whole fail,
and nothing changes. -/
theorem stats_store (m : Memory) :
    stats Memory.store m =
        (.ok ⟨m.contents.files.length, m.contents.entities.length, m.contents.contains.length,
          m.contents.violations⟩, m) ∨
      ((Word.greatestSigned < m.contents.files.length ∨
          Word.greatestSigned < m.contents.entities.length ∨
          Word.greatestSigned < m.contents.contains.length ∨
          Word.greatestSigned < m.contents.violations) ∧
        ∃ f, stats Memory.store m = (.error f, m)) := by
  have hfiles := @count_store .countFiles rfl m _ rfl
  have hentities := @count_store .countEntities rfl m _ rfl
  have hedges := @count_store .countContains rfl m _ rfl
  have hviolations := @count_store .countViolations rfl m _ rfl
  rw [stats]
  rcases hfiles with ⟨-, h₁⟩ | ⟨hgreat, f, h₁⟩
  · rcases hentities with ⟨-, h₂⟩ | ⟨hgreat, f, h₂⟩
    · rcases hedges with ⟨-, h₃⟩ | ⟨hgreat, f, h₃⟩
      · rcases hviolations with ⟨-, h₄⟩ | ⟨hgreat, f, h₄⟩
        · left
          rw [Action.bind_ok h₁, Action.bind_ok h₂, Action.bind_ok h₃, Action.bind_ok h₄]
          rfl
        · refine Or.inr ⟨Or.inr (Or.inr (Or.inr hgreat)), f, ?_⟩
          rw [Action.bind_ok h₁, Action.bind_ok h₂, Action.bind_ok h₃, Action.bind_error h₄]
      · refine Or.inr ⟨Or.inr (Or.inr (Or.inl hgreat)), f, ?_⟩
        rw [Action.bind_ok h₁, Action.bind_ok h₂, Action.bind_error h₃]
    · refine Or.inr ⟨Or.inr (Or.inl hgreat), f, ?_⟩
      rw [Action.bind_ok h₁, Action.bind_error h₂]
  · exact Or.inr ⟨Or.inl hgreat, f, Action.bind_error h₁⟩

/-! ## Entities -/

/-- The column of texts is read. -/
lemma column_map_single (name : String) (values : List String) :
    column Json.readString name (values.map fun v => .single name (.str v)) = .ok values := by
  induction values with
  | nil => rfl
  | cons v rest ih =>
    rw [List.map_cons, column, ih, Row.get, Row.single, Table.get?, if_pos rfl]
    rfl

/-- **The entities of a file are listed.** -/
theorem entityUids_store (path : String) (m : Memory) :
    entityUids Memory.store path m = (.ok (m.contents.uidsOf path), m) := by
  have hread : m.contents.read .entityUids [("path", .str path)] =
      .ok ((m.contents.uidsOf path).map fun uid => .single "uid" (.str uid)) := by
    rw [Memory.Contents.read, Memory.textParam, Table.get?, if_pos rfl]
    rfl
  have hreads : Statement.entityUids.isWrite = false := rfl
  have hexecute := Memory.execute_store_of_read hreads hread
  have hfetch : ((query .entityUids).string "path" path).fetchAll Memory.store.direct m = _ :=
    Query.fetchAll_of_execute rfl hexecute
  rw [entityUids, hfetch]
  dsimp only
  rw [column_map_single]

/-- Looking up an entity gives the first row of what is stored under its identity. -/
lemma fetchOne_findEntity (uid : String) (m : Memory) :
    ((query .findEntity).string "uid" uid).fetchOne Memory.store.direct m =
      (.ok ((m.contents.entities.get? uid).map fun node => .single "entity" (.obj node)), m) := by
  have hread : m.contents.read .findEntity [("uid", .str uid)] =
      .ok ((m.contents.entities.get? uid).map fun node => Row.single "entity" (.obj node)).toList := by
    rw [Memory.Contents.read, Memory.textParam, Table.get?, if_pos rfl]
    dsimp only [bind, Except.bind]
    cases m.contents.entities.get? uid <;> rfl
  have hreads : Statement.findEntity.isWrite = false := rfl
  have hexecute := Memory.execute_store_of_read hreads hread
  have hfetch : ((query .findEntity).string "uid" uid).fetchOne Memory.store.direct m = _ :=
    Query.fetchOne_of_execute rfl hexecute
  rw [hfetch, Option.head?_toList]

/-- Looking up an entity changes nothing. -/
theorem findEntity_store_snd (uid : String) (m : Memory) :
    (findEntity Memory.store uid m).2 = m := by
  rw [findEntity, fetchOne_findEntity]
  cases m.contents.entities.get? uid <;> rfl

end Repository

end CodeAtlas.Graph
