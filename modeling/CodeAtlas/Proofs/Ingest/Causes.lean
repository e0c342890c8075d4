import CodeAtlas.Bolt.Client
import CodeAtlas.Proofs.Ingest.Schedule
import CodeAtlas.Proofs.Ingest.Skipping

/-!
# Why runs fail

A run over the files below a directory fails when the directory is not there or a pattern of the settings is
none, when the store cannot be set up, when a file cannot be written, or when there is no vector for an entity.
An embedder that answers every text with a vector of the right length leaves the other reasons.  What a store
says when it is set up is its own affair; the stores of the program, which are the graph in memory and the
database, do not speak of vectors.

## Main definitions

* `CodeAtlas.Ingest.conclusion` — how a run ended.

## Main results

* `CodeAtlas.Ingest.exists_validation_of_inputsOf` — why there are no files.
* `CodeAtlas.Bolt.exists_query_of_ensureSchema` — why a database cannot be set up.
* `CodeAtlas.Ingest.run_failure_of_pure` — why a run fails when its embedder does not.
* `CodeAtlas.Ingest.conclusion_ne_embedding` — such a run does not fail over a vector.
-/

namespace CodeAtlas

/-! ## Files -/

/-- The first failure is the failure of the whole. -/
lemma exists_of_bind_eq_error {α β : Type} {x : Except Failure α} {g : α → Except Failure β} {f : Failure}
    (h : x >>= g = .error f) : x = .error f ∨ ∃ a, x = .ok a ∧ g a = .error f := by
  cases x with
  | error f' =>
    cases h
    exact Or.inl rfl
  | ok a => exact Or.inr ⟨a, rfl, h⟩

namespace Files

variable {f : Failure}

/-- A text that is no pattern is not valid. -/
lemma Filter.exists_validation_of_compile {patterns : List String} (h : compile patterns = .error f) :
    ∃ reason, f = .validation reason := by
  induction patterns with
  | nil => cases h
  | cons text rest ih =>
    unfold compile at h
    cases hpattern : Glob.Pattern.ofString .plain text with
    | error fault =>
      rw [hpattern] at h
      cases h
      exact ⟨_, rfl⟩
    | ok p =>
      rw [hpattern] at h
      cases hrest : compile rest with
      | error f' =>
        rw [hrest] at h
        cases h
        exact ih hrest
      | ok ps =>
        rw [hrest] at h
        cases h

/-- A filter fails over one of its patterns. -/
lemma Filter.exists_validation_of_ofPatterns {includes excludes : List String}
    (h : ofPatterns includes excludes = .error f) : ∃ reason, f = .validation reason := by
  unfold ofPatterns at h
  -- the patterns that exclude are read last, whether there are others or not
  have hexcludes : ∀ {g : List Glob.Pattern → Filter},
      (compile excludes >>= fun excluded => pure (g excluded)) = .error f → ∃ reason, f = .validation reason := by
    intro g hg
    rcases exists_of_bind_eq_error hg with hexcluded | ⟨excluded, -, hlast⟩
    · exact exists_validation_of_compile hexcluded
    · cases hlast
  dsimp only at h
  split_ifs at h
  · exact hexcludes h
  · rcases exists_of_bind_eq_error h with hincluded | ⟨included, -, hrest⟩
    · cases hcompile : compile includes with
      | error f' =>
        rw [hcompile] at hincluded
        cases hincluded
        exact exists_validation_of_compile hcompile
      | ok patterns =>
        rw [hcompile] at hincluded
        cases hincluded
    · exact hexcludes hrest

/-- A search fails when there is no directory. -/
lemma exists_validation_of_discover {tree : Entry} {base : List String} {root : String} {filter : Filter}
    (h : discover tree base root filter = .error f) : ∃ reason, f = .validation reason := by
  unfold discover at h
  split at h
  · cases h
  · cases h
    exact ⟨_, rfl⟩

end Files

/-! ## Databases -/

namespace Bolt

open CodeAtlas.Graph

variable {σ : Type} {server : Server σ} {login : Login} {statement : String} {params : Params} {f : Failure}

/-- A statement that is sent in vain is refused. -/
lemma exists_refused_of_attempt {more : Nat} {c : Client σ}
    (h : (attempt server statement params more c).1 = .error f) : ∃ reason, f = refused statement reason := by
  induction more generalizing c with
  | zero =>
    unfold attempt at h
    generalize c.send server (.run statement (wireParams params)) = answer at h
    rcases answer with ⟨⟨fields, records⟩ | ⟨code, message⟩, c'⟩
    · cases h
    · cases h
      exact ⟨_, rfl⟩
  | succ more ih =>
    unfold attempt at h
    generalize c.send server (.run statement (wireParams params)) = answer at h
    rcases answer with ⟨⟨fields, records⟩ | ⟨code, message⟩, c'⟩
    · cases h
    · dsimp only at h
      split_ifs at h
      · exact ih h
      · cases h
        exact ⟨_, rfl⟩

/-- So is one for which there is no connection. -/
lemma exists_refused_of_direct {c : Client σ}
    (h : ((store server login).direct.run statement params c).1 = .error f) :
    ∃ reason, f = refused statement reason := by
  dsimp only [store, executor, direct] at h
  generalize c.acquire server login = taken at h
  rcases taken with ⟨reason | _, c'⟩
  · cases h
    exact ⟨reason, rfl⟩
  · dsimp only at h
    cases hresult : (attempt server statement params (maxAttempts - 1) c').1 with
    | error f' =>
      rw [hresult] at h
      cases h
      exact exists_refused_of_attempt hresult
    | ok rows =>
      rw [hresult] at h
      cases h

/-- **A database that cannot be set up refuses a statement.**

**Proof sketch.** Induction on the statements of the schema: the first that fails is one that the database refuses,
or for which there is no connection. -/
lemma exists_query_of_ensureSchema {c : Client σ}
    (h : (Repository.ensureSchema (store server login) c).1 = .error f) :
    ∃ reason statement, f = .query reason statement := by
  unfold Repository.ensureSchema at h
  generalize Statement.schema = statements at h
  induction statements generalizing c with
  | nil => cases h
  | cons x rest ih =>
    rw [List.map_cons, Repository.runAll_cons] at h
    cases hfirst : (Repository.query x).run (store server login).direct c with
    | mk result c' =>
      rw [hfirst] at h
      cases result with
      | error f' =>
        cases h
        obtain ⟨reason, rfl⟩ := exists_refused_of_direct (congrArg Prod.fst hfirst)
        exact ⟨_, _, rfl⟩
      | ok _ => exact ih h

end Bolt

/-! ## Runs -/

namespace Ingest

open CodeAtlas.Graph CodeAtlas.Embedding

variable {σ τ : Type} {store : Store σ τ} {embedder : Embedder} {vector : String → Embedding.Vector}
  {clock : Nat → String} {tree : Files.Entry} {base : List String} {settings : Config.IngestSettings} {s : σ}
  {f : Failure}

/-- How a run ended, whether its files were found or not. -/
def conclusion : Except Failure Report → Except Failure Unit
  | .error f => .error f
  | .ok report => report.result

/-- **There are no files** if the settings are not valid. -/
lemma exists_validation_of_inputsOf (h : inputsOf tree base settings = .error f) :
    ∃ reason, f = .validation reason := by
  unfold inputsOf at h
  rcases exists_of_bind_eq_error h with hfilter | ⟨filter, -, hrest⟩
  · exact Files.Filter.exists_validation_of_ofPatterns hfilter
  · rcases exists_of_bind_eq_error hrest with hfound | ⟨found, -, hlast⟩
    · exact Files.exists_validation_of_discover hfound
    · cases hlast

/-- **Why a run fails when its embedder does not**: its files are not found, its store cannot be set up, or a file
cannot be written.

**Proof sketch.** If the files are found, a run fails over its store, over the write of a file, or over an entity
without a vector; and an embedder that is a function has a vector for every entity. -/
theorem run_failure_of_pure (hpure : embedder.Pure vector)
    (h : conclusion (run store embedder clock tree base settings s).1 = .error f) :
    inputsOf tree base settings = .error f ∨ (Repository.ensureSchema store s).1 = .error f ∨
      ∃ path cause, f = .write path cause := by
  unfold run at h
  cases hinputs : inputsOf tree base settings with
  | error f' =>
    rw [hinputs] at h
    cases h
    exact Or.inl rfl
  | ok inputs =>
    rw [hinputs] at h
    rcases failure_cases h with hschema | hwrite | ⟨call, x, -, hembed⟩
    · exact Or.inr (Or.inl hschema)
    · exact Or.inr (Or.inr hwrite)
    · rw [embedEntity_of_pure hpure] at hembed
      cases hembed

/-- **Such a run does not fail over a vector**, unless its store speaks of one when it is set up. -/
theorem conclusion_ne_embedding (hpure : embedder.Pure vector) {reason : String}
    (hschema : (Repository.ensureSchema store s).1 ≠ .error (.embedding reason)) :
    conclusion (run store embedder clock tree base settings s).1 ≠ .error (.embedding reason) := by
  intro h
  rcases run_failure_of_pure hpure h with hinputs | hstore | ⟨path, cause, hwrite⟩
  · obtain ⟨reason', hreason⟩ := exists_validation_of_inputsOf hinputs
    cases hreason
  · exact hschema hstore
  · cases hwrite

end Ingest

end CodeAtlas
