import Mathlib.Data.List.Basic
import CodeAtlas.Ingest.Run

/-!
# The entities of the files of a run

A run embeds and writes the entities of the files that parse, file by file.  Each file contributes its own
entities under its own path, whatever files stand beside it.  A file that does not parse is skipped, whatever the
reason: no file ends a run.

## Main definitions

* `CodeAtlas.Ingest.entitiesOfInput`, `CodeAtlas.Ingest.entitiesOf` — the entities of a file and of files.

## Main results

* `CodeAtlas.Ingest.fatal_parseAll` — no file ends a run.
* `CodeAtlas.Ingest.flatten_parsed` — these are the entities that a run embeds.
* `CodeAtlas.Ingest.filter_entitiesOf` — the entities of a path come from the files with this path.
* `CodeAtlas.Ingest.runFilesBy_of_ready` — what a run does once its store is set up.
-/

namespace CodeAtlas.Ingest

open CodeAtlas.Graph CodeAtlas.Embedding

/-- The entities of a file, if it parses. -/
def entitiesOfInput (i : Input) : List (String × Entity) :=
  match i.parse with
  | .error _ => []
  | .ok p => p.entities.map fun e => (p.path, e)

/-- The entities of the files of a run, in order. -/
def entitiesOf (inputs : List Input) : List (String × Entity) := inputs.flatMap entitiesOfInput

/-- A file that cannot be read, is no text, or is not accepted costs a run only that file. -/
lemma Input.recoverable_of_parse {i : Input} {f : Failure} (h : i.parse = .error f) : f.recoverable = true := by
  rw [Input.parse] at h
  cases hsource : i.source with
  | error reason =>
    rw [hsource] at h
    cases h
    rfl
  | ok source =>
    rw [hsource] at h
    dsimp only at h
    rw [Entity.Source.entities] at h
    cases htext : Text.Utf8.decode source.bytes with
    | error fault =>
      rw [htext] at h
      cases h
      rfl
    | ok text =>
      rw [htext] at h
      cases htree : source.tree with
      | none =>
        rw [htree] at h
        cases h
        rfl
      | some tree =>
        rw [htree] at h
        cases h

/-- So every file is parsed or skipped. -/
lemma parseAll_cons (i : Input) (rest : List Input) :
    parseAll (i :: rest) =
      match i.parse with
      | .ok p => { parseAll rest with parsed := p :: (parseAll rest).parsed }
      | .error f => { parseAll rest with skipped := f :: (parseAll rest).skipped } := by
  rw [parseAll]
  cases hparse : i.parse with
  | error f => exact if_pos (Input.recoverable_of_parse hparse)
  | ok p => rfl

/-- **No file ends a run**: the branch for failures that concern more than one file is never taken. -/
theorem fatal_parseAll (inputs : List Input) : (parseAll inputs).fatal = none := by
  induction inputs with
  | nil => rfl
  | cons i rest ih =>
    rw [parseAll_cons]
    cases i.parse with
    | error f => exact ih
    | ok p => exact ih

/-- They are what a run embeds. -/
lemma flatten_parsed (inputs : List Input) : flatten (parseAll inputs).parsed = entitiesOf inputs := by
  induction inputs with
  | nil => rfl
  | cons i rest ih =>
    rw [parseAll_cons, entitiesOf, List.flatMap_cons, entitiesOfInput, ← entitiesOf, ← ih]
    cases i.parse with
    | error f => rfl
    | ok p => rfl

/-- A file is parsed under its own path. -/
lemma Input.path_of_parse {i : Input} {p : Parsed} (h : i.parse = .ok p) : p.path = i.path := by
  rw [Input.parse] at h
  split at h
  · cases h
  · split at h
    · cases h
    · cases h
      rfl

/-- The entities of a file come with its path. -/
lemma path_of_mem_entitiesOfInput {i : Input} {x : String × Entity} (h : x ∈ entitiesOfInput i) :
    x.1 = i.path := by
  rw [entitiesOfInput] at h
  cases hparse : i.parse with
  | error f =>
    rw [hparse] at h
    cases h
  | ok p =>
    rw [hparse] at h
    obtain ⟨e, -, rfl⟩ := List.mem_map.mp h
    exact Input.path_of_parse hparse

/-- The entities of the files with a path are those of the run over these files. -/
lemma filter_entitiesOf (inputs : List Input) (path : String) :
    (entitiesOf inputs).filter (fun x => x.1 = path) =
      entitiesOf (inputs.filter fun i => i.path = path) := by
  induction inputs with
  | nil => rfl
  | cons i rest ih =>
    rw [entitiesOf, List.flatMap_cons, List.filter_append, ← entitiesOf, ih]
    by_cases hpath : i.path = path
    · have hall : (entitiesOfInput i).filter (fun x => x.1 = path) = entitiesOfInput i :=
        List.filter_eq_self.mpr fun x hx =>
          decide_eq_true ((path_of_mem_entitiesOfInput hx).trans hpath)
      rw [hall, List.filter_cons_of_pos (by simpa using hpath), entitiesOf, entitiesOf, List.flatMap_cons]
    · have hnone : (entitiesOfInput i).filter (fun x => x.1 = path) = [] :=
        List.filter_eq_nil_iff.mpr fun x hx hx' =>
          hpath ((path_of_mem_entitiesOfInput hx).symm.trans (of_decide_eq_true hx'))
      rw [hnone, List.filter_cons_of_neg (by simpa using hpath), List.nil_append]

section Runs

variable {σ τ : Type} {store : Store σ τ} {s s' : σ}

/-- A run whose store cannot be set up does nothing else. -/
lemma runFilesBy_of_unready {f : Failure} (h : Repository.ensureSchema store s = (.error f, s')) (ask : Asking σ)
    (clock : Nat → String) (batchSize : Nat) (inputs : List Input) :
    runFilesBy store ask clock batchSize inputs s =
      (⟨.error f, { discovered := inputs.length }, false, {}, {}⟩, s') := by
  rw [runFilesBy, h]

/-- **A run whose store can be set up embeds and writes the entities of its files.** -/
theorem runFilesBy_of_ready (h : Repository.ensureSchema store s = (.ok (), s')) (ask : Asking σ)
    (clock : Nat → String) (batchSize : Nat) (inputs : List Input) :
    let written := upsertAllBy store ask clock (max batchSize 1) [] (entitiesOf inputs) {} s'
    runFilesBy store ask clock batchSize inputs s =
      (⟨written.1, .ofRun inputs (parseAll inputs) written.2.1, true, parseAll inputs, written.2.1⟩,
        written.2.2) := by
  rw [runFilesBy, h]
  dsimp only
  rw [fatal_parseAll, flatten_parsed]

/-- What it comes to, and what it leaves. -/
lemma runFiles_of_ready (h : Repository.ensureSchema store s = (.ok (), s')) (embedder : Embedder)
    (clock : Nat → String) (batchSize : Nat) (inputs : List Input) :
    let written := upsertAll store embedder clock (max batchSize 1) [] (entitiesOf inputs) {} s'
    (runFiles store embedder clock batchSize inputs s).1.result = written.1 ∧
      (runFiles store embedder clock batchSize inputs s).1.summary.written = written.2.1.written ∧
      (runFiles store embedder clock batchSize inputs s).2 = written.2.2 := by
  rw [runFiles, runFilesBy_of_ready h]
  exact ⟨rfl, rfl, rfl⟩

end Runs

end CodeAtlas.Ingest
