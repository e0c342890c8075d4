import CodeAtlas.Graph.Trace
import CodeAtlas.Proofs.Ingest.Input
import CodeAtlas.Proofs.Ingest.Plan

/-!
# Skipping files is exact

A file that cannot be read, that is no text, or that its grammar does not accept is skipped, and a file
without entities has nothing to store.  Such files leave no trace in a run but in its counters: a run over the
other files alone makes the same calls, in the same order, and ends in the same way.

Nothing is assumed of the store and of the embedder.  They may fail at any call, and the embedder may answer by
the number of calls that it has received.

## Main definitions

* `CodeAtlas.Ingest.Input.Bad` — the files that a run skips, by cause.
* `CodeAtlas.Ingest.Input.Barren` — the files that contribute nothing.
* `CodeAtlas.Ingest.Alike` — two runs differ in nothing but the numbers of their files.

## Main results

* `CodeAtlas.Ingest.Input.bad_iff`, `CodeAtlas.Ingest.Input.barren_iff` — these are the files that do not
  parse, and those without entities.
* `CodeAtlas.Ingest.alike_of_entitiesOf_eq` — a run depends on its files through their entities.
* `CodeAtlas.Ingest.failure_cases` — why a run fails.
* `CodeAtlas.Ingest.origin_of_failure` — a run never fails as a source file does.
* `CodeAtlas.Ingest.runFiles_skips_exactly` — files that contribute nothing can be left out.
-/

namespace CodeAtlas.Ingest

open CodeAtlas.Graph CodeAtlas.Embedding

/-! ## Files that contribute nothing -/

namespace Input

/-- **The files that a run skips.** -/
inductive Bad (i : Input) : Prop
  /-- The file cannot be read. -/
  | unreadable {reason : String} (h : i.source = .error reason)
  /-- Its bytes are not UTF-8. -/
  | notText {source : Entity.Source} {fault : Text.Utf8.Fault} (h : i.source = .ok source)
      (hbytes : Text.Utf8.decode source.bytes = .error fault)
  /-- Its grammar does not accept it. -/
  | rejected {source : Entity.Source} (h : i.source = .ok source) (htree : source.tree = none)

/-- **The files that contribute nothing**: those that are skipped, and those without entities. -/
inductive Barren (i : Input) : Prop
  /-- The file is skipped. -/
  | bad (h : i.Bad)
  /-- The file parses, but declares nothing. -/
  | empty {source : Entity.Source} {text : List Char} {tree : Syntax.Tree} (h : i.source = .ok source)
      (htext : Text.Utf8.decode source.bytes = .ok text) (htree : source.tree = some tree)
      (hnone : Entity.extract text i.dialect.language tree = [])

/-- What parsing a file can come to.

**Proof sketch.** By what can go wrong with a file, in the order in which it is looked at: it cannot be read, its
bytes are no text, or there is no tree for it. -/
lemma parse_cases (i : Input) :
    (i.Bad ∧ ∃ f, i.parse = .error f) ∨
      ∃ source text tree, i.source = .ok source ∧ Text.Utf8.decode source.bytes = .ok text ∧
        source.tree = some tree ∧
        i.parse = .ok ⟨i.path, Entity.extract text i.dialect.language tree⟩ := by
  rw [parse]
  cases hsource : i.source with
  | error reason => exact .inl ⟨.unreadable hsource, _, rfl⟩
  | ok source =>
    dsimp only
    rw [Entity.Source.entities]
    cases htext : Text.Utf8.decode source.bytes with
    | error fault => exact .inl ⟨.notText hsource htext, _, rfl⟩
    | ok text =>
      cases htree : source.tree with
      | none => exact .inl ⟨.rejected hsource htree, _, rfl⟩
      | some tree => exact .inr ⟨source, text, tree, rfl, htext, htree, rfl⟩

/-- A file with a text and a tree is not skipped. -/
lemma not_bad_of_content {i : Input} {source : Entity.Source} {text : List Char} {tree : Syntax.Tree}
    (hsource : i.source = .ok source) (htext : Text.Utf8.decode source.bytes = .ok text)
    (htree : source.tree = some tree) : ¬ i.Bad := by
  rintro (hunreadable | ⟨hsource', hbytes⟩ | ⟨hsource', hnone⟩)
  · rw [hsource] at hunreadable
    cases hunreadable
  · obtain rfl := Except.ok.inj (hsource.symm.trans hsource')
    rw [htext] at hbytes
    cases hbytes
  · obtain rfl := Except.ok.inj (hsource.symm.trans hsource')
    rw [htree] at hnone
    cases hnone

/-- **The files that a run skips are those that do not parse.** -/
theorem bad_iff (i : Input) : i.Bad ↔ i.parse.isOk = false := by
  rcases i.parse_cases with ⟨hbad, f, hparse⟩ | ⟨source, text, tree, hsource, htext, htree, hparse⟩
  · rw [hparse]
    exact ⟨fun _ => rfl, fun _ => hbad⟩
  · rw [hparse]
    exact ⟨fun h => absurd h (not_bad_of_content hsource htext htree), nofun⟩

/-- **The files that contribute nothing are those without entities.**

**Proof sketch.** A file that is bad has no entities, as has one whose tree declares none; and a file that is not
bad has the entities of its tree. -/
theorem barren_iff (i : Input) : i.Barren ↔ entitiesOfInput i = [] := by
  rw [entitiesOfInput]
  rcases i.parse_cases with ⟨hbad, f, hparse⟩ | ⟨source, text, tree, hsource, htext, htree, hparse⟩
  · rw [hparse]
    exact ⟨fun _ => rfl, fun _ => .bad hbad⟩
  · rw [hparse]
    dsimp only
    rw [List.map_eq_nil_iff]
    refine ⟨?_, .empty hsource htext htree⟩
    rintro (hbad | ⟨hsource', htext', htree', hnone⟩)
    · exact absurd hbad (not_bad_of_content hsource htext htree)
    · obtain rfl := Except.ok.inj (hsource.symm.trans hsource')
      obtain rfl := Except.ok.inj (htext.symm.trans htext')
      obtain rfl := Option.some.inj (htree.symm.trans htree')
      exact hnone

instance : DecidablePred Bad := fun i => decidable_of_iff _ i.bad_iff.symm

instance : DecidablePred Barren := fun i => decidable_of_iff _ i.barren_iff.symm

end Input

/-- Files that contribute nothing can be left out. -/
lemma entitiesOf_filter_not_barren (inputs : List Input) :
    entitiesOf (inputs.filter fun i => ¬ i.Barren) = entitiesOf inputs := by
  induction inputs with
  | nil => rfl
  | cons i rest ih =>
    by_cases hbarren : i.Barren
    · rw [List.filter_cons_of_neg (by simpa using hbarren), ih, entitiesOf, entitiesOf,
        List.flatMap_cons, i.barren_iff.mp hbarren, List.nil_append]
    · rw [List.filter_cons_of_pos (by simpa using hbarren), entitiesOf, List.flatMap_cons,
        ← entitiesOf, ih]
      rfl

/-- **Every file is parsed or skipped**, and the skipped ones are the bad ones. -/
theorem length_parseAll (inputs : List Input) :
    (parseAll inputs).skipped.length = inputs.countP (fun i => i.Bad) ∧
      inputs.length = (parseAll inputs).parsed.length + (parseAll inputs).skipped.length := by
  induction inputs with
  | nil => exact ⟨rfl, rfl⟩
  | cons i rest ih =>
    obtain ⟨hskipped, hlength⟩ := ih
    have hbad := i.bad_iff
    rw [parseAll_cons, List.countP_cons, List.length_cons]
    cases hparse : i.parse with
    | error f =>
      have hi : i.Bad := hbad.mpr (by rw [hparse]; rfl)
      simp only [List.length_cons, hi, decide_true, if_true]
      omega
    | ok p =>
      have hi : ¬ i.Bad := fun h => by
        rw [hbad, hparse] at h
        cases h
      simp only [List.length_cons, hi, decide_false, Bool.false_eq_true, if_false]
      omega

/-! ## Runs with the same entities -/

variable {σ τ : Type}

/-- **Two runs differ in nothing but how many files they were given, parsed and skipped.** -/
structure Alike (r r' : Report × σ) : Prop where
  /-- They leave the same state. -/
  state : r.2 = r'.2
  /-- They end in the same way. -/
  result : r.1.result = r'.1.result
  /-- Both could set up the store, or neither. -/
  ready : r.1.ready = r'.1.ready
  /-- They came equally far, with equally many calls of the embedder. -/
  progress : r.1.progress = r'.1.progress
  /-- They wrote equally many entities. -/
  written : r.1.summary.written = r'.1.summary.written
  /-- They wrote batches of the same sizes. -/
  flushes : r.1.summary.flushes = r'.1.summary.flushes

/-- **A run depends on its files through their entities.** -/
theorem alike_of_entitiesOf_eq {xs ys : List Input} (h : entitiesOf xs = entitiesOf ys)
    (store : Store σ τ) (embedder : Embedder) (clock : Nat → String) (batchSize : Nat) (s : σ) :
    Alike (runFiles store embedder clock batchSize xs s)
      (runFiles store embedder clock batchSize ys s) := by
  rw [runFiles, runFiles]
  rcases hschema : Repository.ensureSchema store s with ⟨f | _, s'⟩
  · rw [runFilesBy_of_unready hschema, runFilesBy_of_unready hschema]
    exact ⟨rfl, rfl, rfl, rfl, rfl, rfl⟩
  · rw [runFilesBy_of_ready hschema, runFilesBy_of_ready hschema, h]
    exact ⟨rfl, rfl, rfl, rfl, rfl, rfl⟩

/-! ## Failures -/

/-- A file that cannot be stored is named by the failure.

**Proof sketch.** Whichever call of the transaction fails, the failure is wrapped with the path of the file. -/
lemma exists_write_of_upsertBatch {store : Store σ τ} {now path : String} {entities : List Embedded}
    {s : σ} {f : Failure} (h : (Repository.upsertBatch store now path entities s).1 = .error f) :
    ∃ cause, f = .write path cause := by
  rw [Repository.upsertBatch] at h
  generalize store.start s = started at h
  rcases started with ⟨cause | t, s₁⟩
  · cases h
    exact ⟨cause, rfl⟩
  · dsimp only at h
    generalize Repository.runAll store.within (Repository.fileQueries path now entities) (s₁, t) = sent at h
    rcases sent with ⟨cause | _, s₂, t⟩
    · cases h
      exact ⟨cause, rfl⟩
    · dsimp only at h
      generalize store.commit t s₂ = ended at h
      rcases ended with ⟨cause | _, s₃⟩
      · cases h
        exact ⟨cause, rfl⟩
      · cases h

/-- Groups that cannot be written fail with the path of one of them. -/
lemma exists_write_of_writeFrom {store : Store σ τ} {clock : Nat → String} {n : Nat}
    {groups : List Group} {s : σ} {f : Failure} (h : (writeFrom store clock n groups s).1 = .error f) :
    ∃ path cause, f = .write path cause := by
  induction groups generalizing n s with
  | nil => cases h
  | cons g rest ih =>
    rw [writeFrom_cons] at h
    cases hfirst : Repository.upsertBatch store (clock n) g.1 g.2 s with
    | mk result s' =>
      rw [hfirst] at h
      cases result with
      | error cause =>
        cases h
        obtain ⟨cause', rfl⟩ := exists_write_of_upsertBatch (congrArg Prod.fst hfirst)
        exact ⟨g.1, cause', rfl⟩
      | ok _ => exact ih h

/-- The embedder's own failure is the only one without a vector that is not about vectors. -/
lemma embed_eq_of_embedEntity {embedder : Embedder} {call : Nat} {path : String} {e : Entity}
    {f : Failure} (h : embedEntity embedder call path e = .error f) (hf : f.recoverable = true) :
    embedder.embed call (e.compose path) = .error f := by
  rw [embedEntity] at h
  cases hcall : embedder.embed call (e.compose path) with
  | error g =>
    rw [hcall] at h
    cases h
    rfl
  | ok v =>
    rw [hcall] at h
    dsimp only at h
    split_ifs at h
    cases h
    cases hf

/-- **Why a run fails**: its store cannot be set up, a file cannot be written, or there is no vector for an
entity.

**Proof sketch.** If the schema is set up, the run writes what is attempted.  The first write that fails ends it
with the path of its file; if none fails, the run ends with the first refusal, if there is one. -/
theorem failure_cases {store : Store σ τ} {embedder : Embedder} {clock : Nat → String}
    {batchSize : Nat} {inputs : List Input} {s : σ} {f : Failure}
    (h : (runFiles store embedder clock batchSize inputs s).1.result = .error f) :
    (Repository.ensureSchema store s).1 = .error f ∨ (∃ path cause, f = .write path cause) ∨
      ∃ call x, (entitiesOf inputs)[call]? = some x ∧ embedEntity embedder call x.1 x.2 = .error f := by
  cases hschema : Repository.ensureSchema store s with
  | mk result s' =>
    cases result with
    | error g =>
      rw [runFiles, runFilesBy_of_unready hschema] at h
      exact .inl h
    | ok _ =>
      right
      have hsize : 0 < max batchSize 1 := by omega
      rw [(runFiles_of_ready hschema embedder clock batchSize inputs).1,
        (upsertAll_eq_attempted embedder _ (entitiesOf inputs) store clock hsize s').1] at h
      cases hwrite : (writeFrom store clock 0
          (attempted embedder (max batchSize 1) (entitiesOf inputs)) s').1 with
      | error g =>
        rw [hwrite] at h
        cases h
        exact .inl (exists_write_of_writeFrom hwrite)
      | ok _ =>
        rw [hwrite] at h
        cases hrefusal : firstRefusal embedder 0 (entitiesOf inputs) with
        | none =>
          rw [hrefusal] at h
          cases h
        | some r =>
          obtain ⟨call, g⟩ := r
          rw [hrefusal] at h
          cases h
          obtain ⟨x, hx, hembed⟩ := embedEntity_at_firstRefusal hrefusal
          rw [Nat.zero_add] at hembed
          exact .inr ⟨call, x, hx, hembed⟩

/-- **A run never fails as a source file does.**  If it fails with a failure of that kind, then this was the
answer of the store to its schema, or the answer of the embedder to the text of an entity. -/
theorem origin_of_failure {store : Store σ τ} {embedder : Embedder} {clock : Nat → String}
    {batchSize : Nat} {inputs : List Input} {s : σ} {f : Failure}
    (h : (runFiles store embedder clock batchSize inputs s).1.result = .error f)
    (hf : f.recoverable = true) :
    (Repository.ensureSchema store s).1 = .error f ∨
      ∃ call x, (entitiesOf inputs)[call]? = some x ∧
        embedder.embed call (x.2.compose x.1) = .error f := by
  rcases failure_cases h with hschema | ⟨path, cause, rfl⟩ | ⟨call, x, hx, hembed⟩
  · exact .inl hschema
  · -- a failure to write is of another kind
    cases hf
  · exact .inr ⟨call, x, hx, embed_eq_of_embedEntity hembed hf⟩

/-! ## Leaving files out -/

/-- **Skipping files is exact.**  For any store, embedder and files, whatever fails, a run over the files that
contribute something is the run over all files, but for the numbers of files: it leaves the same state, ends in
the same way, makes the same calls of the store in the same order and as many of the embedder, and writes the
same batches.

A run that succeeds has parsed or skipped every file, and has skipped those that cannot be read, are no text, or
are not accepted by their grammar.  Each of them fails in a way that concerns one file only, and no run fails in
such a way: such a failure of a run is the answer of the store to its schema, or that of the embedder.

**Proof sketch.** A run depends on its files only by the entities they have, and files that contribute nothing have
none.  The counts are those of the parsing.  A failure of the run that concerns one file only is none of a write and
none about the length of a vector, so it is that of the schema or of the embedder. -/
theorem runFiles_skips_exactly (store : Store σ τ) (embedder : Embedder) (clock : Nat → String)
    (batchSize : Nat) (inputs : List Input) (s : σ) :
    let kept := inputs.filter fun i => ¬ i.Barren
    let run := runFiles store embedder clock batchSize inputs s
    Alike run (runFiles store embedder clock batchSize kept s) ∧
    (runFiles store.traced embedder clock batchSize inputs { state := s }).2.calls =
      (runFiles store.traced embedder clock batchSize kept { state := s }).2.calls ∧
    (run.1.result = .ok () → run.1.summary.discovered = inputs.length ∧
      run.1.summary.discovered = run.1.summary.parsed + run.1.summary.skipped ∧
      run.1.summary.skipped = inputs.countP fun i => i.Bad) ∧
    (∀ i ∈ inputs, i.Bad → ∃ f, i.parse = .error f ∧ f.recoverable = true) ∧
    ∀ f, run.1.result = .error f → f.recoverable = true →
      (Repository.ensureSchema store s).1 = .error f ∨
        ∃ call x, (entitiesOf kept)[call]? = some x ∧
          embedder.embed call (x.2.compose x.1) = .error f := by
  intro kept run
  have hkept : entitiesOf inputs = entitiesOf kept := (entitiesOf_filter_not_barren inputs).symm
  refine ⟨alike_of_entitiesOf_eq hkept store embedder clock batchSize s,
    congrArg Traced.calls (alike_of_entitiesOf_eq hkept store.traced embedder clock batchSize _).state,
    fun hok => ?_, fun i _ hbad => ?_, fun f hresult hf => ?_⟩
  · obtain ⟨hskipped, hlength⟩ := length_parseAll inputs
    cases hschema : Repository.ensureSchema store s with
    | mk result s' =>
      cases result with
      | error f => simp [run, runFiles, runFilesBy_of_unready hschema] at hok
      | ok _ =>
        have hrun : run.1.summary = .ofRun inputs (parseAll inputs) run.1.progress := by
          simp only [run, runFiles, runFilesBy_of_ready hschema]
        rw [hrun]
        exact ⟨rfl, hlength, hskipped⟩
  · rcases i.parse_cases with ⟨-, f, hparse⟩ | ⟨source, text, tree, hsource, htext, htree, -⟩
    · exact ⟨f, hparse, Input.recoverable_of_parse hparse⟩
    · exact absurd hbad (Input.not_bad_of_content hsource htext htree)
  · rw [← hkept]
    exact origin_of_failure hresult hf

end CodeAtlas.Ingest
