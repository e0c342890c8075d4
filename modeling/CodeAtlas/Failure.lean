import CodeAtlas.Config.Fault

/-!
# Failures

Everything that can go wrong, by cause.  Reading and parsing concern one source file and are
recoverable; all other failures end a run.

## Main definitions

* `CodeAtlas.Failure` — the causes.
* `CodeAtlas.Failure.message` — their wording.
* `CodeAtlas.Failure.recoverable` — the failures that only cost one file.
* `CodeAtlas.Failure.chain` — the wording of a failure and of what led to it.
-/

namespace CodeAtlas

/-- What can go wrong. -/
inductive Failure where
  /-- The graph store cannot be reached or broke off. -/
  | connection (reason : String)
  /-- The graph store refused a statement. -/
  | query (reason statement : String)
  /-- A source file cannot be read. -/
  | read (path reason : String)
  /-- A source file is not accepted by its grammar. -/
  | parse (path reason : String)
  /-- No vector could be obtained. -/
  | embedding (reason : String)
  /-- The entities of a file could not be written. -/
  | write (path : String) (source : Failure)
  /-- The settings are not acceptable. -/
  | config (fault : Config.Fault)
  /-- A setting has no sensible value. -/
  | validation (reason : String)
  /-- Something else. -/
  | internal (reason : String)
  deriving DecidableEq, Repr

instance : Inhabited Failure := ⟨.internal ""⟩

namespace Failure

/-- The wording of a failure. -/
def message : Failure → String
  | .connection reason => s!"Neo4j connection error: {reason}"
  | .query reason _ => s!"Graph query error: {reason}"
  | .read path reason => s!"Failed to read {path}: {reason}"
  | .parse path reason => s!"Failed to parse {path}: {reason}"
  | .embedding reason => s!"Embedding generation failed: {reason}"
  | .write path source => s!"Graph write failed for '{path}': {source.message}"
  | .config fault => s!"Configuration error: {fault.message}"
  | .validation reason => s!"Validation error: {reason}"
  | .internal reason => s!"Internal error: {reason}"

/-- The failure concerns one file, which a run skips. -/
def recoverable : Failure → Bool
  | .read .. => true
  | .parse .. => true
  | _ => false

/-- The wording of a failure, then that of what caused it, down to the first cause. -/
def chain : Failure → List String
  | .connection reason => [message (.connection reason), reason]
  | .read path reason => [message (.read path reason), reason]
  | .write path source => message (.write path source) :: source.chain
  | .config fault => [message (.config fault), fault.message]
  | f => [f.message]

end Failure

end CodeAtlas
