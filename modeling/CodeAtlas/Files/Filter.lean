import CodeAtlas.Failure
import CodeAtlas.Glob.Match

/-!
# Include and exclude patterns

A filter admits a path that no exclude pattern matches and some include pattern matches; without
include patterns every path that is not excluded is admitted.

## Main definitions

* `CodeAtlas.Files.Filter` — compiled patterns.
* `CodeAtlas.Files.Filter.admits` — the files that pass.
* `CodeAtlas.Files.Filter.prunes` — the directories that need not be entered.
-/

namespace CodeAtlas.Files

/-- Compiled include and exclude patterns. -/
structure Filter where
  /-- The include patterns; none admits everything. -/
  included : Option (List Glob.Pattern) := none
  /-- The exclude patterns. -/
  excluded : List Glob.Pattern := []

namespace Filter

/-- The patterns of some texts, up to the first that is none. -/
def compile : List String → Except Failure (List Glob.Pattern)
  | [] => .ok []
  | text :: rest =>
    match Glob.Pattern.ofString .plain text with
    | .error f => .error (.validation s!"invalid glob '{text}': {Glob.refusal text f}")
    | .ok p =>
      match compile rest with
      | .error f => .error f
      | .ok ps => .ok (p :: ps)

/-- The filter of some patterns.  Include patterns are looked at first. -/
def ofPatterns (includes excludes : List String) : Except Failure Filter := do
  let included ←
    if includes.isEmpty then pure none
    else (compile includes).map some
  let excluded ← compile excludes
  return ⟨included, excluded⟩

/-- One of the patterns matches a path. -/
def anyMatch (patterns : List Glob.Pattern) (path : String) : Bool :=
  let bytes := Text.Utf8.encode path
  patterns.any fun p => p.isMatch bytes

/-- The filter lets a path pass. -/
def admits (f : Filter) (path : String) : Bool :=
  !anyMatch f.excluded path &&
    match f.included with
    | none => true
    | some patterns => anyMatch patterns path

/-- The directory need not be entered: a path below it is excluded. -/
def prunes (f : Filter) (directory : String) : Bool := anyMatch f.excluded (directory ++ "/_")

end Filter

end CodeAtlas.Files
