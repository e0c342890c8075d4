import CodeAtlas.Files.Path
import CodeAtlas.Text.Blank

/-!
# The log

What happens is reported as events, each with a level and with the part of the program that it comes
from.  A filter decides which events are shown: each of its directives gives the levels for the parts
whose names begin with a text, and the longest such text decides.

## Main definitions

* `CodeAtlas.App.Level`, `CodeAtlas.App.Event` — what is reported.
* `CodeAtlas.App.Filter` — which events are shown.
* `CodeAtlas.App.Filter.parse?` — a filter from its text.
-/

namespace CodeAtlas.App

/-- How important an event is. -/
inductive Level where
  /-- Something has failed. -/
  | error
  /-- Something deserves attention. -/
  | warn
  /-- What happens. -/
  | info
  /-- What happens in detail. -/
  | debug
  /-- What happens in every detail. -/
  | trace
  deriving DecidableEq, Repr

namespace Level

/-- All levels, the most important first. -/
def all : List Level := [.error, .warn, .info, .debug, .trace]

/-- The name of a level. -/
def name : Level → String
  | .error => "ERROR"
  | .warn => "WARN"
  | .info => "INFO"
  | .debug => "DEBUG"
  | .trace => "TRACE"

/-- The place of a level among all, counted from one. -/
def rank : Level → Nat
  | .error => 1
  | .warn => 2
  | .info => 3
  | .debug => 4
  | .trace => 5

end Level

/-- Something that is reported. -/
structure Event where
  /-- How important it is. -/
  level : Level
  /-- The part of the program that it comes from. -/
  origin : String
  /-- What is said. -/
  text : String
  deriving DecidableEq, Repr

/-- A rule of a filter. -/
structure Directive where
  /-- The beginning of the names of the parts that the rule is for; none for all. -/
  target : Option String
  /-- The rank of the least important level that is shown; zero for none. -/
  verbosity : Nat
  /-- The rule is only for events inside a span, and there are no spans. -/
  spanOnly : Bool := false
  deriving DecidableEq, Repr

namespace Directive

/-- The number that a level is given by. -/
def verbosity? (cs : List Char) : Option Nat :=
  let digits :=
    match cs with
    | '+' :: rest => rest
    | _ => cs
  if ¬ digits.isEmpty ∧ digits.all Char.isDigit then
    let n := digits.foldl (fun n c => 10 * n + (c.toNat - 48)) 0
    if n ≤ 5 then some n else none
  else
    let word := String.ofList (cs.map Char.toLower)
    ["off", "error", "warn", "info", "debug", "trace"].findIdx? (· = word)

/-- The number that a level after an equals sign is given by; nothing there means every level. -/
def given? (cs : List Char) : Option Nat := if cs.isEmpty then some 5 else verbosity? cs

/-- The character may begin a directive. -/
def isStart (c : Char) : Bool := c = '-' || c = ':' || c = '_' || c.isAlphanum || 0x80 ≤ c.toNat

/-- The rest of a directive after the opening bracket of a span: what follows the closing one. -/
def afterSpan? (cs : List Char) : Option (List Char) :=
  match cs.dropWhile fun c => c ≠ ']' && c ≠ '\x7b' with
  | ']' :: rest => some rest
  | '\x7b' :: fields =>
    match fields.dropWhile (· ≠ '\x7d') with
    | '\x7d' :: ']' :: rest => if fields.head? = some '\x7d' then none else some rest
    | _ => none
  | _ => none

/-- A directive from its text.  Blanks around it do not end it but shift what is taken for the target
and the level, so that they rarely do any good. -/
def parse? (text : List Char) : Option Directive :=
  let inner := Text.trimChars text
  match inner with
  | [] => none
  | c :: _ =>
    if c ≠ '[' ∧ ¬ isStart c then none
    else
      let n := (inner.takeWhile fun c => c ≠ '=' && c ≠ '[').length
      match inner.drop n with
      | '=' :: _ =>
        (given? (text.drop (n + 1))).map fun v => ⟨some (String.ofList (text.take n)), v, false⟩
      | '[' :: span =>
        match afterSpan? span with
        | some [] => some ⟨none, 5, true⟩
        | some ('=' :: level) => (given? level).map fun v => ⟨none, v, true⟩
        | _ => none
      | _ =>
        match verbosity? text with
        | some v => some ⟨none, v, false⟩
        | none => some ⟨some (String.ofList text), 5, false⟩

/-- The rule is for an event. -/
def concerns (e : Event) (d : Directive) : Bool :=
  !d.spanOnly &&
    match d.target with
    | none => true
    | some t => t.toList.isPrefixOf e.origin.toList

/-- How special a rule is. -/
def specificity (d : Directive) : Nat :=
  match d.target with
  | none => 0
  | some t => t.toList.length + 1

end Directive

/-- Rules that decide which events are shown. -/
abbrev Filter := List Directive

namespace Filter

/-- The filter that shows all events up to a level. -/
def upTo (l : Level) : Filter := [⟨none, l.rank, false⟩]

/-- A filter from its text: directives with commas between them.  No directive at all shows errors. -/
def parse? (text : String) : Option Filter :=
  let pieces := (Files.Path.split ',' text.toList).filter fun p => !p.isEmpty
  match pieces.mapM Directive.parse? with
  | none => none
  | some [] => some (upTo .error)
  | some directives => some directives

/-- The most special rule for an event, and of equally special ones the last. -/
def rule? (f : Filter) (e : Event) : Option Directive :=
  (f.filter (Directive.concerns e)).foldl (fun best d =>
    match best with
    | none => some d
    | some b => if b.specificity ≤ d.specificity then some d else some b) none

/-- The event is shown. -/
def admits (f : Filter) (e : Event) : Bool :=
  match f.rule? e with
  | some d => e.level.rank ≤ d.verbosity
  | none => false

/-- The filter of a program: what the variable asks for if it can be read, else what the arguments ask
for. -/
def choose (variableText : Option String) (verbose : Bool) : Filter :=
  (variableText.bind parse?).getD (upTo (if verbose then .debug else .info))

end Filter

end CodeAtlas.App
