import CodeAtlas.Proofs.Config.Layers
import CodeAtlas.Proofs.Text.Excerpt

/-!
# Texts in variables

A variable with a name of its own gives its setting a text.  The text passes through the notation of values first,
so it is taken as it is only if it is plain, or if it is no value as a whole.  A text between quotes loses them, blanks
around a text are dropped, and a number or a truth value is no text at all: loading fails.

## Main definitions

* `CodeAtlas.Config.Variable.Plain` — a text that stands for itself as a value.
* `CodeAtlas.Config.Variable.Literal` — a text that is taken as it is.
* `CodeAtlas.Config.TextVariable` — the variables with names of their own that give texts.
* `CodeAtlas.Config.Surroundings.OnlySource` — one variable is all there is.

## Main results

* `CodeAtlas.Config.Variable.isText_read_self_iff` — the texts that are taken as they are.
* `CodeAtlas.Config.TextVariable.load_literal_iff` — what becomes of a text.
* `CodeAtlas.Config.TextVariable.load_fails_for_digits` — a password that is refused.
-/

namespace CodeAtlas.Config

namespace Variable

/-! ## Texts that are taken as they are -/

/-- **A plain text**: it has no mark, no comma, bracket or brace, no blanks around it, and is no number. -/
structure Plain (text : String) : Prop where
  not_marked : ¬ Marked text.toList
  loose : ∀ c ∈ text.toList, isLoose c = true
  trimmed : Text.Trimmed text.toList
  not_float : '.' ∈ text.toList → float? text.toList = none
  not_unsigned : unsigned? text.toList = none
  not_signed : signed? text.toList = none

/-- **A text that is taken as it is**: it is no value as a whole, or it is plain. -/
def Literal (text : String) : Prop := (∀ v, ¬ Complete .variables text v) ∨ Plain text

/-- What is no number is a text.

**Proof sketch.** A text is tried as a number with a point, then without, then with a sign.  It is left as a text
exactly if all three fail, and the first is tried only if there is a point. -/
lemma scalar_eq_text_iff (cs : List Char) (s : String) :
    scalar cs = .text s ↔
      s.toList = cs ∧ ('.' ∈ cs → float? cs = none) ∧ unsigned? cs = none ∧ signed? cs = none := by
  have hfloat : (if cs.contains '.' then float? cs else none) = none ↔ ('.' ∈ cs → float? cs = none) := by
    by_cases hpoint : '.' ∈ cs <;> simp [hpoint]
  have hself : String.ofList cs = s ↔ s.toList = cs := by
    constructor <;> rintro rfl <;> simp
  unfold scalar
  rw [← hfloat]
  cases (if cs.contains '.' then float? cs else none) with
  | some x => simp
  | none =>
    cases unsigned? cs with
    | some n => simp
    | none =>
      cases signed? cs with
      | some i => simp
      | none => simp [hself]

/-- A value without marks is no single character. -/
lemma scalar_ne_char (cs : List Char) (c : Char) : scalar cs ≠ .char c := by
  unfold scalar
  cases (if cs.contains '.' then float? cs else none) with
  | some x => simp
  | none =>
    cases unsigned? cs with
    | some n => simp
    | none => cases signed? cs <;> simp

/-- A character that may stand around values is a blank. -/
lemma isBlank_of_isSpace {c : Char} (h : isSpace c = true) : Text.isBlank c = true := by
  simp only [isSpace, Bool.or_eq_true, decide_eq_true_eq] at h
  rcases h with (((rfl | rfl) | rfl) | rfl) | rfl <;> decide

/-- A character that ends a run is none that may stand around values. -/
lemma isSpace_of_not_isLoose {c : Char} (h : isLoose c = false) : isSpace c = false := by
  simp only [isLoose, Bool.not_eq_false', Bool.or_eq_true, decide_eq_true_eq] at h
  rcases h with (((rfl | rfl) | rfl) | rfl) | rfl <;> decide

/-- Nothing is skipped of a trimmed text. -/
lemma skipSpace_of_trimmed {cs : List Char} (h : Text.Trimmed cs) : skipSpace cs = cs := by
  cases cs with
  | nil => rfl
  | cons c rest =>
    have hspace : isSpace c ≠ true := by
      intro hspace
      have hblank := h.1 c rfl
      rw [isBlank_of_isSpace hspace] at hblank
      cases hblank
    exact List.dropWhile_cons_of_neg hspace

/-- A run that only blanks follow goes on to the end. -/
lemma Run.rest_eq_nil {cs run rest : List Char} (h : Run isLoose cs run rest) (hrest : skipSpace rest = []) :
    rest = [] := by
  cases rest with
  | nil => rfl
  | cons c rest =>
    have hspace : isSpace c = false := isSpace_of_not_isLoose (h.stop c rfl)
    rw [skipSpace, List.dropWhile_cons_of_neg (by simp [hspace])] at hrest
    cases hrest

/-- A plain text is a value as a whole. -/
lemma Plain.complete {text : String} (h : Plain text) (o : Origin) :
    Complete o text (.scalar o (.text text)) := by
  have hscalar : scalar (Text.trimChars text.toList) = .text text := by
    rw [(Text.trimChars_eq_self_iff _).mpr h.trimmed, scalar_eq_text_iff]
    exact ⟨rfl, h.not_float, h.not_unsigned, h.not_signed⟩
  have hrun : Run isLoose text.toList text.toList [] := ⟨by simp, h.loose, by simp⟩
  refine ⟨[], ?_, rfl⟩
  rw [skipSpace_of_trimmed h.trimmed, ← hscalar]
  exact .loose h.not_marked hrun

/-- **A value that is the text itself** is a run of loose characters: any other notation takes characters away.

**Proof sketch.** By the ways to write a value.  Truth values, lists and tables are no texts.  Quotes and
apostrophes take two characters away at least, so what is between them is shorter than the whole.  What is left is a
run of loose characters, which keeps all of them only if it is trimmed already and no number. -/
lemma plain_of_complete {o : Origin} {text : String} {v : Value} (h : Complete o text v)
    (hv : IsText v.form text) : Plain text := by
  obtain ⟨rest, hwritten, hrest⟩ := h
  have hle := length_skipSpace_le text.toList
  generalize hcs : skipSpace text.toList = cs at hwritten hle
  cases hwritten with
  | true => cases hv
  | false => cases hv
  | table => cases hv
  | list => cases hv
  | quoted h =>
    have hlt := h.length_lt
    cases hv
    rw [List.length_cons] at hle
    omega
  | char c =>
    cases hv
    simp only [List.length_cons, Char.toString_eq_singleton, String.toList_singleton, List.length_nil] at hle
    omega
  | @loose _ run _ hmark hrun =>
    obtain rfl := hrun.rest_eq_nil hrest
    obtain rfl : cs = run := by simpa using hrun.eq_append
    generalize hscalar : scalar (Text.trimChars cs) = x at hv
    cases hv with
    | char c => exact absurd hscalar (scalar_ne_char _ c)
    | text =>
      obtain ⟨htext, hfloat, hunsigned, hsigned⟩ := (scalar_eq_text_iff _ _).mp hscalar
      -- neither skipping nor trimming has dropped anything
      have hinfix := Text.trimChars_infix cs
      rw [← htext] at hinfix hfloat hunsigned hsigned
      obtain rfl : text.toList = cs := hinfix.eq_of_length (le_antisymm hinfix.length_le hle)
      have htrimmed := (Text.trimChars_eq_self_iff text.toList).mp htext.symm
      exact ⟨hmark, hrun.all, htrimmed, hfloat, hunsigned, hsigned⟩

/-- **The texts that are taken as they are.** -/
theorem isText_read_self_iff (text : String) : IsText (read .variables text).form text ↔ Literal text := by
  constructor
  · intro h
    by_cases hcomplete : ∃ v, Complete .variables text v
    · obtain ⟨v, hv⟩ := hcomplete
      rw [read_of_complete hv] at h
      exact Or.inr (plain_of_complete hv h)
    · exact Or.inl (not_exists.mp hcomplete)
  · rintro (h | h)
    · rw [read_of_not_complete h]
      exact .text text
    · rw [read_of_complete (h.complete _)]
      exact .text text

end Variable

/-! ## One variable -/

/-- **The variables with names of their own that give texts.** -/
inductive TextVariable where
  | uri
  | user
  | password
  | apiKey
  | model

namespace TextVariable

/-- The name of a variable. -/
def name : TextVariable → String
  | .uri => "NEO4J_URI"
  | .user => "NEO4J_USER"
  | .password => "NEO4J_PASSWORD"
  | .apiKey => "OPENAI_API_KEY"
  | .model => "EMBEDDING_MODEL"

/-- The setting that a variable gives. -/
def key : TextVariable → Key
  | .uri => .graph .uri
  | .user => .graph .user
  | .password => .graph .password
  | .apiKey => .embedding .apiKey
  | .model => .embedding .model

/-- The defaults, except for a text in the setting that a variable gives. -/
def settings : TextVariable → String → Settings
  | .uri, s => { graph := { uri := s } }
  | .user, s => { graph := { user := s } }
  | .password, s => { graph := { password := some s } }
  | .apiKey, s => { embedding := { apiKey := some s } }
  | .model, s => { embedding := { model := s } }

end TextVariable

/-- **One variable is all there is**: there are no files, and no other variable gives a setting. -/
structure Surroundings.OnlySource (s : Surroundings) (name text : String) : Prop where
  user : s.userLayer = .ok none
  project : s.projectLayer = .ok none
  env : ∃ before after, s.env = before ++ (name, text) :: after ∧ ∀ e ∈ before ++ after,
    Variable.conventionalPath? e.1 = none ∧ Variable.prefixedPath? variableStart e.1 = none

/-- No files, and one variable. -/
def Surroundings.alone (name text : String) : Surroundings where
  tree := .directory []
  directory := []
  env := [(name, text)]

namespace TextVariable

open Variable Surroundings

variable {x : TextVariable} {s : Surroundings} {text : String}

/-- The variable stands for its setting. -/
lemma conventionalPath?_name (x : TextVariable) : conventionalPath? x.name = some x.key.path := by
  cases x <;> decide +kernel

/-- The variable is not named after a setting. -/
lemma prefixedPath?_name (x : TextVariable) : prefixedPath? variableStart x.name = none := by
  cases x <;> decide +kernel

/-- The other variables give no setting, and none is named after one. -/
lemma paths_of_mem (h : s.OnlySource x.name text) {e : String × String} (he : e ∈ s.env) :
    (∀ path, conventionalPath? e.1 = some path → path = x.key.path) ∧ prefixedPath? variableStart e.1 = none := by
  obtain ⟨before, after, henv, hother⟩ := h.env
  have hcases : e = (x.name, text) ∨ e ∈ before ++ after := by
    rw [henv] at he
    simpa [or_left_comm] using he
  rcases hcases with rfl | he
  · refine ⟨fun path hpath => ?_, prefixedPath?_name x⟩
    rw [conventionalPath?_name] at hpath
    exact (Option.some.inj hpath).symm
  · refine ⟨fun path hpath => ?_, (hother e he).2⟩
    rw [(hother e he).1] at hpath
    cases hpath

/-- The sections are tables. -/
lemma sectioned (h : s.OnlySource x.name text) : s.Sectioned none none := by
  refine ⟨by simp, by simp, fun e he t hpath => ?_⟩
  rw [(paths_of_mem h he).2] at hpath
  cases hpath

/-- **The text of the variable wins** for its setting, and nothing for any other.

**Proof sketch.** No variable with the prefix is for any setting, so the ones with names of their own decide.  The
variable is the last one for its setting, and all others of this kind are for no setting. -/
lemma winner?_eq (h : s.OnlySource x.name text) :
    s.winner? none none x.key = some (read .variables text) ∧
      ∀ k, k ≠ x.key → s.winner? none none k = none := by
  have hprefixed : ∀ path, topmost? s.prefixedLayers path = none :=
    topmost?_layersOf_of_forall_eq_none fun e he => (paths_of_mem h he).2
  constructor
  · obtain ⟨before, after, henv, hother⟩ := h.env
    have hafter : topmost? (layersOf .variables conventionalPath? after) x.key.path = none :=
      topmost?_layersOf_of_forall_eq_none (fun e he => (hother e (List.mem_append_right _ he)).1) _
    rw [winner?, hprefixed, conventionalLayers, henv, topmost?_layersOf (conventionalPath?_name x) hafter]
    rfl
  · intro k hk
    have hconventional : topmost? s.conventionalLayers k.path = none := by
      refine topmost?_layersOf_eq_none fun p hp => ?_
      obtain ⟨e, he, hpath⟩ := List.mem_filterMap.mp hp
      obtain rfl := (paths_of_mem h he).1 p hpath
      exact ⟨rfl, fun heq => hk (Key.path_injective heq.symm)⟩
    rw [winner?, hprefixed, hconventional]
    rfl

/-- **A text is loaded** into its setting. -/
lemma load_of_isText (h : s.OnlySource x.name text) {t : String} (ht : IsText (read .variables text).form t) :
    load s = .ok (x.settings t) := by
  obtain ⟨hself, hother⟩ := winner?_eq h
  refine (load_eq_ok_iff h.user h.project (sectioned h) _).mpr fun k => ?_
  by_cases hk : k = x.key
  · subst hk
    rw [hself]
    cases x <;> exact ⟨t, .text ht, rfl⟩
  · rw [hother k hk]
    cases x <;> rcases k with k | k | k <;> cases k <;> first | rfl | exact absurd rfl hk

/-- **Anything else is refused**, and the refusal names the setting.

**Proof sketch.** Loading cannot succeed, since the setting would have to hold what is no text.  So it fails, and it
names a setting for which something wins that denotes nothing there; but nothing wins for any other setting. -/
lemma load_of_not_isText (h : s.OnlySource x.name text) (ht : ∀ t, ¬ IsText (read .variables text).form t) :
    ∃ fault : Fault, load s = .error (.config fault) ∧ x.key.path <+: fault.key := by
  obtain ⟨hself, hother⟩ := winner?_eq h
  cases hload : load s with
  | ok c =>
    have htakes := (load_eq_ok_iff h.user h.project (sectioned h) c).mp hload x.key
    rw [hself] at htakes
    obtain ⟨t, hdenotes, -⟩ := htakes
    cases x <;> cases hdenotes with
    | text hdenotes => exact absurd hdenotes (ht _)
  | error f =>
    obtain ⟨fault, k, v, rfl, hv, -, hkey⟩ := load_eq_error h.user h.project (sectioned h) hload
    obtain rfl : k = x.key := by
      by_contra hk
      rw [hother k hk] at hv
      cases hv
    exact ⟨fault, rfl, hkey⟩

/-- In surroundings without files one variable is all there is. -/
lemma onlySource_alone (x : TextVariable) (text : String) : (alone x.name text).OnlySource x.name text where
  user := by
    have hplace : (alone x.name text).userPlace? = none := by
      cases x <;> rfl
    rw [userLayer, hplace]
  project := by
    have hfile : (alone x.name text).file? [projectFile].reverse = none := by
      show (alone x.name text).file? [projectFile] = none
      rw [file?, Files.Entry.read?, resolve?_projectFile]
      simp [alone, Files.Entry.follow, Files.Entry.at?, Files.Entry.child?, Files.Entry.entries]
    have hplace : (alone x.name text).projectPlace? (alone x.name text).directory.reverse = none := by
      show projectPlace? _ [] = _
      rw [projectPlace?, hfile]
      rfl
    rw [projectLayer, hplace]
  env := ⟨[], [], rfl, by simp⟩

/-- The text can be told from the settings. -/
lemma settings_injective (x : TextVariable) {t t' : String} (h : x.settings t = x.settings t') : t = t' := by
  cases x <;> simpa [settings] using h

/-- **What becomes of a text** in a variable with a name of its own, if it is all there is.

* It is taken as it is exactly if it is literal: plain, or no value as a whole.
* If it is a value as a whole which is a text, its setting is that text.
* If it is a value of another kind, loading fails and names the setting.

**Proof sketch.** If the value of the text is a text, it is loaded, and it is the text itself exactly if that one is
literal.  If the value is no text, loading fails. -/
theorem load_literal_iff (x : TextVariable) (s : Surroundings) (text : String) (h : s.OnlySource x.name text) :
    (load s = .ok (x.settings text) ↔ Literal text) ∧
    (∀ v t, Complete .variables text v → IsText v.form t → load s = .ok (x.settings t)) ∧
    (∀ v, Complete .variables text v → (∀ t, ¬ IsText v.form t) →
      ∃ fault : Fault, load s = .error (.config fault) ∧ x.key.path <+: fault.key) := by
  refine ⟨⟨fun hload => ?_, fun hliteral => ?_⟩, fun v t hv ht => ?_, fun v hv ht => ?_⟩
  · by_cases hread : ∃ t, IsText (read .variables text).form t
    · obtain ⟨t, ht⟩ := hread
      rw [load_of_isText h ht] at hload
      obtain rfl := x.settings_injective (Except.ok.inj hload)
      exact (isText_read_self_iff t).mp ht
    · obtain ⟨fault, hfault, -⟩ := load_of_not_isText h (not_exists.mp hread)
      rw [hfault] at hload
      cases hload
  · exact load_of_isText h ((isText_read_self_iff text).mpr hliteral)
  · exact load_of_isText h (read_of_complete hv ▸ ht)
  · exact load_of_not_isText h (read_of_complete hv ▸ ht)

/-- A password with a comma in it is taken as it is, and one between quotes loses them. -/
theorem load_literal_iff_comma_and_quotes :
    ((alone "NEO4J_PASSWORD" "pa,ss").OnlySource "NEO4J_PASSWORD" "pa,ss" ∧ Literal "pa,ss" ∧
      load (alone "NEO4J_PASSWORD" "pa,ss") = .ok { graph := { password := some "pa,ss" } }) ∧
    ((alone "NEO4J_PASSWORD" "\"12345\"").OnlySource "NEO4J_PASSWORD" "\"12345\"" ∧ ¬ Literal "\"12345\"" ∧
      load (alone "NEO4J_PASSWORD" "\"12345\"") = .ok { graph := { password := some "12345" } }) := by
  have hcomma : ∀ v, ¬ Complete .variables "pa,ss" v := by
    intro v hv
    have hrest : (scanWithin .variables (2 * "pa,ss".toList.length + 3) "pa,ss".toList).map Prod.snd =
        some [',', 's', 's'] := by decide +kernel
    rw [(complete_iff _ v).mp hv] at hrest
    cases hrest
  have hquotes : Complete .variables "\"12345\"" (.scalar .variables (.text "12345")) := by
    have hskip : skipSpace "\"12345\"".toList = '"' :: "12345\"".toList := by decide +kernel
    have hquoted : scanQuoted [] "12345\"".toList = some ("12345", []) := by decide +kernel
    refine ⟨[], ?_, rfl⟩
    rw [hskip]
    exact .quoted ((scanQuoted_eq_some_iff _ _ _).mp hquoted)
  obtain ⟨htaken, -, -⟩ := load_literal_iff .password _ "pa,ss" (onlySource_alone .password _)
  obtain ⟨hself, htext, -⟩ := load_literal_iff .password _ "\"12345\"" (onlySource_alone .password _)
  have hload := htext _ _ hquotes (.text "12345")
  refine ⟨⟨onlySource_alone .password _, Or.inl hcomma, htaken.mpr (Or.inl hcomma)⟩,
    onlySource_alone .password _, fun hliteral => ?_, hload⟩
  have hsame := settings_injective .password (Except.ok.inj (hload.symm.trans (hself.mpr hliteral)))
  exact absurd hsame (by decide)

/-- **A password of digits is refused**: it is a number, and no text. -/
theorem load_fails_for_digits :
    ∃ fault : Fault, load (alone "NEO4J_PASSWORD" "12345") = .error (.config fault) ∧
      ["graph", "password"] <+: fault.key := by
  refine load_of_not_isText (x := .password) (onlySource_alone .password "12345") fun t ht => ?_
  have hdigits : Complete .variables "12345" (.scalar .variables (.unsigned 12345)) := by
    have hloose : ¬ Marked (skipSpace "12345".toList) := by decide +kernel
    have hscalar : scalar (Text.trimChars ((skipSpace "12345".toList).takeWhile isLoose)) = .unsigned 12345 := by
      decide +kernel
    have hrest : skipSpace ((skipSpace "12345".toList).dropWhile isLoose) = [] := by decide +kernel
    rw [complete_iff, scanWithin_loose hloose, hscalar, hrest]
  rw [read_of_complete hdigits] at ht
  cases ht

end TextVariable

end CodeAtlas.Config
