import Mathlib.Data.List.Induction
import CodeAtlas.Proofs.Config.Setting
import CodeAtlas.Proofs.Files.Component

/-!
# Each setting comes from the topmost layer that has it

The layers of settings are laid over one another: the user's file, the project's file, the variables with names of
their own, and the variables named after the settings.  Each variable is a small layer of its own.  As long as the
sections are tables in every source, a setting takes the value of the topmost layer that has one, whatever the
layers have for other settings; so a key of a section never hides another.  Loading fails exactly if one of the
values that settings take is ill-typed; an ill-typed value below another does no harm.

## Main definitions

* `CodeAtlas.Config.topmost?` — the value of the last layer that has one.
* `CodeAtlas.Config.Surroundings.winner?` — the value that a setting takes.

## Main results

* `CodeAtlas.Config.foldl_merge` — what layers over one another answer.
* `CodeAtlas.Config.load_eq_ok_iff`, `CodeAtlas.Config.load_eq_error` — loading, in terms of winners.
* `CodeAtlas.Config.load_takes_winners` — each setting by itself.
-/

namespace CodeAtlas.Config

open Value (form)

/-! ## Layers over one another -/

/-- **The value of the last layer that has one** under a path. -/
def topmost? (layers : List Value) (path : List String) : Option Value :=
  (layers.filterMap (·.get? path)).getLast?

/-- The last layer comes first. -/
lemma topmost?_concat (layers : List Value) (v : Value) (path : List String) :
    topmost? (layers ++ [v]) path = (v.get? path).or (topmost? layers path) := by
  rw [topmost?, List.filterMap_append, List.getLast?_append]
  congr 1
  cases h : v.get? path <;> simp [h]

/-- **What layers over one another answer**, over an empty table, for a section that is a table in all of them.

**Proof sketch.** Induction on the layers from the topmost one down.  One layer more is laid over all the others: it
answers first, and where it has no answer the others do, as the hypothesis says; and its section is a table, as
theirs is. -/
theorem foldl_merge (o : Origin) (layers : List Value) {name : String} (hopens : ∀ v ∈ layers, v.Opens name)
    (hordered : ∀ v ∈ layers, v.Ordered) :
    let merged := layers.foldl Value.merge (.table o [])
    merged.Opens name ∧ merged.Ordered ∧
      ∀ key, (merged.get? [name, key]).map form = (topmost? layers [name, key]).map form := by
  induction layers using List.reverseRecOn with
  | nil => exact ⟨⟨⟨o, [], rfl⟩, by simp [Table.get?]⟩, .table List.Pairwise.nil (by simp), fun _ => rfl⟩
  | append_singleton layers v ih =>
    rw [List.forall_mem_append] at hopens hordered
    obtain ⟨hopens', hordered', hget⟩ := ih hopens.1 hordered.1
    have hv : v.Opens name := hopens.2 v (List.mem_singleton_self v)
    have hv' : v.Ordered := hordered.2 v (List.mem_singleton_self v)
    rw [List.foldl_append, List.foldl_cons, List.foldl_nil]
    refine ⟨hopens'.merge hv hv', hordered'.merge hv', fun key => ?_⟩
    rw [Value.form_get?_merge hopens' hv hv', hget, topmost?_concat]
    cases v.get? [name, key] <;> rfl

/-! ## Variables -/

namespace Variable

/-- The path that the name of a variable with a name of its own stands for. -/
def conventionalPath? (name : String) : Option (List String) :=
  (conventions.find? fun c => c.1 = lower (Text.trim name)).map Prod.snd

/-- The path that the name of a variable named after a setting stands for. -/
def prefixedPath? (start name : String) : Option (List String) :=
  (afterStart? start (Text.trim name)).bind path?

/-- **Each variable as a layer of its own.** -/
def layersOf (o : Origin) (path? : String → Option (List String)) (env : List (String × String)) : List Value :=
  env.filterMap fun e => (path? e.1).map fun path => .nest o path (read o e.2)

/-- A layer of variables is made of the layers of each. -/
lemma layer_eq_foldl (o : Origin) (path? : String → Option (List String)) (env : List (String × String)) :
    layer o (env.filterMap fun e => (path? e.1).map (·, e.2)) =
      (layersOf o path? env).foldl Value.merge (.table o []) := by
  rw [layer, layersOf, List.foldl_filterMap, List.foldl_filterMap]
  congr 1
  funext below e
  cases path? e.1 <;> rfl

/-- The variables with names of their own. -/
lemma conventional_eq_foldl (env : List (String × String)) :
    conventional env = (layersOf .variables conventionalPath? env).foldl Value.merge (.table .variables []) := by
  have hvalues : ∀ e : String × String, (conventionalPath? e.1).map (·, e.2) =
      (conventions.find? fun c => c.1 = lower (Text.trim e.1)).map fun c => (c.2, e.2) := by
    intro e
    rw [conventionalPath?, Option.map_map]
    rfl
  rw [← layer_eq_foldl]
  simp only [hvalues]
  rfl

/-- The variables named after the settings. -/
lemma prefixedWith_eq_foldl (start : String) (env : List (String × String)) :
    prefixedWith start env =
      (layersOf (.prefixed start) (prefixedPath? start) env).foldl Value.merge (.table (.prefixed start) []) := by
  rw [← layer_eq_foldl, prefixedWith]
  rfl

/-- The layers of variables are ordered. -/
lemma layersOf_ordered {o : Origin} {path? : String → Option (List String)} {env : List (String × String)}
    {v : Value} (hv : v ∈ layersOf o path? env) : v.Ordered := by
  obtain ⟨e, -, he⟩ := List.mem_filterMap.mp hv
  obtain ⟨path, -, rfl⟩ := Option.map_eq_some_iff.mp he
  exact (read_ordered o e.2).nest o path

/-- A value at the end of a path, which is not the section itself unless it is a table. -/
lemma opens_nest (o : Origin) {path : List String} (hpath : path ≠ []) {name : String} {v : Value}
    (hv : path = [name] → v.IsTable) : (Value.nest o path v).Opens name := by
  cases path with
  | nil => exact absurd rfl hpath
  | cons key path =>
    refine ⟨⟨_, _, rfl⟩, fun w hw => ?_⟩
    rw [Value.nest, Value.get?_singleton, Table.get?] at hw
    split_ifs at hw with hkey
    · subst hkey
      rw [← Option.some.inj hw]
      cases path with
      | nil => exact hv rfl
      | cons => exact ⟨_, _, rfl⟩
    · cases hw

/-- The layers of variables, each with a path that is not the section itself unless the value is a table. -/
lemma layersOf_opens {o : Origin} {path? : String → Option (List String)} {env : List (String × String)}
    {name : String} (hne : ∀ name, path? name ≠ some [])
    (htable : ∀ e ∈ env, path? e.1 = some [name] → (read o e.2).IsTable) {v : Value}
    (hv : v ∈ layersOf o path? env) : v.Opens name := by
  obtain ⟨e, he, hnest⟩ := List.mem_filterMap.mp hv
  obtain ⟨path, hpath, rfl⟩ := Option.map_eq_some_iff.mp hnest
  refine opens_nest o ?_ fun h => htable e he (h ▸ hpath)
  rintro rfl
  exact hne _ hpath

/-- **A variable with a name of its own** stands for the setting of that name, without regard to case. -/
lemma conventionalPath?_eq_some_iff (name : String) (path : List String) :
    conventionalPath? name = some path ↔ (lower (Text.trim name), path) ∈ conventions := by
  rw [conventionalPath?, Option.map_eq_some_iff]
  constructor
  · rintro ⟨c, hc, rfl⟩
    have hname := List.find?_some hc
    rw [decide_eq_true_eq] at hname
    rw [← hname]
    exact List.mem_of_find?_eq_some hc
  · intro h
    refine ⟨(lower (Text.trim name), path), ?_, rfl⟩
    generalize lower (Text.trim name) = lowered at h ⊢
    simp only [conventions, List.mem_cons, Prod.mk.injEq, List.not_mem_nil, or_false] at h
    rcases h with ⟨rfl, rfl⟩ | ⟨rfl, rfl⟩ | ⟨rfl, rfl⟩ | ⟨rfl, rfl⟩ | ⟨rfl, rfl⟩ | ⟨rfl, rfl⟩ | ⟨rfl, rfl⟩ |
      ⟨rfl, rfl⟩ <;> rfl

/-- **A variable named after a setting** stands for it, without regard to case. -/
lemma prefixedPath?_of_lower {name : String} {k : Key}
    (h : lower (Text.trim name) = "treeline_" ++ k.owner.name ++ "__" ++ k.name) :
    prefixedPath? Surroundings.variableStart name = some k.path := by
  rw [prefixedPath?, afterStart?, h]
  rcases k with k | k | k <;> cases k <;> rfl

/-- The paths of variables with names of their own have two parts. -/
lemma length_of_conventionalPath? {name : String} {path : List String} (h : conventionalPath? name = some path) :
    path.length = 2 := by
  have hmem := (conventionalPath?_eq_some_iff name path).mp h
  have hlengths : ∀ c ∈ conventions, c.2.length = 2 := by decide
  exact hlengths _ hmem

/-- The paths of variables named after settings are not empty. -/
lemma prefixedPath?_ne_nil (start name : String) : prefixedPath? start name ≠ some [] := by
  intro h
  obtain ⟨cs, -, hpath⟩ := Option.bind_eq_some_iff.mp h
  unfold path? at hpath
  dsimp only at hpath
  split_ifs at hpath
  exact Files.Path.split_ne_nil _ _ (List.map_eq_nil_iff.mp (Option.some.inj hpath))

/-- A value stands at the end of its path. -/
lemma get?_nest (o : Origin) (path : List String) (v : Value) : (Value.nest o path v).get? path = some v := by
  induction path with
  | nil => rfl
  | cons key path ih =>
    rw [Value.nest, Value.get?, Table.get?, if_pos rfl]
    exact ih

/-- **The last variable for a path** gives the value. -/
lemma topmost?_layersOf {o : Origin} {path? : String → Option (List String)} {before after : List (String × String)}
    {name text : String} {path : List String} (hpath : path? name = some path)
    (hafter : topmost? (layersOf o path? after) path = none) :
    topmost? (layersOf o path? (before ++ (name, text) :: after)) path = some (read o text) := by
  have hsilent : (layersOf o path? after).filterMap (·.get? path) = [] := List.getLast?_eq_none_iff.mp hafter
  rw [topmost?, layersOf, List.filterMap_append, List.filterMap_cons, hpath, List.filterMap_append]
  dsimp only [Option.map_some]
  rw [List.filterMap_cons, get?_nest, ← layersOf, ← layersOf, hsilent]
  simp

/-- A value at the end of a path stands at no other path of that length.

**Proof sketch.** Induction on the path.  If the first keys differ, there is nothing under the other one; if they
agree, the paths differ later on. -/
lemma get?_nest_of_ne (o : Origin) {path other : List String} (hlength : path.length = other.length)
    (hne : path ≠ other) (v : Value) : (Value.nest o path v).get? other = none := by
  induction path generalizing other with
  | nil => exact absurd (List.length_eq_zero_iff.mp hlength.symm).symm hne
  | cons key path ih =>
    cases other with
    | nil => cases hlength
    | cons key' other =>
      rw [Value.nest, Value.get?, Table.get?]
      by_cases hkey : key = key'
      · subst hkey
        rw [if_pos rfl]
        exact ih (Nat.succ.inj hlength) fun h => hne (h ▸ rfl)
      · rw [if_neg hkey]
        rfl

/-- **Variables for other paths** give nothing. -/
lemma topmost?_layersOf_eq_none {o : Origin} {path? : String → Option (List String)}
    {env : List (String × String)} {path : List String}
    (h : ∀ p ∈ env.filterMap fun e => path? e.1, p.length = path.length ∧ p ≠ path) :
    topmost? (layersOf o path? env) path = none := by
  rw [topmost?, List.getLast?_eq_none_iff, List.filterMap_eq_nil_iff]
  intro v hv
  obtain ⟨e, he, hnest⟩ := List.mem_filterMap.mp hv
  obtain ⟨p, hp, rfl⟩ := Option.map_eq_some_iff.mp hnest
  obtain ⟨hlength, hne⟩ := h p (List.mem_filterMap.mpr ⟨e, he, hp⟩)
  exact get?_nest_of_ne o hlength hne _

/-- **Variables that are for no path** give nothing. -/
lemma topmost?_layersOf_of_forall_eq_none {o : Origin} {path? : String → Option (List String)}
    {env : List (String × String)} (h : ∀ e ∈ env, path? e.1 = none) (path : List String) :
    topmost? (layersOf o path? env) path = none := by
  refine topmost?_layersOf_eq_none fun p hp => ?_
  obtain ⟨e, he, hpath⟩ := List.mem_filterMap.mp hp
  rw [h e he] at hpath
  cases hpath

end Variable

/-! ## Files and variables -/

namespace Surroundings

open Variable

/-- The layer of the user's file, if there is one. -/
def userLayer (s : Surroundings) : Except Fault (Option Value) :=
  match s.userPlace? with
  | some place => s.fileLayer place
  | none => .ok none

/-- The layer of the project's file, if there is one. -/
def projectLayer (s : Surroundings) : Except Fault (Option Value) :=
  match s.projectPlace? s.directory.reverse with
  | some place => s.fileLayer place
  | none => .ok none

/-- The variables with names of their own, each as a layer. -/
def conventionalLayers (s : Surroundings) : List Value := layersOf .variables conventionalPath? s.env

/-- The variables named after the settings, each as a layer. -/
def prefixedLayers (s : Surroundings) : List Value :=
  layersOf (.prefixed variableStart) (prefixedPath? variableStart) s.env

/-- **The sections are tables** in every source that has them. -/
structure Sectioned (s : Surroundings) (user project : Option Value) : Prop where
  user_isTable : ∀ v, user = some v → ∀ (t : Section) w, v.get? [t.name] = some w → w.IsTable
  project_isTable : ∀ v, project = some v → ∀ (t : Section) w, v.get? [t.name] = some w → w.IsTable
  variable_isTable : ∀ e ∈ s.env, ∀ t : Section, prefixedPath? variableStart e.1 = some [t.name] →
    (read (.prefixed variableStart) e.2).IsTable

/-- **The value that a setting takes**: that of the variables named after the settings, of the variables with names
of their own, of the project's file and of the user's file, whichever is the first to have one. -/
def winner? (s : Surroundings) (user project : Option Value) (k : Key) : Option Value :=
  (topmost? s.prefixedLayers k.path).or <| (topmost? s.conventionalLayers k.path).or <|
    (project.bind (·.get? k.path)).or (user.bind (·.get? k.path))

variable {s : Surroundings} {user project : Option Value}

/-- The layers, when the files can be read. -/
lemma layers_eq (huser : s.userLayer = .ok user) (hproject : s.projectLayer = .ok project) :
    s.layers = .ok (user.toList ++ project.toList ++
      [Variable.conventional s.env, Variable.prefixedWith variableStart s.env]) := by
  have hlayers : s.layers = (do
      let user ← s.userLayer
      let project ← s.projectLayer
      return user.toList ++ project.toList ++
        [Variable.conventional s.env, Variable.prefixedWith variableStart s.env]) := by
    unfold layers userLayer projectLayer
    cases s.userPlace? <;> cases s.projectPlace? s.directory.reverse <;> rfl
  rw [hlayers, huser, hproject]
  rfl

/-- The layer of the user's file is an ordered table. -/
lemma userLayer_ordered {v : Value} (h : s.userLayer = .ok (some v)) : v.Ordered ∧ v.IsTable := by
  unfold userLayer at h
  split at h
  · exact fileLayer_ordered h
  · cases h

/-- The layer of the project's file is an ordered table. -/
lemma projectLayer_ordered {v : Value} (h : s.projectLayer = .ok (some v)) : v.Ordered ∧ v.IsTable := by
  unfold projectLayer at h
  split at h
  · exact fileLayer_ordered h
  · cases h

/-- What the layer of the variables with names of their own answers. -/
lemma conventional_spec (s : Surroundings) (t : Section) :
    (Variable.conventional s.env).Opens t.name ∧ (Variable.conventional s.env).Ordered ∧
      ∀ key, ((Variable.conventional s.env).get? [t.name, key]).map form =
        (topmost? s.conventionalLayers [t.name, key]).map form := by
  rw [conventional_eq_foldl]
  refine foldl_merge _ _ (fun v hv => layersOf_opens ?_ ?_ hv) (fun v hv => layersOf_ordered hv)
  · intro name h
    cases length_of_conventionalPath? h
  · intro e _ h
    cases length_of_conventionalPath? h

/-- What the layer of the variables named after the settings answers. -/
lemma prefixedWith_spec (h : s.Sectioned user project) (t : Section) :
    (prefixedWith variableStart s.env).Opens t.name ∧ (prefixedWith variableStart s.env).Ordered ∧
      ∀ key, ((prefixedWith variableStart s.env).get? [t.name, key]).map form =
        (topmost? s.prefixedLayers [t.name, key]).map form := by
  rw [prefixedWith_eq_foldl]
  refine foldl_merge _ _ (fun v hv => layersOf_opens ?_ ?_ hv) (fun v hv => layersOf_ordered hv)
  · exact prefixedPath?_ne_nil variableStart
  · exact fun e he => h.variable_isTable e he t

/-- The files, as layers. -/
lemma topmost?_files (user project : Option Value) (path : List String) :
    topmost? (user.toList ++ project.toList) path = (project.bind (·.get? path)).or (user.bind (·.get? path)) := by
  have hfile : ∀ file : Option Value, (file.toList.filterMap (·.get? path)).getLast? = file.bind (·.get? path) := by
    intro file
    cases file with
    | none => rfl
    | some v => cases h : v.get? path <;> simp [h]
  rw [topmost?, List.filterMap_append, List.getLast?_append, hfile, hfile]

/-- **All layers as one** answer what wins.

**Proof sketch.** Each layer is an ordered table in which the sections are tables: those of files because they are
read so, and those of variables because they are built so.  Hence the layers laid over one another answer as the
topmost of them that has an answer, and the two layers of variables answer as the single variables do. -/
theorem stack_spec (huser : s.userLayer = .ok user) (hproject : s.projectLayer = .ok project)
    (h : s.Sectioned user project) :
    ∃ layers, s.layers = .ok layers ∧ (stack layers).Ordered ∧ (∀ t : Section, (stack layers).Opens t.name) ∧
      ∀ k : Key, ((stack layers).get? k.path).map form = (s.winner? user project k).map form := by
  refine ⟨_, layers_eq huser hproject, ?_⟩
  set layers := user.toList ++ project.toList ++
    [Variable.conventional s.env, Variable.prefixedWith variableStart s.env] with hlayers
  have hordered : ∀ v ∈ layers, v.Ordered := by
    simp only [hlayers, List.forall_mem_append, List.forall_mem_cons, Option.mem_toList]
    refine ⟨⟨?_, ?_⟩, (conventional_spec s .graph).2.1, (prefixedWith_spec h .graph).2.1, by simp⟩
    · rintro v rfl
      exact (userLayer_ordered huser).1
    · rintro v rfl
      exact (projectLayer_ordered hproject).1
  have hopens : ∀ (t : Section), ∀ v ∈ layers, v.Opens t.name := by
    intro t
    simp only [hlayers, List.forall_mem_append, List.forall_mem_cons, Option.mem_toList]
    refine ⟨⟨?_, ?_⟩, (conventional_spec s t).1, (prefixedWith_spec h t).1, by simp⟩
    · rintro v rfl
      exact ⟨(userLayer_ordered huser).2, h.user_isTable v rfl t⟩
    · rintro v rfl
      exact ⟨(projectLayer_ordered hproject).2, h.project_isTable v rfl t⟩
  have hmerged := fun t : Section => foldl_merge .variables layers (hopens t) hordered
  refine ⟨(hmerged .graph).2.1, fun t => (hmerged t).1, fun k => ?_⟩
  have hsplit : layers = user.toList ++ project.toList ++ [Variable.conventional s.env] ++
      [Variable.prefixedWith variableStart s.env] := by simp [hlayers]
  calc ((stack layers).get? k.path).map form
      = (topmost? layers k.path).map form := (hmerged k.owner).2.2 k.name
    _ = (((prefixedWith variableStart s.env).get? k.path).map form).or
          ((((Variable.conventional s.env).get? k.path).map form).or
            ((topmost? (user.toList ++ project.toList) k.path).map form)) := by
        rw [hsplit, topmost?_concat, topmost?_concat, Option.map_or, Option.map_or]
    _ = ((topmost? s.prefixedLayers k.path).map form).or
          (((topmost? s.conventionalLayers k.path).map form).or
            ((topmost? (user.toList ++ project.toList) k.path).map form)) := by
        rw [Key.path, (prefixedWith_spec h k.owner).2.2, (conventional_spec s k.owner).2.2]
    _ = (s.winner? user project k).map form := by
        rw [winner?, Option.map_or, Option.map_or, topmost?_files]

end Surroundings

/-! ## Loading -/

/-- What a setting takes depends on the form of what was found. -/
lemma Key.takes_congr {k : Key} {found found' : Option Value} (h : found.map form = found'.map form)
    (c : Settings) : k.Takes found c ↔ k.Takes found' c := by
  cases found with
  | none =>
    cases found' with
    | none => rfl
    | some v => cases h
  | some v =>
    cases found' with
    | none => cases h
    | some w =>
      have hform : v.form = w.form := Option.some.inj h
      simp only [Takes, hform]

/-- A value of the same form was found elsewhere. -/
lemma exists_form_eq {found found' : Option Value} (h : found.map form = found'.map form) {v : Value}
    (hv : found = some v) : ∃ w, found' = some w ∧ w.form = v.form := by
  rw [hv] at h
  exact Option.map_eq_some_iff.mp h.symm

variable {s : Surroundings} {user project : Option Value}

/-- **Loading gives settings** exactly if each takes what wins for it. -/
theorem load_eq_ok_iff (huser : s.userLayer = .ok user) (hproject : s.projectLayer = .ok project)
    (h : s.Sectioned user project) (c : Settings) :
    load s = .ok c ↔ ∀ k : Key, k.Takes (s.winner? user project k) c := by
  obtain ⟨layers, hlayers, hordered, hopens, hwinner⟩ := Surroundings.stack_spec huser hproject h
  have hload : load s = .ok c ↔ Settings.ofValue (stack layers) = .ok c := by
    unfold load
    rw [hlayers]
    dsimp only
    split <;> simp_all
  rw [hload, Settings.ofValue_eq_ok_iff hordered hopens]
  exact forall_congr' fun k => Key.takes_congr (hwinner k) c

/-- **Loading fails for a setting**: the refusal names one for which an ill-typed value wins. -/
theorem load_eq_error (huser : s.userLayer = .ok user) (hproject : s.projectLayer = .ok project)
    (h : s.Sectioned user project) {f : Failure} (hf : load s = .error f) :
    ∃ (fault : Fault) (k : Key) (v : Value), f = .config fault ∧ s.winner? user project k = some v ∧
      (∀ x, ¬ Denotes k.kind v.form x) ∧ k.path <+: fault.key := by
  obtain ⟨layers, hlayers, hordered, hopens, hwinner⟩ := Surroundings.stack_spec huser hproject h
  unfold load at hf
  rw [hlayers] at hf
  dsimp only at hf
  split at hf
  · rename_i fault hfault
    obtain ⟨k, w, hget, hill, hkey⟩ := Settings.ofValue_eq_error hordered hopens hfault
    obtain ⟨v, hv, hform⟩ := exists_form_eq (hwinner k) hget
    exact ⟨fault, k, v, (Except.error.inj hf).symm, hv, hform ▸ hill, hkey⟩
  · cases hf

open Variable Surroundings

/-- **Each setting comes from the topmost layer that has it.**  Let the files be readable, and let the sections be
tables in every source.

* Settings are loaded exactly if each of them holds what the value that wins for it denotes, or its default if no
  layer has a value for it.  What wins for a setting does not depend on the values for other settings.
* Loading succeeds exactly if every value that wins denotes something for its setting.
* Otherwise the failure is one of configuration, and names a setting for which an ill-typed value wins.
* A variable with the prefix wins for the setting it is named after, unless a later one does.
* A variable with a name of its own wins for its setting, unless a later one or one with the prefix does.

**Proof sketch.** All layers as one answer what wins, and decoding reads each setting from its own answer; so the
settings are loaded if each takes its winner, and a failure comes from a winner that denotes nothing.  A variable
wins if none above it is for the same setting, since it is a layer of its own. -/
theorem load_takes_winners (s : Surroundings) (user project : Option Value) (huser : s.userLayer = .ok user)
    (hproject : s.projectLayer = .ok project) (hsections : s.Sectioned user project) :
    (∀ c, load s = .ok c ↔ ∀ k : Key, k.Takes (s.winner? user project k) c) ∧
    ((∃ c, load s = .ok c) ↔ ∀ (k : Key) (v : Value), s.winner? user project k = some v →
      ∃ x, Denotes k.kind v.form x) ∧
    (∀ f, load s = .error f → ∃ (fault : Fault) (k : Key) (v : Value), f = .config fault ∧
      s.winner? user project k = some v ∧ (∀ x, ¬ Denotes k.kind v.form x) ∧ k.path <+: fault.key) ∧
    (∀ (k : Key) name text before after, s.env = before ++ (name, text) :: after →
      lower (Text.trim name) = "treeline_" ++ k.owner.name ++ "__" ++ k.name →
      topmost? (layersOf (.prefixed variableStart) (prefixedPath? variableStart) after) k.path = none →
      s.winner? user project k = some (read (.prefixed variableStart) text)) ∧
    ∀ (k : Key) name text before after, s.env = before ++ (name, text) :: after →
      (lower (Text.trim name), k.path) ∈ conventions →
      topmost? (layersOf .variables conventionalPath? after) k.path = none →
      topmost? s.prefixedLayers k.path = none →
      s.winner? user project k = some (read .variables text) := by
  have hok := load_eq_ok_iff huser hproject hsections
  refine ⟨hok, ⟨?_, fun hall => ?_⟩, fun f hf => load_eq_error huser hproject hsections hf, ?_, ?_⟩
  · rintro ⟨c, hc⟩ k v hv
    have htakes := (hok c).mp hc k
    rw [hv] at htakes
    obtain ⟨x, hx, -⟩ := htakes
    exact ⟨x, hx⟩
  · cases hload : load s with
    | ok c => exact ⟨c, rfl⟩
    | error f =>
      obtain ⟨_, k, v, -, hv, hill, -⟩ := load_eq_error huser hproject hsections hload
      obtain ⟨x, hx⟩ := hall k v hv
      exact absurd hx (hill x)
  · intro k name text before after henv hname hafter
    rw [winner?, prefixedLayers, henv, topmost?_layersOf (prefixedPath?_of_lower hname) hafter]
    rfl
  · intro k name text before after henv hname hafter hprefixed
    have hpath := (conventionalPath?_eq_some_iff name k.path).mpr hname
    rw [winner?, hprefixed, conventionalLayers, henv, topmost?_layersOf hpath hafter]
    rfl

/-- A value without parts, if it is one. -/
def Value.scalar? : Value → Option Scalar
  | .scalar _ x => some x
  | _ => none

/-- A setting takes a text that was found for it. -/
lemma Key.takes_text {k : Key} {found : Option Value} {c : Settings} {text : String} {x : k.kind.type}
    (hfound : found.bind Value.scalar? = some (.text text)) (hx : Denotes k.kind (.scalar (.text text)) x)
    (hget : k.get c = some x) : k.Takes found c := by
  obtain ⟨v, rfl, hv⟩ := Option.bind_eq_some_iff.mp hfound
  cases v with
  | scalar o y =>
    obtain rfl : y = .text text := Option.some.inj hv
    exact ⟨x, hx, hget⟩
  | list => cases hv
  | table => cases hv

/-- A project's file in the root directory, and some variables. -/
def Surroundings.atRoot (content : String) (env : List (String × String)) : Surroundings where
  tree := .directory [(⟨projectFile, by decide⟩, .file ⟨Text.Utf8.encode content, none⟩)]
  directory := []
  env := env

/-- The way to the project's file at the root. -/
lemma Surroundings.resolve?_projectFile (tree : Files.Entry) :
    tree.resolve? [] (pathText [projectFile]) =
      tree.follow Files.Entry.maxLinks [] [.root, .name projectFile] := by
  have hway : Files.Path.components (pathText [projectFile]) = [.root, .name projectFile] := by decide +kernel
  have hname : (pathText [projectFile]).isEmpty = false := by decide +kernel
  rw [Files.Entry.resolve?, hway, hname, if_neg (by decide), List.reverse_nil]

/-- The file is found. -/
lemma Surroundings.file?_atRoot (content : String) (env : List (String × String)) :
    (atRoot content env).file? [projectFile] = some (Text.Utf8.encode content) := by
  rw [file?, Files.Entry.read?, resolve?_projectFile]
  simp [atRoot, Files.Entry.follow, Files.Entry.at?, Files.Entry.child?, Files.Entry.entries]

/-- The layer of the file. -/
lemma Surroundings.projectLayer_atRoot {content : String} {entries : Table Toml.Value}
    (env : List (String × String))
    (hdecode : Text.Utf8.decode (Text.Utf8.encode content) = .ok content.toList)
    (hread : Toml.read content.toList = some entries) :
    (atRoot content env).projectLayer =
      .ok (some (.table (.file projectFile) (Value.ofTomlEntries (.file projectFile) entries))) := by
  have hfile : (atRoot content env).file? [projectFile].reverse = _ := file?_atRoot content env
  have hplace : (atRoot content env).projectPlace? (atRoot content env).directory.reverse = some [projectFile] := by
    show projectPlace? _ [] = _
    rw [projectPlace?, hfile]
    rfl
  have hshown : (atRoot content env).shown [projectFile] = projectFile := rfl
  unfold projectLayer
  rw [hplace]
  dsimp only
  rw [fileLayer, file?_atRoot]
  dsimp only
  rw [hdecode, hshown]
  dsimp only
  rw [hread]

/-- A text of a document, which begins with a quote. -/
lemma scanValue_of_quote {c : Char} {cs rest : List Char} {s : String} (hc : c = '"' ∨ c = '\'')
    (h : Toml.scanText (c :: cs) = some (s, rest)) : Toml.scanValue (c :: cs) = some (.text s, rest) := by
  rw [Toml.scanValue, Toml.scanValueWithin.eq_def]
  rcases hc with rfl | rfl
  · simp [h]
  · simp [h]

/-- A line of a document with a key and its value. -/
lemma readLinesWithin_pair {fuel : Nat} {header : List String} {entries entries' : Toml.Entries} {c : Char}
    {cs rest more last : List Char} {key : List String} {v : Toml.Value} (hc : c ≠ '[')
    (hline : Toml.lineEnd? (c :: cs) = none) (hblank : Toml.skipBlank (c :: cs) = c :: cs)
    (hkey : Toml.scanKey (c :: cs) = some (key, '=' :: rest))
    (hv : Toml.scanValue (Toml.skipBlank rest) = some (v, more)) (hend : Toml.lineEnd? more = some last)
    (hentries : Toml.descend false (fun _ => Toml.defineAll [(key, v)]) header false entries = some entries') :
    Toml.readLinesWithin (fuel + 1) header entries (c :: cs) = Toml.readLinesWithin fuel header entries' last := by
  rw [Toml.readLinesWithin, hline]
  simp only [hblank]
  split
  · simp_all
  · simp_all
  · rw [hkey]
    simp only [hv, hend, hentries]

/-- A document of one line. -/
lemma read_ann : Toml.read "graph.user='ann'\n".toList = some [("graph", .table [("user", .text "ann")])] := by
  have hcs : "graph.user='ann'\n".toList = 'g' :: "raph.user='ann'\n".toList := rfl
  have hkey : Toml.scanKey ('g' :: "raph.user='ann'\n".toList) =
      some (["graph", "user"], '=' :: '\'' :: "ann'\n".toList) := by decide +kernel
  have hblank : Toml.skipBlank ('\'' :: "ann'\n".toList) = '\'' :: "ann'\n".toList := by decide +kernel
  have hvalue : Toml.scanValue (Toml.skipBlank ('\'' :: "ann'\n".toList)) = some (.text "ann", ['\n']) := by
    rw [hblank]
    exact scanValue_of_quote (Or.inr rfl) (by decide +kernel)
  have hentries : Toml.descend false (fun _ => Toml.defineAll [(["graph", "user"], .text "ann")]) [] false [] =
      some [("graph", .table true true [("user", .value (.text "ann"))])] := by
    simp [Toml.descend, Toml.defineAll, Toml.define, Table.get?, Table.insert, Table.contains]
  have hend : Toml.lineEnd? ['\n'] = some [] := by decide +kernel
  rw [hcs, Toml.read]
  · rw [readLinesWithin_pair (by decide) (by decide +kernel) (by decide +kernel) hkey hvalue hend hentries]
    rfl
  · intro rest h
    simp at h

/-- A user in the project's file, and three variables, of which one gives an ill-typed password. -/
def sample : Surroundings :=
  .atRoot "graph.user='ann'\n"
    [("Neo4j_Uri", "bolt"), ("NEO4J_PASSWORD", "12345"), ("TREELINE_GRAPH__PASSWORD", "kept")]

/-- The layer of the project's file. -/
def sampleProject : Value :=
  .table (.file ".treeline.toml") [("graph", .table (.file ".treeline.toml")
    [("user", .scalar (.file ".treeline.toml") (.text "ann"))])]

/-- The password after the prefix wins, and the ill-typed one below it does no harm; the user of the file is not
hidden by the other settings of its section. -/
theorem load_takes_winners_sample :
    sample.userLayer = .ok none ∧ sample.projectLayer = .ok (some sampleProject) ∧
      sample.Sectioned none (some sampleProject) ∧
      load sample = .ok { graph := { uri := "bolt", user := "ann", password := some "kept" } } := by
  have huser : sample.userLayer = .ok none := by
    have hplace : sample.userPlace? = none := by decide +kernel
    rw [userLayer, hplace]
  have hproject : sample.projectLayer = .ok (some sampleProject) :=
    projectLayer_atRoot _ (by decide +kernel) read_ann
  have hconventional : sample.env.filterMap (fun e => conventionalPath? e.1) =
      [["graph", "uri"], ["graph", "password"]] := by decide +kernel
  have hprefixed : sample.env.filterMap (fun e => prefixedPath? variableStart e.1) = [["graph", "password"]] := by
    decide +kernel
  have hsections : sample.Sectioned none (some sampleProject) := by
    refine ⟨by simp, ?_, ?_⟩
    · intro v hv t w hw
      rw [← Option.some.inj hv] at hw
      cases t with
      | graph => exact ⟨_, _, (Option.some.inj hw).symm⟩
      | embedding => cases hw
      | ingest => cases hw
    · intro e he t h
      have hmem : [t.name] ∈ sample.env.filterMap fun e => prefixedPath? variableStart e.1 :=
        List.mem_filterMap.mpr ⟨e, he, h⟩
      rw [hprefixed] at hmem
      cases congrArg List.length (List.mem_singleton.mp hmem)
  obtain ⟨hload, -⟩ := load_takes_winners sample none (some sampleProject) huser hproject hsections
  -- no variable is for a setting other than the address and the password
  have hother : ∀ k : Key, (∀ p ∈ [["graph", "uri"], ["graph", "password"]], p ≠ k.path) →
      sample.winner? none (some sampleProject) k = sampleProject.get? k.path := by
    intro k hk
    have hprefixed' : topmost? sample.prefixedLayers k.path = none := by
      refine topmost?_layersOf_eq_none ?_
      rw [hprefixed]
      simpa [Key.path] using hk ["graph", "password"] (by simp)
    have hconventional' : topmost? sample.conventionalLayers k.path = none := by
      refine topmost?_layersOf_eq_none ?_
      rw [hconventional]
      simpa [Key.path] using hk
    rw [winner?, hprefixed', hconventional']
    simp
  refine ⟨huser, hproject, hsections, (hload _).mpr fun k => ?_⟩
  rcases k with k | k | k <;> cases k
  case graph.uri =>
    refine Key.takes_text ?_ (.text (.text "bolt")) ?_
    · decide +kernel
    · rfl
  case graph.password =>
    refine Key.takes_text ?_ (.text (.text "kept")) ?_
    · decide +kernel
    · rfl
  case graph.user =>
    rw [hother _ (by simp [Key.path, Key.owner, Key.name, Section.name, GraphKey.name])]
    exact ⟨"ann", .text (.text "ann"), rfl⟩
  all_goals
    rw [hother _ (by simp [Key.path, Key.owner, Key.name, Section.name, GraphKey.name])]
    rfl

end CodeAtlas.Config
