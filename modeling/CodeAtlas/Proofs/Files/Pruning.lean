import CodeAtlas.Config.Settings
import CodeAtlas.Proofs.Files.Sighting
import CodeAtlas.Proofs.Glob.Below
import CodeAtlas.Proofs.Text.Order

/-!
# What pruning costs

A search does not enter a directory if the exclude patterns match one particular path below it.  It finds
what a search that enters every directory finds, less the files below such directories.  So nothing is
lost exactly if no file that would be listed lies below one of them.  That is so for exclude patterns that
end in two stars, such as the default ones, and not for all others.

## Main definitions

* `CodeAtlas.Files.discoverWith` — a search with another rule for the directories that are not entered.
* `CodeAtlas.Files.sightings` — what the walk of a search comes upon.

## Main results

* `CodeAtlas.Files.Filter.admits_below_of_prunes` — with open-ended exclude patterns nothing below a pruned
  directory is admitted.
* `CodeAtlas.Files.discover_less_pruned` — what a search finds, and when it loses nothing.
* `CodeAtlas.Files.discover_loses_admitted_file` — a file that is lost.
-/

namespace CodeAtlas.Files

/-! ## Filters -/

namespace Filter

/-- The patterns of texts that end in two stars are open-ended. -/
lemma openEnded_of_compile {texts : List String} (htexts : ∀ text ∈ texts, Glob.EndsInStars text.toList)
    {patterns : List Glob.Pattern} (h : compile texts = .ok patterns) :
    ∀ p ∈ patterns, Glob.OpenEnded p.tokens := by
  induction texts generalizing patterns with
  | nil =>
    obtain rfl : [] = patterns := Except.ok.inj h
    exact fun p hp => absurd hp List.not_mem_nil
  | cons text rest ih =>
    obtain ⟨htext, hrest⟩ := List.forall_mem_cons.mp htexts
    rw [compile] at h
    split at h
    · simp at h
    · next p hp =>
      split at h
      · simp at h
      · next ps hps =>
        rw [← Except.ok.inj h]
        exact List.forall_mem_cons.mpr ⟨Glob.Pattern.openEnded_of_ofString htext hp, ih hrest hps⟩

/-- The exclude patterns of a filter are those of the given texts. -/
lemma compile_of_ofPatterns {includes excludes : List String} {filter : Filter}
    (h : ofPatterns includes excludes = .ok filter) : compile excludes = .ok filter.excluded := by
  have hbind : ∀ x : Except Failure (Option (List Glob.Pattern)),
      (x >>= fun included => compile excludes >>= fun excluded => pure ⟨included, excluded⟩) =
        Except.ok filter → compile excludes = .ok filter.excluded := by
    intro x hx
    cases x with
    | error f => simp [bind, Except.bind] at hx
    | ok included =>
      cases hcompile : compile excludes with
      | error f => simp [bind, Except.bind, hcompile] at hx
      | ok excluded =>
        simp only [bind, Except.bind, hcompile, pure, Except.pure, Except.ok.injEq] at hx
        rw [← hx]
  unfold ofPatterns at h
  split at h
  · exact hbind _ h
  · exact hbind _ h

/-- **With open-ended exclude patterns nothing below a pruned directory is admitted.**

**Proof sketch.** One of the patterns matches the path that is tried below the directory.  In bytes, this path is
the directory, a separator and one more byte; so the pattern, being open-ended, matches every path below the
directory, and what an exclude pattern matches is not admitted. -/
theorem admits_below_of_prunes {filter : Filter}
    (hopen : ∀ p ∈ filter.excluded, Glob.OpenEnded p.tokens) {directory : String}
    (h : filter.prunes directory = true) (rest : String) :
    filter.admits (directory ++ "/" ++ rest) = false := by
  have hprobe : Text.Utf8.encode (directory ++ "/_") =
      Text.Utf8.encode directory ++ [Glob.separator, 0x5F] := by
    rw [Text.Utf8.encode_append, Text.Utf8.encode_eq_flatMap "/_"]
    rfl
  have hpath : Text.Utf8.encode (directory ++ "/" ++ rest) =
      Text.Utf8.encode directory ++ Glob.separator :: Text.Utf8.encode rest := by
    rw [Text.Utf8.encode_append, Text.Utf8.encode_append, Text.Utf8.encode_eq_flatMap "/",
      List.append_assoc]
    rfl
  obtain ⟨p, hp, hmatch⟩ := List.any_eq_true.mp h
  rw [hprobe] at hmatch
  have hbelow := Glob.Pattern.isMatch_below (hopen p hp) (by decide) hmatch (Text.Utf8.encode rest)
  have hexcluded : anyMatch filter.excluded (directory ++ "/" ++ rest) = true := by
    rw [anyMatch, hpath]
    exact List.any_eq_true.mpr ⟨p, hp, hbelow⟩
  rw [admits, hexcluded]
  rfl

end Filter

/-! ## Searches -/

/-- The search of `discover` with another rule for the directories that are not entered. -/
def discoverWith (prune : String → Bool) (tree : Entry) (base : List String) (root : String)
    (filter : Filter) : Except Failure (List Found) :=
  match tree.resolve? base root with
  | some (place, .directory entries) =>
    .ok ((walkAll tree ⟨compareNames, prune⟩ (scopeAt tree place) place root entries).filterMap
      (found? filter root))
  | _ => .error (.validation s!"root {root} is not a directory")

/-- The files that a walk below the directory `root` comes upon when it enters every directory that is
not passed over. -/
def sightings (tree : Entry) (base : List String) (root : String) : Except Failure (List Sighting) :=
  match tree.resolve? base root with
  | some (place, .directory entries) => .ok (sightAll tree compareNames (scopeAt tree place) place entries)
  | _ => .error (.validation s!"root {root} is not a directory")

/-- **A search finds the source files among the spared sightings.** -/
theorem discoverWith_eq (prune : String → Bool) (tree : Entry) (base : List String) (root : String)
    (filter : Filter) :
    discoverWith prune tree base root filter = (sightings tree base root).map fun l =>
      (l.filter (·.spared prune root)).filterMap fun s => found? filter root (s.path root) := by
  unfold discoverWith sightings
  split
  · rw [walkAll_eq_map_path, List.filterMap_map]
    rfl
  · rfl

/-- So does the search that prunes by its exclude patterns. -/
lemma discover_eq (tree : Entry) (base : List String) (root : String) (filter : Filter) :
    discover tree base root filter = (sightings tree base root).map fun l =>
      (l.filter (·.spared (filter.prunesBelow root) root)).filterMap fun s =>
        found? filter root (s.path root) :=
  discoverWith_eq (filter.prunesBelow root) tree base root filter

/-- A search that enters every directory finds all source files. -/
lemma discoverWith_all (tree : Entry) (base : List String) (root : String) (filter : Filter) :
    discoverWith (fun _ => false) tree base root filter = (sightings tree base root).map fun l =>
      l.filterMap fun s => found? filter root (s.path root) := by
  have hspared : ∀ l : List Sighting, l.filter (·.spared (fun _ => false) root) = l := fun l =>
    List.filter_eq_self.mpr fun s _ => by simp [Sighting.spared]
  simp only [discoverWith_eq, hspared]

/-- The root of a search has a path. -/
lemma ne_empty_of_sightings {tree : Entry} {base : List String} {root : String} {l : List Sighting}
    (hl : sightings tree base root = .ok l) : root ≠ "" := by
  rintro rfl
  simp [sightings, Entry.resolve?] at hl

/-- No file is found at a path that is not admitted. -/
lemma found?_of_not_admits {filter : Filter} {root path : String}
    (h : filter.admits (Path.relative root path) = false) : found? filter root path = none := by
  unfold found?
  dsimp only
  rw [h]
  split
  · rfl
  · rfl

/-- A selection loses nothing exactly if everything that counts is selected.

**Proof sketch.** Induction on the list.  If the first item counts and is not selected, one item is missing, and no
selection from the rest can make up for it: the lengths differ.  In all other cases the two sides agree on it. -/
lemma filterMap_filter_eq_iff {α β : Type} (p : α → Bool) (g : α → Option β) (l : List α) :
    (l.filter p).filterMap g = l.filterMap g ↔ ∀ a ∈ l, (g a).isSome = true → p a = true := by
  induction l with
  | nil => simp
  | cons a rest ih =>
    have hsub : ((rest.filter p).filterMap g).length ≤ (rest.filterMap g).length :=
      (List.filter_sublist.filterMap g).length_le
    rw [List.forall_mem_cons, ← ih, List.filter_cons]
    cases hp : p a <;> cases hg : g a
    · simp [hg]
    -- something that counts is not selected, and the lengths differ
    · refine iff_of_false (fun heq => ?_) (by simp)
      have hlength := congrArg List.length heq
      simp only [Bool.false_eq_true, if_false, List.filterMap_cons, hg, List.length_cons] at hlength
      omega
    · simp [hg]
    · simp [hg]

/-- **Pruning loses nothing exactly if no source file lies below a pruned directory.** -/
theorem discover_eq_discoverWith_all_iff (tree : Entry) (base : List String) (root : String)
    (filter : Filter) :
    discover tree base root filter = discoverWith (fun _ => false) tree base root filter ↔
      ∀ l, sightings tree base root = .ok l → ∀ s ∈ l, (found? filter root (s.path root)).isSome = true →
        ∀ d ∈ s.directories root, filter.prunesBelow root d = false := by
  rw [discover_eq, discoverWith_all]
  cases sightings tree base root with
  | error f => simp [Except.map]
  | ok l =>
    simp only [Except.map, Except.ok.injEq, forall_eq', filterMap_filter_eq_iff, Sighting.spared,
      List.all_eq_true, Bool.not_eq_true']

/-- **What a search finds, and when it loses nothing.**  A search that enters every directory lists the
source files among its sightings.  A search with exclude patterns lists those of them, in the same order,
that do not lie below a pruned directory.  The two are the same exactly if no file that the filter admits
and whose language is known lies below a pruned directory.  If every exclude pattern ends in two stars that
fill a component, then no path below a pruned directory is admitted, and nothing is lost in any tree.

**Proof sketch.** Both searches are read off the sightings, so they agree exactly if every source file among these is
spared.  An exclude pattern that ends in two stars matches all paths below a directory if it matches one of them; and
the path of a file leads, seen from the root, through each of the directories around it. -/
theorem discover_less_pruned (tree : Entry) (base : List String) (root : String)
    {includes excludes : List String} {filter : Filter}
    (hfilter : Filter.ofPatterns includes excludes = .ok filter) :
    discoverWith (fun _ => false) tree base root filter =
        (sightings tree base root).map (fun l => l.filterMap fun s => found? filter root (s.path root)) ∧
      discover tree base root filter = (sightings tree base root).map (fun l =>
        (l.filter (·.spared (filter.prunesBelow root) root)).filterMap fun s =>
          found? filter root (s.path root)) ∧
      (discover tree base root filter = discoverWith (fun _ => false) tree base root filter ↔
        ∀ l, sightings tree base root = .ok l → ∀ s ∈ l, (found? filter root (s.path root)).isSome = true →
          ∀ d ∈ s.directories root, filter.prunesBelow root d = false) ∧
      ((∀ text ∈ excludes, Glob.EndsInStars text.toList) →
        (∀ d rest, filter.prunes d = true → filter.admits (d ++ "/" ++ rest) = false) ∧
          discover tree base root filter = discoverWith (fun _ => false) tree base root filter) := by
  have hall := discoverWith_all tree base root filter
  have hpruned := discover_eq tree base root filter
  have hiff := discover_eq_discoverWith_all_iff tree base root filter
  refine ⟨hall, hpruned, hiff, fun hexcludes => ?_⟩
  have hopen := Filter.openEnded_of_compile hexcludes (Filter.compile_of_ofPatterns hfilter)
  have hbelow : ∀ d rest, filter.prunes d = true → filter.admits (d ++ "/" ++ rest) = false :=
    fun d rest hd => Filter.admits_below_of_prunes hopen hd rest
  refine ⟨hbelow, hiff.mpr fun l hl s hs hfound d hd => ?_⟩
  obtain ⟨rest, hrest⟩ := Sighting.exists_relative_path_eq (ne_empty_of_sightings hl) hd
  cases hprunes : filter.prunesBelow root d
  · rfl
  · have hadmits := hbelow _ rest hprunes
    rw [← hrest] at hadmits
    rw [found?_of_not_admits hadmits] at hfound
    exact absurd hfound Bool.false_ne_true

/-- The default exclude patterns end in two stars, and below a directory that they prune is a source
file. -/
theorem discover_less_pruned_default_excludes :
    ∃ filter, Filter.ofPatterns [] Config.defaultExcludes = .ok filter ∧
      (∀ text ∈ Config.defaultExcludes, Glob.EndsInStars text.toList) ∧
      let tree : Entry := .directory
        [(⟨"node_modules", by decide⟩, .directory [(⟨"index.js", by decide⟩, .file ⟨[0x78], none⟩)]),
          (⟨"src", by decide⟩, .directory [(⟨"main.rs", by decide⟩, .file ⟨[0x78], none⟩)])]
      discover tree [] "." filter = discoverWith (fun _ => false) tree [] "." filter := by
  have hfilter : ∃ filter, Filter.ofPatterns [] Config.defaultExcludes = .ok filter := ⟨_, rfl⟩
  have hstars : ∀ text ∈ Config.defaultExcludes, Glob.EndsInStars text.toList := by decide
  obtain ⟨filter, hfilter⟩ := hfilter
  refine ⟨filter, hfilter, hstars, ?_⟩
  intro tree
  exact ((discover_less_pruned tree [] "." hfilter).2.2.2 hstars).2

/-! ## A file that is lost -/

/-- A way that begins with a name that is not there leads nowhere. -/
lemma Entry.follow_of_at?_eq_none {root : Entry} {here : List String} {n : String}
    (h : root.at? (n :: here).reverse = none) (links : Nat) (rest : List Path.Component) :
    root.follow links here (.name n :: rest) = none := by
  rw [follow, h]

/-- A directory without ignore files has no rules. -/
lemma read_eq_empty {tree : Entry} {place : List String}
    (h : ∀ name ∈ [".ignore", ".gitignore", ".git"], tree.at? (place ++ [name]) = none) :
    Ignore.Rules.read tree place = {} := by
  have hread : ∀ (n : String) (rest : List Path.Component) (path : String), path.isEmpty = false →
      Path.components path = .name n :: rest → tree.at? (place ++ [n]) = none →
      tree.read? place path = none := by
    intro n rest path hpath hcomponents hn
    have hat : tree.at? (n :: place.reverse).reverse = none := by simpa using hn
    rw [Entry.read?, Entry.resolve?, hpath, if_neg Bool.false_ne_true, hcomponents,
      Entry.follow_of_at?_eq_none hat]
  rw [Ignore.Rules.read]
  dsimp only
  rw [hread ".ignore" [] ".ignore" (by decide) rfl (h _ (by simp)),
    hread ".gitignore" [] ".gitignore" (by decide) rfl (h _ (by simp)),
    hread ".git" [.name "info", .name "exclude"] ".git/info/exclude" (by decide) rfl (h _ (by simp))]

/-- A tree with a single file. -/
def singleSource : Entry :=
  .directory [(⟨"src", by decide⟩, .directory [(⟨"main.rs", by decide⟩, .file ⟨[0x78], none⟩)])]

/-- The filter that excludes what has a name of a single byte in the directory of the sources. -/
def oneLetterNames : Filter :=
  { excluded := [⟨.plain, [.literal 's', .literal 'r', .literal 'c', .literal '/', .any]⟩] }

/-- A walk comes upon the single file. -/
lemma sightings_singleSource :
    sightings singleSource [] "." = .ok [⟨[⟨"src", by decide⟩], ⟨"main.rs", by decide⟩⟩] := by
  have hresolve : singleSource.resolve? [] "." = some ([], singleSource) := by
    have hcomponents : Path.components "." = [.current] := rfl
    rw [Entry.resolve?, hcomponents, if_neg (by decide), Entry.follow, Entry.follow]
    rfl
  have htop : Ignore.Rules.read singleSource [] = {} := read_eq_empty (by decide)
  have hsrc : Ignore.Rules.read singleSource ["src"] = {} := read_eq_empty (by decide)
  rw [sightings, hresolve, singleSource]
  dsimp only
  rw [← singleSource, scopeAt, descend, htop]
  simp only [sightAll, sightEach, sight, inOrder, List.mergeSort_singleton, List.flatMap_singleton,
    List.nil_append, hsrc]
  rfl

/-- **Pruning can lose a file that the filter admits.**  The pattern matches the one path that is tried
below the directory, and not the path of the file in it. -/
theorem discover_loses_admitted_file :
    Filter.ofPatterns [] ["src/?"] = .ok oneLetterNames ∧
      oneLetterNames.prunes "src" = true ∧ oneLetterNames.admits "src/main.rs" = true ∧
      discover singleSource [] "." oneLetterNames = .ok [] ∧
      discoverWith (fun _ => false) singleSource [] "." oneLetterNames =
        .ok [⟨"./src/main.rs", "src/main.rs", ⟨.rust, .rust⟩⟩] := by
  have hprunes : oneLetterNames.prunes "src" = true := by decide +kernel
  have hadmits : oneLetterNames.admits "src/main.rs" = true := by decide +kernel
  have hbelow : oneLetterNames.prunesBelow "." "./src" = true := by decide +kernel
  have hfound : found? oneLetterNames "." "./src/main.rs" =
      some ⟨"./src/main.rs", "src/main.rs", ⟨.rust, .rust⟩⟩ := by decide +kernel
  have hdirectories : Sighting.directories "." ⟨[⟨"src", by decide⟩], ⟨"main.rs", by decide⟩⟩ = ["./src"] := by
    decide +kernel
  have hpath : Sighting.path "." ⟨[⟨"src", by decide⟩], ⟨"main.rs", by decide⟩⟩ = "./src/main.rs" := by
    decide +kernel
  refine ⟨rfl, hprunes, hadmits, ?_, ?_⟩
  · rw [discover_eq, sightings_singleSource]
    simp [Except.map, Sighting.spared, hdirectories, hbelow]
  · rw [discoverWith_all, sightings_singleSource]
    simp [Except.map, hpath, hfound]

end CodeAtlas.Files
