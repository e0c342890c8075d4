import Mathlib.Data.List.Sort
import CodeAtlas.Files.Discovery
import CodeAtlas.Proofs.Files.Component

/-!
# What a walk comes upon

A walk that enters every directory comes upon files, each with some directories around it.  A walk that does
not enter some of the directories comes upon the files of which none of the directories around is one of
these, in the same order.

The walk sorts what it has found in the entries of a directory by the names of the entries.  This is the same as to
sort the entries and to go through them one by one, and it is in this form that walks are reasoned about.

## Main definitions

* `CodeAtlas.Files.Sighting` — a file that a walk comes upon, by the names on the way to it.
* `CodeAtlas.Files.sight`, `CodeAtlas.Files.sightAll` — all the files that a walk comes upon.

## Main results

* `CodeAtlas.Files.walkAll_eq_flatMap`, `CodeAtlas.Files.sightAll_eq_flatMap` — a walk goes through sorted entries.
* `CodeAtlas.Files.walkAll_eq_map_path` — a walk comes upon the files that are not below a pruned directory.
* `CodeAtlas.Files.Sighting.exists_relative_path_eq` — the path of a file leads through the directories around it.
-/

namespace CodeAtlas.Files

/-- **Induction over trees.**  What holds of files and links, and of a directory if it holds of its entries, holds of
every entry. -/
@[elab_as_elim]
theorem Entry.induct {P : Entry → Prop} (file : ∀ content, P (.file content)) (link : ∀ target, P (.link target))
    (directory : ∀ entries : List (Name × Entry), (∀ entry ∈ entries, P entry.2) → P (.directory entries))
    (e : Entry) : P e :=
  Entry.rec file link directory
    (fun _ h => absurd h List.not_mem_nil)
    (fun _ _ hhead htail => List.forall_mem_cons.mpr ⟨hhead, htail⟩)
    (fun _ _ h => h) e

/-! ## Sightings -/

/-- A file that a walk comes upon. -/
structure Sighting where
  /-- The names of the directories around it, outermost first. -/
  within : List Name
  /-- Its own name. -/
  name : Name

namespace Sighting

/-- The names on the way to the file. -/
def names (s : Sighting) : List String := (s.within ++ [s.name]).map Subtype.val

/-- The path of the file, when the walk is below `root`. -/
def path (root : String) (s : Sighting) : String := Path.along root s.names

/-- The paths of some directories, each of which is in the one before. -/
def pathsFrom (root : String) : List Name → List String
  | [] => []
  | d :: rest => Path.join root d :: pathsFrom (Path.join root d) rest

/-- The paths of the directories around the file, outermost first. -/
def directories (root : String) (s : Sighting) : List String := pathsFrom root s.within

/-- No directory around the file is pruned. -/
def spared (prune : String → Bool) (root : String) (s : Sighting) : Bool :=
  (s.directories root).all fun d => !prune d

/-- The file is in one more directory. -/
def enclose (directory : Name) (s : Sighting) : Sighting := { s with within := directory :: s.within }

@[simp]
lemma names_enclose (directory : Name) (s : Sighting) :
    (s.enclose directory).names = directory.val :: s.names := rfl

@[simp]
lemma path_enclose (root : String) (directory : Name) (s : Sighting) :
    (s.enclose directory).path root = s.path (Path.join root directory) := rfl

@[simp]
lemma spared_enclose (prune : String → Bool) (root : String) (directory : Name) (s : Sighting) :
    (s.enclose directory).spared prune root =
      (!prune (Path.join root directory) && s.spared prune (Path.join root directory)) := rfl

/-- The names on the way are names that entries can have. -/
lemma isName_of_mem_names {s : Sighting} {n : String} (h : n ∈ s.names) : Path.IsName n := by
  obtain ⟨m, -, rfl⟩ := List.mem_map.mp h
  exact m.property

/-- There is at least the name of the file. -/
lemma names_ne_nil (s : Sighting) : s.names ≠ [] := by
  simp [names]

/-- What the root of the walk sees of a file is made of the names on the way. -/
lemma relative_path {root : String} (hroot : root ≠ "") (s : Sighting) :
    Path.relative root (s.path root) = Path.ofNames s.names :=
  Path.relative_along hroot s.names_ne_nil fun _ => isName_of_mem_names

/-- Each of the directories is reached along the first of the names. -/
lemma exists_of_mem_pathsFrom {root d : String} {names : List Name} (h : d ∈ pathsFrom root names) :
    ∃ front back, names = front ++ back ∧ front ≠ [] ∧ d = Path.along root (front.map Subtype.val) := by
  induction names generalizing root with
  | nil => exact absurd h List.not_mem_nil
  | cons n rest ih =>
    rcases List.mem_cons.mp h with rfl | h
    · exact ⟨[n], rest, rfl, List.cons_ne_nil _ _, rfl⟩
    · obtain ⟨front, back, rfl, -, rfl⟩ := ih h
      exact ⟨n :: front, back, rfl, List.cons_ne_nil _ _, rfl⟩

/-- **The path of a file leads through the directories around it**, as the root of the walk sees them.

**Proof sketch.** A directory is reached along some of the names on the way to the file, and the others are left.  Seen
from the root, the directory is the path made of the former and the file is the path made of all of them. -/
theorem exists_relative_path_eq {root : String} (hroot : root ≠ "") {s : Sighting} {d : String}
    (h : d ∈ s.directories root) :
    ∃ rest, Path.relative root (s.path root) = Path.relative root d ++ "/" ++ rest := by
  obtain ⟨front, back, hwithin, hne, rfl⟩ := exists_of_mem_pathsFrom h
  have hnames : s.names = front.map Subtype.val ++ (back ++ [s.name]).map Subtype.val := by
    rw [names, hwithin, List.append_assoc, List.map_append]
  have hfront : front.map Subtype.val ≠ [] := mt List.map_eq_nil_iff.mp hne
  refine ⟨Path.ofNames ((back ++ [s.name]).map Subtype.val), ?_⟩
  rw [relative_path hroot, hnames, Path.ofNames_append hfront (by simp), Path.relative_along hroot hfront]
  intro n hn
  obtain ⟨m, -, rfl⟩ := List.mem_map.mp hn
  exact m.property

end Sighting

mutual

/-- The files that a walk comes upon in an entry, when it enters every directory that is not passed
over. -/
def sight (root : Entry) (compare : String → String → Ordering) (scope : Ignore.Scope) (place : List String)
    (name : Name) : Entry → List Sighting
  | .link _ => []
  | .file _ => if Ignore.skips scope name false then [] else [⟨[], name⟩]
  | .directory entries =>
    if Ignore.skips scope name true then []
    else
      let place := place ++ [name.val]
      ((inOrder compare (sightEach root compare (scope.enter name (.read root place)) place entries)).flatMap
        Prod.snd).map (Sighting.enclose name)

/-- The files that a walk comes upon in each of some entries. -/
def sightEach (root : Entry) (compare : String → String → Ordering) (scope : Ignore.Scope) (place : List String) :
    List (Name × Entry) → List (Name × List Sighting)
  | [] => []
  | (name, e) :: rest =>
    (name, sight root compare scope place name e) :: sightEach root compare scope place rest

end

/-- The files that a walk comes upon below a directory. -/
def sightAll (root : Entry) (compare : String → String → Ordering) (scope : Ignore.Scope) (place : List String)
    (entries : List (Name × Entry)) : List Sighting :=
  (inOrder compare (sightEach root compare scope place entries)).flatMap Prod.snd

/-! ## Sorted entries -/

section InOrder

variable {α β : Type} {compare : String → String → Ordering}

/-- Sorting loses nothing. -/
lemma mem_inOrder {siblings : List (Name × α)} {a : Name × α} : a ∈ inOrder compare siblings ↔ a ∈ siblings :=
  List.mem_mergeSort

/-- What siblings hold does not matter for their order. -/
lemma inOrder_map (f : Name × α → β) (siblings : List (Name × α)) :
    inOrder compare (siblings.map fun a => (a.1, f a)) = (inOrder compare siblings).map fun a => (a.1, f a) := by
  unfold inOrder
  rw [List.map_mergeSort]
  intro a _ b _
  rfl

/-- Results for each of some siblings, in order. -/
lemma flatMap_inOrder_map (f : Name × α → List β) (siblings : List (Name × α)) :
    (inOrder compare (siblings.map fun a => (a.1, f a))).flatMap Prod.snd =
      (inOrder compare siblings).flatMap f := by
  rw [inOrder_map, List.flatMap_map]

end InOrder

/-- A walk treats the entries of a directory alike. -/
lemma walkEach_eq_map (root : Entry) (w : Walker) (scope : Ignore.Scope) (place : List String) (parent : String)
    (entries : List (Name × Entry)) :
    walkEach root w scope place parent entries =
      entries.map fun entry => (entry.1, walk root w scope place parent entry.1 entry.2) := by
  induction entries with
  | nil => rfl
  | cons entry rest ih => rw [walkEach, ih, List.map_cons]

/-- So it does when it enters every directory. -/
lemma sightEach_eq_map (root : Entry) (compare : String → String → Ordering) (scope : Ignore.Scope)
    (place : List String) (entries : List (Name × Entry)) :
    sightEach root compare scope place entries =
      entries.map fun entry => (entry.1, sight root compare scope place entry.1 entry.2) := by
  induction entries with
  | nil => rfl
  | cons entry rest ih => rw [sightEach, ih, List.map_cons]

/-- **A walk goes through the sorted entries of a directory.** -/
theorem walkAll_eq_flatMap (root : Entry) (w : Walker) (scope : Ignore.Scope) (place : List String) (parent : String)
    (entries : List (Name × Entry)) :
    walkAll root w scope place parent entries =
      (inOrder w.compare entries).flatMap fun entry => walk root w scope place parent entry.1 entry.2 := by
  rw [walkAll, walkEach_eq_map, flatMap_inOrder_map]

/-- **So it does when it enters every directory.** -/
theorem sightAll_eq_flatMap (root : Entry) (compare : String → String → Ordering) (scope : Ignore.Scope)
    (place : List String) (entries : List (Name × Entry)) :
    sightAll root compare scope place entries =
      (inOrder compare entries).flatMap fun entry => sight root compare scope place entry.1 entry.2 := by
  rw [sightAll, sightEach_eq_map, flatMap_inOrder_map]

/-! ## Walks that prune -/

/-- Sightings in a directory are spared if the directory is and they are. -/
lemma filter_spared_map_enclose (prune : String → Bool) (root : String) (directory : Name) (l : List Sighting) :
    ((l.map (Sighting.enclose directory)).filter (·.spared prune root)).map (Sighting.path root) =
      if prune (Path.join root directory) then []
      else (l.filter (·.spared prune (Path.join root directory))).map
        (Sighting.path (Path.join root directory)) := by
  induction l with
  | nil => simp
  | cons s rest ih =>
    rw [List.map_cons, List.filter_cons, Sighting.spared_enclose]
    cases hd : prune (Path.join root directory) <;> cases hs : s.spared prune (Path.join root directory) <;>
      simp [hd, hs, ih]

/-- If it is so of each entry, a walk below a directory comes upon the files that are not below a pruned one. -/
lemma walkAll_eq_map_path_of_forall (root : Entry) (w : Walker) (scope : Ignore.Scope) (place : List String)
    (parent : String) {entries : List (Name × Entry)}
    (h : ∀ entry ∈ entries, walk root w scope place parent entry.1 entry.2 =
      ((sight root w.compare scope place entry.1 entry.2).filter (·.spared w.prunes parent)).map
        (Sighting.path parent)) :
    walkAll root w scope place parent entries =
      ((sightAll root w.compare scope place entries).filter (·.spared w.prunes parent)).map
        (Sighting.path parent) := by
  rw [walkAll_eq_flatMap, sightAll_eq_flatMap, List.filter_flatMap, List.map_flatMap]
  exact List.flatMap_congr fun entry hentry => h entry (mem_inOrder.mp hentry)

/-- **A walk comes upon the files of an entry that are not below a pruned directory.**

**Proof sketch.** Induction over the tree.  A directory that is passed over or pruned yields nothing either way.  In any
other one the sightings of the entries get one more directory around them, which is spared. -/
theorem walk_eq_map_path (root : Entry) (w : Walker) (e : Entry) (scope : Ignore.Scope) (place : List String)
    (parent : String) (name : Name) :
    walk root w scope place parent name e =
      ((sight root w.compare scope place name e).filter (·.spared w.prunes parent)).map
        (Sighting.path parent) := by
  induction e using Entry.induct generalizing scope place parent name with
  | link target => rfl
  | file content =>
    rw [walk, sight]
    split
    · rfl
    · rfl
  | directory entries ih =>
    rw [walk, sight]
    cases Ignore.skips scope name true
    · have hentries := walkAll_eq_map_path_of_forall root w (scope.enter name (.read root (place ++ [name.val])))
        (place ++ [name.val]) (Path.join parent name) fun entry hentry => ih entry hentry _ _ _ entry.1
      rw [Bool.false_or, if_neg Bool.false_ne_true, filter_spared_map_enclose]
      dsimp only
      rw [← walkAll, hentries, sightAll]
    · rfl

/-- **A walk below a directory comes upon the files that are not below a pruned one.** -/
theorem walkAll_eq_map_path (root : Entry) (w : Walker) (scope : Ignore.Scope) (place : List String)
    (parent : String) (entries : List (Name × Entry)) :
    walkAll root w scope place parent entries =
      ((sightAll root w.compare scope place entries).filter (·.spared w.prunes parent)).map
        (Sighting.path parent) :=
  walkAll_eq_map_path_of_forall root w scope place parent fun entry _ =>
    walk_eq_map_path root w entry.2 scope place parent entry.1

end CodeAtlas.Files
