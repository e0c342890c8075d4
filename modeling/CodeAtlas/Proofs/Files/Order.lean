import CodeAtlas.Proofs.Files.Component
import CodeAtlas.Proofs.Files.Pruning
import CodeAtlas.Proofs.Text.Order

/-!
# The order of the files that are found

A walk sorts the entries of each directory by the bytes of their names.  If no two of them have the same name, then
what it comes upon is in the order that compares the names on the way one by one; in particular it comes upon nothing
twice.  The paths of the files, seen from the root of the search, are made of these names, so they are in the same
order and no two of them are the same.

The order is not that of the paths as texts, in which a separator comes after some characters that a name can have.

## Main definitions

* `CodeAtlas.Files.Entry.Distinct` — no two entries of a directory have the same name.
* `CodeAtlas.Files.Path.partBytes` — the parts of a path, as bytes.
* `CodeAtlas.Files.Found.Sound` — what a file that was found says of itself is right.

## Main results

* `CodeAtlas.Files.Entry.Distinct.put` — trees that are built are such.
* `CodeAtlas.Files.pairwise_inOrder` — sorted entries are in order.
* `CodeAtlas.Files.pairwise_sightAll` — a walk comes upon files in the order of the names on the way.
* `CodeAtlas.Files.discover_in_component_order` — the order and the identity of the files that are found.
-/

namespace CodeAtlas.Files

namespace Entry

/-! ## Trees -/

/-- **No two entries of a directory have the same name.** -/
inductive Distinct : Entry → Prop
  /-- A file has no entries. -/
  | file (content : Entity.Source) : Distinct (.file content)
  /-- Neither has a link. -/
  | link (target : String) : Distinct (.link target)
  /-- A directory whose entries have different names, as have those in them. -/
  | directory {entries : List (Name × Entry)} (names : (entries.map Prod.fst).Nodup)
      (all : ∀ entry ∈ entries, Distinct entry.2) : Distinct (.directory entries)

/-- What is under a name is one of the entries. -/
lemma mem_of_child? {e : Entry} {name : String} {c : Entry} (h : e.child? name = some c) :
    ∃ n : Name, n.val = name ∧ (n, c) ∈ e.entries := by
  obtain ⟨entry, hfind, rfl⟩ := Option.map_eq_some_iff.mp h
  exact ⟨entry.1, by simpa using List.find?_some hfind, List.mem_of_find?_eq_some hfind⟩

/-- The entries after one has been put under a name. -/
lemma eq_or_mem_of_mem_replace {name : Name} {new : Entry} {entries : List (Name × Entry)} {entry : Name × Entry}
    (h : entry ∈ replace name new entries) : entry = (name, new) ∨ entry ∈ entries := by
  induction entries with
  | nil => exact Or.inl (List.mem_singleton.mp h)
  | cons d rest ih =>
    rw [replace] at h
    split_ifs at h
    · rcases List.mem_cons.mp h with h | h
      · exact Or.inl h
      · exact Or.inr (List.mem_cons_of_mem _ h)
    · rcases List.mem_cons.mp h with h | h
      · exact Or.inr (h ▸ List.mem_cons_self)
      · exact (ih h).imp_right (List.mem_cons_of_mem _)

/-- Their names are still different. -/
lemma nodup_replace (name : Name) (new : Entry) {entries : List (Name × Entry)}
    (h : (entries.map Prod.fst).Nodup) : ((replace name new entries).map Prod.fst).Nodup := by
  induction entries with
  | nil => simp [replace]
  | cons d rest ih =>
    obtain ⟨hhead, htail⟩ := List.nodup_cons.mp h
    rw [replace]
    split_ifs with hname
    · exact List.nodup_cons.mpr ⟨hname ▸ hhead, htail⟩
    · refine List.nodup_cons.mpr ⟨fun hmem => ?_, ih htail⟩
      obtain ⟨entry, hentry, heq⟩ := List.mem_map.mp hmem
      rcases eq_or_mem_of_mem_replace hentry with rfl | hentry
      · exact hname heq.symm
      · exact hhead (List.mem_map.mpr ⟨entry, hentry, heq⟩)

namespace Distinct

/-- The entries have different names. -/
lemma nodup_names {e : Entry} (h : e.Distinct) : (e.entries.map Prod.fst).Nodup := by
  cases h with
  | file content => exact List.nodup_nil
  | link target => exact List.nodup_nil
  | directory names all => exact names

/-- So have those of each of them. -/
lemma of_mem {e : Entry} (h : e.Distinct) {entry : Name × Entry} (hmem : entry ∈ e.entries) : entry.2.Distinct := by
  cases h with
  | file content => exact absurd hmem List.not_mem_nil
  | link target => exact absurd hmem List.not_mem_nil
  | directory names all => exact all entry hmem

/-- An entry is under its name. -/
lemma child?_of_mem {e : Entry} (h : e.Distinct) {n : Name} {c : Entry} (hmem : (n, c) ∈ e.entries) :
    e.child? n.val = some c := by
  have hnames := h.nodup_names
  rw [Entry.child?]
  generalize e.entries = entries at hmem hnames ⊢
  induction entries with
  | nil => exact absurd hmem List.not_mem_nil
  | cons entry rest ih =>
    obtain ⟨hhead, htail⟩ := List.nodup_cons.mp hnames
    rcases List.mem_cons.mp hmem with rfl | hmem
    · simp
    · have hne : entry.1.val ≠ n.val := by
        intro heq
        rw [Subtype.ext heq] at hhead
        exact hhead (List.mem_map_of_mem hmem)
      rw [List.find?_cons_of_neg (by simpa using hne)]
      exact ih hmem htail

/-- What is under a name is such a tree. -/
lemma child? {e : Entry} (h : e.Distinct) {name : String} {c : Entry} (hc : e.child? name = some c) :
    c.Distinct := by
  obtain ⟨n, -, hmem⟩ := mem_of_child? hc
  exact h.of_mem hmem

/-- So is what is at a place. -/
lemma at? {place : List String} {e e' : Entry} (h : e.Distinct) (he : e.at? place = some e') : e'.Distinct := by
  induction place generalizing e with
  | nil => exact Option.some.inj he ▸ h
  | cons name rest ih =>
    rw [Entry.at?] at he
    cases hchild : e.child? name with
    | none => simp [hchild] at he
    | some c =>
      rw [hchild] at he
      exact ih (h.child? hchild) he

/-- The tree without entries is such a tree. -/
lemma empty : Entry.empty.Distinct := .directory List.nodup_nil (by simp)

/-- **Putting such a tree at a place of another one** gives such a tree.

**Proof sketch.** Induction on the place.  In each directory on the way one entry is replaced or added, by what the
induction hypothesis says is such a tree, and this gives no name to two entries. -/
theorem put {new : Entry} (hnew : new.Distinct) (place : List String) {e : Entry} (he : e.Distinct) :
    (Entry.put new place e).Distinct := by
  induction place generalizing e with
  | nil => exact hnew
  | cons name rest ih =>
    rw [Entry.put]
    split_ifs with hname
    · have hold : ((e.child? name).getD Entry.empty).Distinct := by
        cases hchild : e.child? name with
        | none => exact empty
        | some c => exact he.child? hchild
      refine .directory (nodup_replace _ _ he.nodup_names) fun entry hentry => ?_
      rcases eq_or_mem_of_mem_replace hentry with rfl | hentry
      · exact ih hold
      · exact he.of_mem hentry
    · exact he

end Distinct

end Entry

/-! ## Sorted entries -/

/-- Names are compared as texts are. -/
lemma isLE_compareNames_iff (a b : String) : (compareNames a b).isLE = true ↔ a ≤ b := by
  unfold compareNames compareOfLessAndEq
  rw [← not_lt, ← Text.Utf8.encode_lt_encode_iff]
  split_ifs with hlt heq
  · simpa using List.lt_asymm hlt
  · simp [heq, List.lt_irrefl]
  · have hgt : Text.Utf8.encode b < Text.Utf8.encode a :=
      ((Std.lt_trichotomy _ _).resolve_left hlt).resolve_left heq
    simpa using hgt

/-- **Sorted entries are in order**, strictly if no two of them have the same name.

**Proof sketch.** A list sorted by a transitive and total comparison is in order.  As a permutation of the given
entries it has no two of the same name, so what is not after is strictly before. -/
theorem pairwise_inOrder {α : Type} {siblings : List (Name × α)} (h : (siblings.map Prod.fst).Nodup) :
    (inOrder compareNames siblings).Pairwise fun a b => a.1.val < b.1.val := by
  have hle : (inOrder compareNames siblings).Pairwise fun a b => (compareNames a.1 b.1).isLE = true := by
    apply List.pairwise_mergeSort
    · intro a b c hab hbc
      rw [isLE_compareNames_iff] at hab hbc ⊢
      exact hab.trans hbc
    · intro a b
      rw [Bool.or_eq_true, isLE_compareNames_iff, isLE_compareNames_iff]
      exact le_total a.1.val b.1.val
  have hne : (inOrder compareNames siblings).Pairwise fun a b => a.1 ≠ b.1 := by
    rw [← List.pairwise_map]
    exact (((List.mergeSort_perm siblings _).map Prod.fst).nodup_iff).mpr h
  refine (hle.and hne).imp fun {a b} hab => ?_
  exact lt_of_le_of_ne ((isLE_compareNames_iff _ _).mp hab.1) fun heq => hab.2 (Subtype.ext heq)

/-! ## Sightings -/

section Sightings

variable {tree : Entry}

/-- What is sighted below a directory is sighted in one of its entries. -/
lemma exists_entry_of_mem_sightAll {compare : String → String → Ordering} {scope : Ignore.Scope}
    {place : List String} {entries : List (Name × Entry)} {s : Sighting}
    (hs : s ∈ sightAll tree compare scope place entries) :
    ∃ entry ∈ entries, s ∈ sight tree compare scope place entry.1 entry.2 := by
  rw [sightAll_eq_flatMap] at hs
  obtain ⟨entry, hentry, hs⟩ := List.mem_flatMap.mp hs
  exact ⟨entry, mem_inOrder.mp hentry, hs⟩

/-- A directory that is not passed over is sighted by its entries. -/
lemma sight_directory (compare : String → String → Ordering) (scope : Ignore.Scope) (place : List String)
    (name : Name) (entries : List (Name × Entry)) :
    sight tree compare scope place name (.directory entries) =
      if Ignore.skips scope name true then []
      else (sightAll tree compare (scope.enter name (.read tree (place ++ [name.val]))) (place ++ [name.val])
        entries).map (Sighting.enclose name) := by
  rw [sight]
  rfl

/-- **What is sighted in an entry is there**: the way to it begins with the name of the entry, and leads to a file.

**Proof sketch.** Induction over the tree.  In a directory the way goes on with the name of one of its entries, which is
under its name because no other entry has it. -/
theorem exists_at?_of_mem_sight {e : Entry} (he : e.Distinct) {compare : String → String → Ordering}
    {scope : Ignore.Scope} {place : List String} {name : Name} {s : Sighting}
    (hs : s ∈ sight tree compare scope place name e) :
    ∃ more content, s.names = name.val :: more ∧ e.at? more = some (.file content) := by
  induction e using Entry.induct generalizing scope place name s with
  | file content =>
    rw [sight] at hs
    split_ifs at hs
    · exact absurd hs List.not_mem_nil
    · obtain rfl := List.mem_singleton.mp hs
      exact ⟨[], content, rfl, rfl⟩
  | link target => exact absurd hs List.not_mem_nil
  | directory entries ih =>
    rw [sight_directory] at hs
    split_ifs at hs
    · exact absurd hs List.not_mem_nil
    · obtain ⟨t, ht, rfl⟩ := List.mem_map.mp hs
      obtain ⟨⟨n, c⟩, hentry, ht⟩ := exists_entry_of_mem_sightAll ht
      obtain ⟨more, content, hnames, hat⟩ := ih _ hentry (he.of_mem hentry) ht
      refine ⟨n.val :: more, content, ?_, ?_⟩
      · rw [Sighting.names_enclose, hnames]
      · rw [Entry.at?, he.child?_of_mem hentry]
        exact hat

/-- What is sighted below a directory is there. -/
lemma exists_at?_of_mem_sightAll {entries : List (Name × Entry)} (h : (Entry.directory entries).Distinct)
    {compare : String → String → Ordering} {scope : Ignore.Scope} {place : List String} {s : Sighting}
    (hs : s ∈ sightAll tree compare scope place entries) :
    ∃ content, (Entry.directory entries).at? s.names = some (.file content) := by
  obtain ⟨⟨n, c⟩, hentry, hs⟩ := exists_entry_of_mem_sightAll hs
  obtain ⟨more, content, hnames, hat⟩ := exists_at?_of_mem_sight (h.of_mem hentry) hs
  refine ⟨content, ?_⟩
  rw [hnames, Entry.at?, h.child?_of_mem hentry]
  exact hat

/-- If it is so in each entry, files are sighted below a directory in the order of the names on the way. -/
lemma pairwise_sightAll_of_forall {entries : List (Name × Entry)} (h : (Entry.directory entries).Distinct)
    (scope : Ignore.Scope) (place : List String)
    (hentries : ∀ entry ∈ entries, (sight tree compareNames scope place entry.1 entry.2).Pairwise
      fun s t => s.names < t.names) :
    (sightAll tree compareNames scope place entries).Pairwise fun s t => s.names < t.names := by
  rw [sightAll_eq_flatMap, List.pairwise_flatMap]
  refine ⟨fun entry hentry => hentries entry (mem_inOrder.mp hentry), ?_⟩
  -- a later entry has a greater name, with which the way to each of its files begins
  refine (pairwise_inOrder h.nodup_names).imp_of_mem fun {a b} ha hb hlt s hs t ht => ?_
  obtain ⟨more, -, hmore, -⟩ := exists_at?_of_mem_sight (h.of_mem (mem_inOrder.mp ha)) hs
  obtain ⟨more', -, hmore', -⟩ := exists_at?_of_mem_sight (h.of_mem (mem_inOrder.mp hb)) ht
  rw [hmore, hmore']
  exact List.cons_lt_cons_iff.mpr (Or.inl hlt)

/-- **Files are sighted in the order of the names on the way**, which are compared one by one.

**Proof sketch.** Induction over the tree.  The ways through one entry of a directory begin with the same name and are
compared by what follows; a way through a later entry begins with a greater name. -/
theorem pairwise_sight {e : Entry} (he : e.Distinct) (scope : Ignore.Scope) (place : List String) (name : Name) :
    (sight tree compareNames scope place name e).Pairwise fun s t => s.names < t.names := by
  induction e using Entry.induct generalizing scope place name with
  | file content =>
    rw [sight]
    split_ifs
    · exact List.Pairwise.nil
    · exact List.pairwise_singleton _ _
  | link target => exact List.Pairwise.nil
  | directory entries ih =>
    rw [sight_directory]
    split_ifs
    · exact List.Pairwise.nil
    · refine List.pairwise_map.mpr (List.Pairwise.imp (R := fun s t => s.names < t.names) ?_ ?_)
      · intro s t hlt
        exact List.cons_lt_cons_iff.mpr (Or.inr ⟨rfl, hlt⟩)
      · exact pairwise_sightAll_of_forall he _ _ fun entry hentry => ih entry hentry (he.of_mem hentry) _ _ entry.1

/-- **So they are below a directory.** -/
theorem pairwise_sightAll {entries : List (Name × Entry)} (h : (Entry.directory entries).Distinct)
    (scope : Ignore.Scope) (place : List String) :
    (sightAll tree compareNames scope place entries).Pairwise fun s t => s.names < t.names := by
  refine pairwise_sightAll_of_forall h scope place fun entry hentry => ?_
  exact pairwise_sight (h.of_mem hentry) scope place entry.1

end Sightings

/-! ## Paths as bytes -/

namespace Path

/-- The parts of a path between its separators, each as its bytes. -/
def partBytes (path : String) : List (List UInt8) :=
  (split '/' path.toList).map fun part => Text.Utf8.encode (String.ofList part)

/-- The parts of a path that is made of names. -/
lemma partBytes_ofNames {names : List String} (hne : names ≠ []) (h : ∀ n ∈ names, IsName n) :
    partBytes (ofNames names) = names.map Text.Utf8.encode := by
  rw [partBytes, split_ofNames hne h, List.map_map]
  refine List.map_congr_left fun n _ => ?_
  rw [Function.comp_apply, String.ofList_toList]

/-- Names are in order as their bytes are. -/
lemma map_encode_lt {names names' : List String} (h : names < names') :
    names.map Text.Utf8.encode < names'.map Text.Utf8.encode := by
  induction names generalizing names' with
  | nil =>
    cases names' with
    | nil => exact absurd h (List.lt_irrefl [])
    | cons n' rest' => exact List.nil_lt_cons _ _
  | cons n rest ih =>
    cases names' with
    | nil => exact absurd h (List.not_lt_nil _)
    | cons n' rest' =>
      rw [List.map_cons, List.map_cons, List.cons_lt_cons_iff]
      rcases List.cons_lt_cons_iff.mp h with hlt | ⟨rfl, hlt⟩
      · exact Or.inl ((Text.Utf8.encode_lt_encode_iff n n').mpr hlt)
      · exact Or.inr ⟨rfl, ih hlt⟩

/-- A path made of names has its last name, from wherever it is seen. -/
lemma fileName?_join {root : String} (hroot : root ≠ "") {names : List String} (hne : names ≠ [])
    (h : ∀ n ∈ names, IsName n) : fileName? (join root (ofNames names)) = fileName? (ofNames names) := by
  have hne' : names.map Component.name ≠ [] := by simpa using hne
  rw [fileName?, fileName?, components_join hroot hne h, components_ofNames hne h,
    List.getLast?_append_of_ne_nil _ hne']

end Path

/-! ## What is found -/

/-- What a file that was found says of itself is right: its path is made of the names that lead to it from the
directory at `place`, to which `root` leads from the directory at `base`. -/
structure Found.Sound (tree : Entry) (base : List String) (root : String) (place : List String)
    (filter : Filter) (f : Found) (names : List String) : Prop where
  /-- The parts of the path are names, of which none leads to a directory itself or to the one above. -/
  isName : ∀ n ∈ names, Path.IsName n
  /-- The names are the parts of the path. -/
  parts : Path.split '/' f.path.toList = names.map String.toList
  /-- The path is not empty. -/
  nonempty : f.path ≠ ""
  /-- The path is seen from the root of the search. -/
  relative : Path.isAbsolute f.path = false
  /-- Joined to the root it is the path by which the file can be opened. -/
  joined : f.absolute = Path.join root f.path
  /-- There is a file at the place of the names, and the path by which it can be opened leads there. -/
  leads : ∃ content, tree.at? (place ++ names) = some (.file content) ∧
    tree.resolve? base f.absolute = some (place ++ names, .file content)
  /-- The dialect is that of the path. -/
  dialect : Dialect.ofPath? f.path = some f.dialect
  /-- It is also that of the path by which the file can be opened. -/
  dialectJoined : Dialect.ofPath? f.absolute = some f.dialect
  /-- The filter admits the path. -/
  admitted : filter.admits f.path = true

/-- A file is found at a path of a known dialect, if the filter admits what the root sees of the path. -/
lemma found?_eq_some_iff {filter : Filter} {root path : String} {f : Found} :
    found? filter root path = some f ↔
      f.absolute = path ∧ f.path = Path.relative root path ∧ Dialect.ofPath? path = some f.dialect ∧
        filter.admits (Path.relative root path) = true := by
  obtain ⟨absolute, path', dialect⟩ := f
  rw [found?]
  dsimp only
  cases Dialect.ofPath? path with
  | none => simp
  | some d =>
    cases filter.admits (Path.relative root path) with
    | false => simp
    | true =>
      simp only [if_true, Option.some.injEq, Found.mk.injEq, and_true]
      constructor
      · rintro ⟨rfl, rfl, rfl⟩
        exact ⟨rfl, rfl, rfl⟩
      · rintro ⟨rfl, rfl, rfl⟩
        exact ⟨rfl, rfl, rfl⟩

namespace Sighting

variable {root : String} (hroot : root ≠ "") (s : Sighting)

include hroot

/-- The path of a file is what the root sees of it, joined to the root. -/
lemma path_eq_join : s.path root = Path.join root (Path.ofNames s.names) :=
  Path.along_eq_join hroot s.names_ne_nil fun _ => isName_of_mem_names

/-- Its dialect can be told from what the root sees. -/
lemma ofPath?_path : Dialect.ofPath? (s.path root) = Dialect.ofPath? (Path.ofNames s.names) := by
  have hname := Path.fileName?_join hroot s.names_ne_nil fun _ => isName_of_mem_names
  rw [s.path_eq_join hroot, Dialect.ofPath?, Dialect.ofPath?, Path.extension?, Path.extension?, hname]

/-- The parts of what the root sees are the names on the way. -/
lemma partBytes_relative : Path.partBytes (Path.relative root (s.path root)) = s.names.map Text.Utf8.encode := by
  rw [s.relative_path hroot]
  exact Path.partBytes_ofNames s.names_ne_nil fun _ => isName_of_mem_names

end Sighting

/-- Of some sightings, those that have a dialect and are admitted are found.

**Proof sketch.** A file is found at a sighting if its path has a dialect and is admitted.  Both are asked of the
path under the root or as the root sees it, and the two agree: the dialect is decided by the ending, and the root is
taken off again. -/
lemma mem_map_path_iff {root : String} (hroot : root ≠ "") (filter : Filter) (sighted : List Sighting)
    (path : String) :
    path ∈ (sighted.filterMap fun s => found? filter root (s.path root)).map Found.path ↔
      (∃ s ∈ sighted, Path.relative root (s.path root) = path) ∧ (Dialect.ofPath? path).isSome = true ∧
        filter.admits path = true := by
  rw [List.mem_map]
  constructor
  · rintro ⟨f, hf, rfl⟩
    obtain ⟨s, hs, hf⟩ := List.mem_filterMap.mp hf
    obtain ⟨-, hpath, hdialect, hadmits⟩ := found?_eq_some_iff.mp hf
    rw [s.ofPath?_path hroot, ← s.relative_path hroot] at hdialect
    rw [hpath]
    exact ⟨⟨s, hs, rfl⟩, Option.isSome_of_eq_some hdialect, hadmits⟩
  · rintro ⟨⟨s, hs, rfl⟩, hdialect, hadmits⟩
    obtain ⟨dialect, hdialect⟩ := Option.isSome_iff_exists.mp hdialect
    rw [s.relative_path hroot, ← s.ofPath?_path hroot] at hdialect
    refine ⟨⟨s.path root, Path.relative root (s.path root), dialect⟩, List.mem_filterMap.mpr ⟨s, hs, ?_⟩, rfl⟩
    exact found?_eq_some_iff.mpr ⟨rfl, rfl, hdialect, hadmits⟩

/-- What is found where something is sighted says of itself what is right.

**Proof sketch.** The path of the sighting is the root, joined with the path made of the names on the way, which is
also what the root sees.  All the rest is said of such paths in general. -/
lemma sound_of_mem_sightAll {tree : Entry} {base : List String} {root : String} {place : List String}
    {entries : List (Name × Entry)} (hdistinct : (Entry.directory entries).Distinct)
    (hroot : tree.resolve? base root = some (place, .directory entries)) {filter : Filter}
    {compare : String → String → Ordering} {scope : Ignore.Scope} {s : Sighting}
    (hs : s ∈ sightAll tree compare scope place entries) {f : Found}
    (hf : found? filter root (s.path root) = some f) : f.Sound tree base root place filter s.names := by
  have hempty : root ≠ "" := by
    rintro rfl
    simp [Entry.resolve?] at hroot
  obtain ⟨habsolute, hpath, hdialect, hadmits⟩ := found?_eq_some_iff.mp hf
  obtain ⟨content, hat⟩ := exists_at?_of_mem_sightAll hdistinct hs
  have hnames : ∀ n ∈ s.names, Path.IsName n := fun _ => Sighting.isName_of_mem_names
  have hleads := Entry.resolve?_join hroot s.names_ne_nil hnames hat
  have hrelative := s.relative_path hempty
  have hjoin := s.path_eq_join hempty
  rw [hrelative] at hpath hadmits
  exact {
    isName := hnames
    parts := by rw [hpath, Path.split_ofNames s.names_ne_nil hnames]
    nonempty := by
      rw [hpath]
      exact Path.ofNames_ne_empty s.names_ne_nil hnames
    relative := by rw [hpath, Path.isAbsolute_ofNames s.names_ne_nil hnames]
    joined := by rw [habsolute, hjoin, hpath]
    leads := ⟨content, Entry.at?_of_resolve? hleads, by rw [habsolute, hjoin, hleads]⟩
    dialect := by rw [hpath, ← s.ofPath?_path hempty, hdialect]
    dialectJoined := by rw [habsolute, hdialect]
    admitted := by rw [hpath, hadmits] }

/-- **The order and the identity of the files that are found.**  In a tree in which no two entries of a directory have
the same name, a search below a directory succeeds, with every filter.  The files come in strictly increasing order of
their paths, where paths are compared part by part and parts by their bytes; so no two of them have the same path.  The
path of each is made of the names that lead to it from the directory: it is not empty, is not absolute and has no part
that leads nowhere or upwards.  Joined to the root of the search it is the path by which the file can be opened, and
leads to the file; both paths have the dialect that is reported, and the filter admits the path.  And no file is
missing: the paths are those of what a walk comes upon outside the pruned directories, if they have a dialect and are
admitted.

**Proof sketch.** A search finds source files among the sightings of a walk.  These are in the order of the names on
the way, of which the paths are made that the root of the search sees; so the parts of the paths are in order. -/
theorem discover_in_component_order {tree : Entry} (htree : tree.Distinct) {base : List String}
    {root : String} {place : List String} {entries : List (Name × Entry)}
    (hroot : tree.resolve? base root = some (place, .directory entries)) (filter : Filter) :
    ∃ sighted found, sightings tree base root = .ok sighted ∧
      discover tree base root filter = .ok found ∧
      found.Pairwise (fun f g => Path.partBytes f.path < Path.partBytes g.path) ∧
      (found.map Found.path).Nodup ∧
      (∀ f ∈ found, ∃ names, f.Sound tree base root place filter names) ∧
      ∀ path, path ∈ found.map Found.path ↔
        (∃ s ∈ sighted, Path.relative root (s.path root) = path ∧
          s.spared (filter.prunesBelow root) root = true) ∧
          (Dialect.ofPath? path).isSome = true ∧ filter.admits path = true := by
  have hentries : (Entry.directory entries).Distinct := htree.at? (Entry.at?_of_resolve? hroot)
  have hsighted : sightings tree base root = .ok (sightAll tree compareNames (scopeAt tree place) place entries) := by
    rw [sightings, hroot]
  have hempty := ne_empty_of_sightings hsighted
  have hfound := discover_eq tree base root filter
  rw [hsighted] at hfound
  have hpairwise : (((sightAll tree compareNames (scopeAt tree place) place entries).filter
      (·.spared (filter.prunesBelow root) root)).filterMap fun s => found? filter root (s.path root)).Pairwise
      fun f g => Path.partBytes f.path < Path.partBytes g.path := by
    have hsorted : (sightAll tree compareNames (scopeAt tree place) place entries).Pairwise
        fun s t => s.names < t.names := pairwise_sightAll hentries (scopeAt tree place) place
    refine List.pairwise_filterMap.mpr ((hsorted.filter _).imp fun {s t} hlt f hf g hg => ?_)
    rw [(found?_eq_some_iff.mp hf).2.1, (found?_eq_some_iff.mp hg).2.1, s.partBytes_relative hempty,
      t.partBytes_relative hempty]
    exact Path.map_encode_lt hlt
  refine ⟨_, _, hsighted, hfound, hpairwise, ?_, ?_, fun path => ?_⟩
  · refine List.pairwise_map.mpr (hpairwise.imp fun hlt heq => ?_)
    rw [heq] at hlt
    exact List.lt_irrefl _ hlt
  · intro f hf
    obtain ⟨s, hs, hf⟩ := List.mem_filterMap.mp hf
    exact ⟨s.names, sound_of_mem_sightAll hentries hroot (List.mem_of_mem_filter hs) hf⟩
  · rw [mem_map_path_iff hempty]
    simp only [List.mem_filter, and_assoc, and_comm, and_left_comm]

/-- A file and two directories with a file, whose names have a common beginning, in an order in which they may well
be listed.  As a text, the path through the last directory is the last of the three paths. -/
def siblings : Entry :=
  .put (.file ⟨[0x78], none⟩) ["a", "x.py"]
    (.put (.file ⟨[0x79], none⟩) ["a-b", "x.py"] (.put (.file ⟨[0x7a], none⟩) ["a.py"] .empty))

/-- The entries of the tree. -/
lemma siblings_eq : siblings = .directory [(⟨"a.py", by decide⟩, .file ⟨[0x7a], none⟩),
    (⟨"a-b", by decide⟩, .directory [(⟨"x.py", by decide⟩, .file ⟨[0x79], none⟩)]),
    (⟨"a", by decide⟩, .directory [(⟨"x.py", by decide⟩, .file ⟨[0x78], none⟩)])] := rfl

/-- No two of them have the same name. -/
lemma distinct_siblings : siblings.Distinct :=
  .put (.file _) _ (.put (.file _) _ (.put (.file _) _ .empty))

/-- The root of the search is the tree itself. -/
lemma resolve?_siblings : siblings.resolve? [] "." = some ([], siblings) := by
  have hcomponents : Path.components "." = [.current] := rfl
  rw [Entry.resolve?, hcomponents, if_neg (by decide), Entry.follow, Entry.follow]
  rfl

/-- The directories come first, by their names. -/
lemma discover_siblings :
    discover siblings [] "." { excluded := [] } = .ok [⟨"./a/x.py", "a/x.py", ⟨.python, .python⟩⟩,
      ⟨"./a-b/x.py", "a-b/x.py", ⟨.python, .python⟩⟩, ⟨"./a.py", "a.py", ⟨.python, .python⟩⟩] := by
  have hempty : ∀ place ∈ [[], ["a"], ["a-b"]], Ignore.Rules.read siblings place = {} := fun place hplace =>
    read_eq_empty (by revert place; decide)
  have hfound : ∀ path ∈ ["./a/x.py", "./a-b/x.py", "./a.py"], found? { excluded := [] } "." path =
      some ⟨path, String.ofList (path.toList.drop 2), ⟨.python, .python⟩⟩ := by decide +kernel
  have hsorted : inOrder compareNames [(⟨"a.py", by decide⟩, Entry.file ⟨[0x7a], none⟩),
      (⟨"a-b", by decide⟩, .directory [(⟨"x.py", by decide⟩, .file ⟨[0x79], none⟩)]),
      (⟨"a", by decide⟩, .directory [(⟨"x.py", by decide⟩, .file ⟨[0x78], none⟩)])] =
    [(⟨"a", by decide⟩, .directory [(⟨"x.py", by decide⟩, .file ⟨[0x78], none⟩)]),
      (⟨"a-b", by decide⟩, .directory [(⟨"x.py", by decide⟩, .file ⟨[0x79], none⟩)]),
      (⟨"a.py", by decide⟩, .file ⟨[0x7a], none⟩)] := by
    have hle : (compareNames "a.py" "a-b").isLE = false ∧ (compareNames "a.py" "a").isLE = false ∧
        (compareNames "a-b" "a").isLE = false := by decide +kernel
    simp [inOrder, List.mergeSort, hle]
  have hwalk : walkAll siblings ⟨compareNames, Filter.prunesBelow { excluded := [] } "."⟩ (scopeAt siblings []) []
      "." [(⟨"a.py", by decide⟩, .file ⟨[0x7a], none⟩),
        (⟨"a-b", by decide⟩, .directory [(⟨"x.py", by decide⟩, .file ⟨[0x79], none⟩)]),
        (⟨"a", by decide⟩, .directory [(⟨"x.py", by decide⟩, .file ⟨[0x78], none⟩)])] =
      ["./a/x.py", "./a-b/x.py", "./a.py"] := by
    rw [walkAll_eq_flatMap]
    dsimp only
    rw [hsorted, scopeAt, descend, hempty [] (by simp)]
    simp only [List.flatMap_cons, List.flatMap_nil, walk, walkEach, inOrder, List.mergeSort_singleton, List.nil_append,
      hempty ["a"] (by simp), hempty ["a-b"] (by simp)]
    decide +kernel
  have hresolve := resolve?_siblings
  nth_rewrite 2 [siblings_eq] at hresolve
  rw [discover, hresolve]
  dsimp only
  rw [hwalk, List.filterMap_congr hfound]
  rfl

/-- The order of the paths is neither that of the entries nor their order as texts. -/
theorem discover_in_component_order_siblings :
    siblings.Distinct ∧ siblings.resolve? [] "." = some ([], siblings) ∧
      "a-b/x.py" < "a.py" ∧ "a.py" < "a/x.py" ∧
      ∃ found, discover siblings [] "." { excluded := [] } = .ok found ∧
        found.map Found.path = ["a/x.py", "a-b/x.py", "a.py"] ∧
        found.Pairwise (fun f g => Path.partBytes f.path < Path.partBytes g.path) ∧
        ∀ f ∈ found, ∃ names, f.Sound siblings [] "." [] { excluded := [] } names := by
  obtain ⟨-, found, -, hfound, hpairwise, -, hsound, -⟩ :=
    discover_in_component_order distinct_siblings resolve?_siblings { excluded := [] }
  obtain rfl := Except.ok.inj (hfound.symm.trans discover_siblings)
  exact ⟨distinct_siblings, resolve?_siblings, by decide, by decide, _, hfound, rfl, hpairwise, hsound⟩

end CodeAtlas.Files
