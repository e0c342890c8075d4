import Mathlib.Data.String.Basic
import CodeAtlas.Files.Entry

/-!
# Names and the paths made of them

The names on the way to an entry, with separators between them, are a path.  If they are names that an entry can
have, then the path splits into just these names again, and leads from any directory to the entry on their way.

A walk joins the names to the path of its root one by one.  What it arrives at is the root, joined with the path made
of the names; and seen from the root, it is the path made of the names again.

## Main definitions

* `CodeAtlas.Files.Path.ofNames` — the path made of some names.
* `CodeAtlas.Files.Path.along` — the path that leads from another one through some names.

## Main results

* `CodeAtlas.Files.Path.split_ofNames` — the names can be read off the path.
* `CodeAtlas.Files.Path.components_join` — the components of a path seen from another one.
* `CodeAtlas.Files.Path.along_eq_join` — names are joined one by one as they are joined together.
* `CodeAtlas.Files.Path.relative_along` — what is seen from the root of a walk.
* `CodeAtlas.Files.Entry.resolve?_join` — a path that is joined to another one leads on from there.
-/

namespace CodeAtlas.Files

namespace Path

/-! ## Splitting -/

/-- Parts are split off as the library does it. -/
lemma split_eq_splitOn (separator : Char) (cs : List Char) : split separator cs = cs.splitOn separator := by
  have hfrom : ∀ part, splitFrom separator part cs = cs.splitOnPPrepend (· == separator) part := by
    induction cs with
    | nil => exact fun part => rfl
    | cons c rest ih =>
      intro part
      rw [splitFrom, List.splitOnPPrepend, ih, ih]
      simp only [beq_iff_eq]
  exact hfrom []

/-- A separator between two texts separates their parts. -/
lemma split_append_cons (separator : Char) (cs ds : List Char) :
    split separator (cs ++ separator :: ds) = split separator cs ++ split separator ds := by
  simp only [split_eq_splitOn]
  exact List.splitOnP_append_cons cs ds (beq_self_eq_true separator)

/-- A text has at least one part. -/
lemma split_ne_nil (separator : Char) (cs : List Char) : split separator cs ≠ [] := by
  rw [split_eq_splitOn]
  exact List.splitOnP_ne_nil _ _

/-- Only the empty text has nothing but an empty part. -/
lemma split_ne_singleton_nil {separator : Char} {cs : List Char} (h : cs ≠ []) :
    split separator cs ≠ [[]] := by
  intro hsplit
  have hcs : [separator].intercalate (cs.splitOn separator) = cs := List.intercalate_splitOn separator
  rw [← split_eq_splitOn, hsplit] at hcs
  exact h hcs.symm

/-! ## Names -/

/-- The path that leads through some names. -/
def ofNames (names : List String) : String := "/".intercalate names

/-- **The names can be read off the path.** -/
theorem split_ofNames {names : List String} (hne : names ≠ []) (h : ∀ n ∈ names, IsName n) :
    split '/' (ofNames names).toList = names.map String.toList := by
  have hseparator : "/".toList = ['/'] := rfl
  rw [split_eq_splitOn, ofNames, String.toList_intercalate, hseparator]
  refine List.splitOn_intercalate '/' (fun l hl => ?_) (by simpa using hne)
  obtain ⟨n, hn, rfl⟩ := List.mem_map.mp hl
  exact (h n hn).2.2.2

/-- The characters of a name. -/
lemma IsName.toList_ne {name : String} (h : IsName name) :
    name.toList ≠ [] ∧ name.toList ≠ ['.'] ∧ name.toList ≠ ['.', '.'] := by
  have hne : ∀ cs, name ≠ String.ofList cs → name.toList ≠ cs := fun cs hname heq =>
    hname (by rw [← heq, String.ofList_toList])
  exact ⟨hne [] h.1, hne ['.'] h.2.1, hne ['.', '.'] h.2.2.1⟩

/-- A name is a component of its own. -/
lemma component?_toList {name : String} (h : IsName name) : component? name.toList = some (.name name) := by
  obtain ⟨hempty, hdot, hdots⟩ := h.toList_ne
  rw [component?, if_neg (not_or.mpr ⟨hempty, hdot⟩), if_neg hdots, String.ofList_toList]

/-- The first part of a path made of names is not empty. -/
lemma head_split_ofNames {names : List String} (hne : names ≠ []) (h : ∀ n ∈ names, IsName n)
    (rest : List (List Char)) : split '/' (ofNames names).toList ≠ [] :: rest := by
  rw [split_ofNames hne h]
  cases names with
  | nil => exact absurd rfl hne
  | cons n more =>
    intro heq
    exact (h n (by simp)).toList_ne.1 (List.cons.inj heq).1

/-- So the path is not empty. -/
lemma ofNames_ne_empty {names : List String} (hne : names ≠ []) (h : ∀ n ∈ names, IsName n) :
    ofNames names ≠ "" := by
  intro hempty
  refine head_split_ofNames hne h [] ?_
  rw [hempty]
  rfl

/-- It does not begin at the root of all paths either. -/
lemma isAbsolute_ofNames {names : List String} (hne : names ≠ []) (h : ∀ n ∈ names, IsName n) :
    isAbsolute (ofNames names) = false := by
  rw [isAbsolute, decide_eq_false_iff_not]
  intro hhead
  obtain ⟨cs, hcs⟩ := List.head?_eq_some_iff.mp hhead
  refine head_split_ofNames hne h (split '/' cs) ?_
  rw [hcs, ← List.nil_append ('/' :: cs), split_append_cons]
  rfl

/-! ## Components -/

/-- The component that a path has for its beginning, besides those of its parts. -/
def lead : List (List Char) → List Component
  | [] :: _ :: _ => [.root]
  | ['.'] :: _ => [.current]
  | _ => []

/-- The components of a path by its parts. -/
lemma components_eq (path : String) :
    components path =
      lead (split '/' path.toList) ++ (split '/' path.toList).filterMap component? := by
  rw [components]
  generalize split '/' path.toList = parts
  split
  · rfl
  · rfl
  · next hroot hdot =>
    rw [lead.eq_3 parts hroot hdot]
    rfl

/-- Other parts do not count for the beginning. -/
lemma lead_cons {p : List Char} (hempty : p ≠ []) (hdot : p ≠ ['.']) (rest : List (List Char)) :
    lead (p :: rest) = [] := by
  refine lead.eq_3 _ (fun q more heq => ?_) fun more heq => ?_
  · exact hempty (List.cons.inj heq).1
  · exact hdot (List.cons.inj heq).1

/-- What follows does not matter for the beginning of a path. -/
lemma lead_append {parts : List (List Char)} (hne : parts ≠ []) (hempty : parts ≠ [[]])
    (more : List (List Char)) : lead (parts ++ more) = lead parts := by
  cases parts with
  | nil => exact absurd rfl hne
  | cons p rest =>
    by_cases hp : p = []
    · subst hp
      cases rest with
      | nil => exact absurd rfl hempty
      | cons q rest => rfl
    · by_cases hdot : p = ['.']
      · subst hdot
        rfl
      · rw [List.cons_append, lead_cons hp hdot, lead_cons hp hdot]

/-- Nor does it matter what it is that follows an empty part. -/
lemma lead_append_congr {parts more more' : List (List Char)} (hne : parts ≠ []) (hmore : more ≠ [])
    (hmore' : more' ≠ []) : lead (parts ++ more) = lead (parts ++ more') := by
  by_cases hempty : parts = [[]]
  · obtain ⟨p, rest, rfl⟩ := List.exists_cons_of_ne_nil hmore
    obtain ⟨p', rest', rfl⟩ := List.exists_cons_of_ne_nil hmore'
    rw [hempty]
    rfl
  · rw [lead_append hne hempty, lead_append hne hempty]

/-- Names are components of their own. -/
lemma filterMap_component? {names : List String} (h : ∀ n ∈ names, IsName n) :
    (names.map String.toList).filterMap component? = names.map .name := by
  rw [List.filterMap_map, ← List.filterMap_eq_map]
  exact List.filterMap_congr fun n hn => component?_toList (h n hn)

/-- The components of the path made of some names are these names. -/
theorem components_ofNames {names : List String} (hne : names ≠ []) (h : ∀ n ∈ names, IsName n) :
    components (ofNames names) = names.map .name := by
  have hlead : lead (names.map String.toList) = [] := by
    cases names with
    | nil => rfl
    | cons n rest =>
      obtain ⟨hempty, hdot, -⟩ := (h n (by simp)).toList_ne
      exact lead_cons hempty hdot _
  rw [components_eq, split_ofNames hne h, filterMap_component? h, hlead, List.nil_append]

/-- **The components of a path seen from another one** are those of the one and then those of the other.

**Proof sketch.** Between the two there is exactly one separator: one is put there, unless the first path ends with
one, and then its last part is empty and is no component.  What follows does not change the beginning of the first
path, because that path is not empty. -/
theorem components_join {root : String} (hroot : root ≠ "") {names : List String} (hne : names ≠ [])
    (h : ∀ n ∈ names, IsName n) :
    components (join root (ofNames names)) = components root ++ names.map .name := by
  have hchars : root.toList ≠ [] := fun heq => hroot (String.toList_inj.mp heq)
  have hguard : ¬ (isAbsolute (ofNames names) = true ∨ root.isEmpty = true) := by
    rw [isAbsolute_ofNames hne h, String.isEmpty_iff]
    simpa using hroot
  rw [join, if_neg hguard]
  by_cases hlast : root.toList.getLast? = some '/'
  · obtain ⟨cs, hcs⟩ := List.getLast?_eq_some_iff.mp hlast
    have hsplit : split '/' root.toList = split '/' cs ++ [[]] := by
      rw [hcs, split_append_cons]
      rfl
    have hjoined : split '/' (root ++ ofNames names).toList = split '/' cs ++ names.map String.toList := by
      rw [String.toList_append, hcs, List.append_assoc, List.singleton_append, split_append_cons,
        split_ofNames hne h]
    have hlead : lead (split '/' cs ++ names.map String.toList) = lead (split '/' cs ++ [[]]) :=
      lead_append_congr (split_ne_nil _ _) (by simpa using hne) (by simp)
    have hnone : [[]].filterMap component? = [] := rfl
    rw [if_pos hlast, components_eq, components_eq, hjoined, hsplit, hlead, List.filterMap_append,
      List.filterMap_append, filterMap_component? h, hnone, List.append_nil, List.append_assoc]
  · have hjoined : split '/' (root ++ "/" ++ ofNames names).toList =
        split '/' root.toList ++ names.map String.toList := by
      have hseparator : "/".toList = ['/'] := rfl
      rw [String.toList_append, String.toList_append, hseparator, List.append_assoc,
        List.singleton_append, split_append_cons, split_ofNames hne h]
    rw [if_neg hlast, components_eq, components_eq, hjoined,
      lead_append (split_ne_nil _ _) (split_ne_singleton_nil hchars), List.filterMap_append,
      filterMap_component? h, List.append_assoc]

/-! ## Names joined one by one -/

/-- The path that leads from `root` through some names. -/
def along (root : String) (names : List String) : String := names.foldl join root

/-- A path is put behind another one, which stays what it is or gets a separator. -/
lemma exists_join_eq_append {root : String} (hroot : root ≠ "") :
    ∃ start : String, start ≠ "" ∧ ∀ path, isAbsolute path = false → join root path = start ++ path := by
  have hempty : ¬ root.isEmpty = true := fun h => hroot (String.isEmpty_iff.mp h)
  by_cases hlast : root.toList.getLast? = some '/'
  · refine ⟨root, hroot, fun path hpath => ?_⟩
    simp [join, hpath, hempty, hlast]
  · refine ⟨root ++ "/", by simp, fun path hpath => ?_⟩
    simp [join, hpath, hempty, hlast]

/-- A name is a path of its own. -/
lemma ofNames_singleton (name : String) : ofNames [name] = name := by
  simp [ofNames]

/-- Names that are put together. -/
lemma ofNames_append {front back : List String} (hfront : front ≠ []) (hback : back ≠ []) :
    ofNames (front ++ back) = ofNames front ++ "/" ++ ofNames back := by
  induction front with
  | nil => exact absurd rfl hfront
  | cons n rest ih =>
    cases rest with
    | nil =>
      obtain ⟨m, more, rfl⟩ := List.exists_cons_of_ne_nil hback
      rw [ofNames_singleton, List.singleton_append, ofNames, ofNames, String.intercalate_cons_cons]
    | cons m more =>
      have ih := ih (List.cons_ne_nil _ _)
      rw [ofNames, ofNames, List.cons_append] at ih
      rw [ofNames, ofNames, List.cons_append, List.cons_append, String.intercalate_cons_cons, ih,
        String.intercalate_cons_cons, ofNames]
      simp only [String.append_assoc]

/-- A name that is joined to a path ends it. -/
lemma getLast?_join {root name : String} (hroot : root ≠ "") (h : IsName name) :
    join root name ≠ "" ∧ (join root name).toList.getLast? ≠ some '/' := by
  have hchars := h.toList_ne.1
  have habsolute : isAbsolute name = false := by
    have hall : ∀ n ∈ [name], IsName n := by simpa using h
    simpa [ofNames_singleton] using isAbsolute_ofNames (List.cons_ne_nil _ _) hall
  obtain ⟨start, hstart, hjoin⟩ := exists_join_eq_append hroot
  rw [hjoin name habsolute]
  constructor
  · simp [hstart]
  · rw [String.toList_append, List.getLast?_append_of_ne_nil _ hchars]
    intro hlast
    exact h.2.2.2 (List.mem_of_getLast? hlast)

/-- **Names are joined one by one as they are joined together.**

**Proof sketch.** Induction on the names.  After the first name has been joined, the path does not end with a
separator, so that one is put before the next name; this is the separator that stands between the two in the path
made of all the names. -/
theorem along_eq_join {root : String} (hroot : root ≠ "") {names : List String} (hne : names ≠ [])
    (h : ∀ n ∈ names, IsName n) : along root names = join root (ofNames names) := by
  induction names generalizing root with
  | nil => exact absurd rfl hne
  | cons n rest ih =>
    obtain ⟨hn, hrest⟩ := List.forall_mem_cons.mp h
    by_cases hnil : rest = []
    · rw [hnil, ofNames_singleton]
      rfl
    · obtain ⟨hjoined, hlast⟩ := getLast?_join hroot hn
      have hsecond : join (join root n) (ofNames rest) = join root n ++ "/" ++ ofNames rest := by
        have hempty : ¬ (join root n).isEmpty = true := fun h => hjoined (String.isEmpty_iff.mp h)
        rw [join, isAbsolute_ofNames hnil hrest, if_neg (by simp [hempty]), if_neg hlast]
      have hnames : ofNames (n :: rest) = n ++ "/" ++ ofNames rest := by
        rw [← List.singleton_append, ofNames_append (List.cons_ne_nil _ _) hnil, ofNames_singleton]
      have hfirst : isAbsolute n = false := by
        simpa [ofNames_singleton] using isAbsolute_ofNames (List.cons_ne_nil n []) (by simpa using hn)
      obtain ⟨start, -, hjoin⟩ := exists_join_eq_append hroot
      calc along root (n :: rest) = along (join root n) rest := rfl
        _ = join (join root n) (ofNames rest) := ih hjoined hnil hrest
        _ = start ++ n ++ "/" ++ ofNames rest := by rw [hsecond, hjoin n hfirst]
        _ = start ++ ofNames (n :: rest) := by rw [hnames]; simp only [String.append_assoc]
        _ = join root (ofNames (n :: rest)) := (hjoin _ (isAbsolute_ofNames hne h)).symm

/-- **What is seen from the root of a walk** is the path made of the names that lead there.

**Proof sketch.** The components of the path are those of the root and then the names.  The root is taken away, and
the texts of the names are put together again. -/
theorem relative_along {root : String} (hroot : root ≠ "") {names : List String} (hne : names ≠ [])
    (h : ∀ n ∈ names, IsName n) : relative root (along root names) = ofNames names := by
  have hcomponents : components (along root names) = components root ++ names.map .name := by
    rw [along_eq_join hroot hne h, components_join hroot hne h]
  have hrest : (components root).isPrefixOf? (components root ++ names.map .name) = some (names.map .name) :=
    List.isPrefixOf?_eq_some_iff_append_eq.mpr rfl
  have htext : (names.map Component.name).map Component.text = names := by
    rw [List.map_map]
    exact List.map_id names
  rw [relative, hcomponents, hrest]
  dsimp only [Option.getD_some]
  rw [htext, ofNames]

end Path

/-! ## Places -/

namespace Entry

/-- A place below another one. -/
lemma at?_append (e : Entry) (place names : List String) :
    e.at? (place ++ names) = (e.at? place).bind (at? names) := by
  induction place generalizing e with
  | nil => rfl
  | cons name rest ih =>
    rw [List.cons_append, at?, at?]
    cases e.child? name with
    | none => rfl
    | some c => exact ih c

/-- The way to a place ends at the entry there. -/
lemma at?_of_follow {root : Entry} {links : Nat} {here : List String} {way : List Path.Component}
    {place : List String} {e : Entry} (h : root.follow links here way = some (place, e)) :
    root.at? place = some e := by
  fun_induction follow root links here way with
  | case1 links here =>
    obtain ⟨e', he', heq⟩ := Option.map_eq_some_iff.mp h
    obtain ⟨rfl, rfl⟩ := Prod.mk.inj heq
    exact he'
  | case2 links here rest ih => exact ih h
  | case3 links here rest ih => exact ih h
  | case4 links here rest ih => exact ih h
  | case5 => simp at h
  | case6 => simp at h
  | case7 here n rest target _ links ih => exact ih h
  | case8 links here n rest content hat hrest =>
    obtain ⟨rfl, rfl⟩ := Prod.mk.inj (Option.some.inj h)
    exact hat
  | case9 => simp at h
  | case10 links here n rest entries _ ih => exact ih h

/-- So does a path. -/
lemma at?_of_resolve? {tree : Entry} {base : List String} {path : String} {place : List String} {e : Entry}
    (h : tree.resolve? base path = some (place, e)) : tree.at? place = some e := by
  unfold resolve? at h
  split_ifs at h
  exact at?_of_follow h

/-- Names lead from a directory to a file that is at their place in it, without following a link.

**Proof sketch.** Induction on the names.  The first one is that of an entry of the directory.  If more names
follow, something is below this entry, so it is a directory and the induction goes on from there; if none follows,
it is the file. -/
lemma follow_names {root : Entry} (links : Nat) {here names : List String} {e : Entry}
    {content : Entity.Source} (hhere : root.at? here.reverse = some e) (hne : names ≠ [])
    (hat : e.at? names = some (.file content)) :
    root.follow links here (names.map .name) = some (here.reverse ++ names, .file content) := by
  induction names generalizing here e with
  | nil => exact absurd rfl hne
  | cons name rest ih =>
    rw [at?] at hat
    cases hchild : e.child? name with
    | none => simp [hchild] at hat
    | some c =>
      rw [hchild] at hat
      have hplace : root.at? (name :: here).reverse = some c := by
        rw [List.reverse_cons, at?_append, hhere, Option.bind_some, at?, hchild]
        rfl
      rw [List.map_cons, follow, hplace]
      cases c with
      | file content' =>
        cases rest with
        | nil =>
          obtain rfl : content' = content := by simpa [at?] using hat
          simp
        | cons next more => simp [at?, child?, entries] at hat
      | link target => cases rest <;> simp [at?, child?, entries] at hat
      | directory entries =>
        have hrest : rest ≠ [] := by
          rintro rfl
          simp [at?] at hat
        dsimp only
        rw [ih hplace hrest hat, List.reverse_cons, List.append_assoc, List.singleton_append]

/-- Names lead on from a directory that a way leads to.

**Proof sketch.** Induction along the way to the directory.  The first steps are the same with the names behind
them; at its end the names lead on. -/
lemma follow_append_names {root : Entry} {links : Nat} {here : List String} {way : List Path.Component}
    {place : List String} {entries : List (Name × Entry)}
    (h : root.follow links here way = some (place, .directory entries)) {names : List String}
    (hne : names ≠ []) {content : Entity.Source}
    (hat : (directory entries).at? names = some (.file content)) :
    root.follow links here (way ++ names.map .name) = some (place ++ names, .file content) := by
  fun_induction follow root links here way with
  | case1 links here =>
    obtain ⟨e, he, heq⟩ := Option.map_eq_some_iff.mp h
    obtain ⟨rfl, rfl⟩ := Prod.mk.inj heq
    exact follow_names links he hne hat
  | case2 links here rest ih => rw [List.cons_append, follow, ih h]
  | case3 links here rest ih => rw [List.cons_append, follow, ih h]
  | case4 links here rest ih => rw [List.cons_append, follow, ih h]
  | case5 => simp at h
  | case6 => simp at h
  | case7 here n rest target hlink links ih =>
    rw [List.cons_append, follow, hlink, ← ih h, List.append_assoc]
  | case8 => simp at h
  | case9 => simp at h
  | case10 links here n rest entries' hdirectory ih => rw [List.cons_append, follow, hdirectory, ← ih h]

/-- **A path that is joined to another one leads on from there.**

**Proof sketch.** The components of the joined path are those of the root, followed by the names; so the way of the
joined path begins with that of the root. -/
theorem resolve?_join {tree : Entry} {base : List String} {root : String} {place : List String}
    {entries : List (Name × Entry)} (hroot : tree.resolve? base root = some (place, .directory entries))
    {names : List String} (hne : names ≠ []) (h : ∀ n ∈ names, Path.IsName n) {content : Entity.Source}
    (hat : (directory entries).at? names = some (.file content)) :
    tree.resolve? base (Path.join root (Path.ofNames names)) = some (place ++ names, .file content) := by
  unfold resolve? at hroot
  split_ifs at hroot with hempty
  have hne' : root ≠ "" := fun heq => hempty (String.isEmpty_iff.mpr heq)
  have hcomponents := Path.components_join hne' hne h
  have hjoined : ¬ (Path.join root (Path.ofNames names)).isEmpty = true := fun hempty' => by
    have hnil : Path.components "" = [] := rfl
    rw [String.isEmpty_iff.mp hempty', hnil] at hcomponents
    simp [hne] at hcomponents
  unfold resolve?
  rw [if_neg hjoined, hcomponents]
  exact follow_append_names hroot hne hat

end Entry

end CodeAtlas.Files
