import CodeAtlas.Entity.Blob
import CodeAtlas.Proofs.Text.Truncation

/-!
# What is shown of an entity

The text that stands for an entity is made of lines: a header, the documentation if there is any, and as
much of the snippet as fits.  What does not fit has no part in it.

## Main results

* `CodeAtlas.Entity.compose_eq_intercalate` — the lines of the text.
* `CodeAtlas.Entity.compose_shows_longest_beginning` — how a snippet is cut, and what is shown of it.
-/

namespace CodeAtlas.Entity

/-- **A part of the snippet is shown**, the longest beginning that fits. -/
lemma longestWithin_shownSnippet (e : Entity) :
    Text.LongestWithin maxSnippetBytes e.snippet e.shownSnippet := by
  obtain ⟨t, ht, hlongest⟩ := Text.exists_truncate maxSnippetBytes e.snippet
  rwa [shownSnippet, ht, Option.getD_some]

/-- **The lines of the text of an entity.** -/
theorem compose_eq_intercalate (e : Entity) (path : String) :
    e.compose path = "\n".intercalate
      (e.header path :: (if e.doc = "" then [] else ["doc: " ++ e.doc]) ++ [e.shownSnippet]) := by
  unfold compose
  by_cases hdoc : e.doc = ""
  · simp [hdoc]
  · have hline : "\ndoc: " ++ e.doc = "\n" ++ ("doc: " ++ e.doc) := by
      rw [← String.append_assoc]
      rfl
    rw [if_neg (by simpa using hdoc), if_neg hdoc, hline]
    simp [String.append_assoc]

/-- **Cutting leaves the longest beginning of a text that fits, and the text of an entity shows that
beginning of its snippet.**

A text of any length is cut to any number of bytes without fail: the search for the place to cut ends
where the longest beginning that fits ends, at most three bytes before the limit if anything is lost.
The text of an entity has its header, its documentation unless that is empty, and the longest beginning
of its snippet within 32768 bytes, and entities that differ in what follows that beginning have the same
text.

**Proof sketch.** By `boundaryUpTo_eq_some_iff` the search ends at the last offset up to the limit that
the bytes show to be a boundary, and by `encode_prefix_encode_iff` the beginnings that are texts end at
boundaries.  As there is one longest beginning, it is what an entity shows. -/
theorem compose_shows_longest_beginning :
    (∀ (max : Nat) (text : String), ∃ t, Text.truncate max text = some t ∧
      Text.LongestWithin max text t ∧
      (t = text ↔ (Text.Utf8.encode text).length ≤ max) ∧
      (max < (Text.Utf8.encode text).length → max ≤ (Text.Utf8.encode t).length + 3) ∧
      Text.boundaryUpTo (Text.Utf8.encode text) max = some (Text.Utf8.encode t).length) ∧
    (∀ (e : Entity) (path : String), ∃ shown, Text.LongestWithin 32768 e.snippet shown ∧
      Text.IsBoundary e.snippet.toList (Text.Utf8.encode shown).length ∧
      e.compose path = "\n".intercalate
        (e.header path :: (if e.doc = "" then [] else ["doc: " ++ e.doc]) ++ [shown])) ∧
    ∀ (e : Entity) (snippet shown path : String), Text.LongestWithin 32768 e.snippet shown →
      Text.LongestWithin 32768 snippet shown →
      { e with snippet := snippet }.compose path = e.compose path := by
  refine ⟨fun max text => ?_, fun e path => ?_, fun e snippet shown path hshown hother => ?_⟩
  · obtain ⟨t, ht, hlongest⟩ := Text.exists_truncate max text
    exact ⟨t, ht, hlongest, hlongest.eq_iff, hlongest.le_length_add, hlongest.boundaryUpTo_eq⟩
  · have hlongest := e.longestWithin_shownSnippet
    exact ⟨e.shownSnippet, hlongest, hlongest.isBoundary, e.compose_eq_intercalate path⟩
  · have hsame : { e with snippet := snippet }.shownSnippet = e.shownSnippet :=
      (longestWithin_shownSnippet { e with snippet := snippet }).unique hother |>.trans
        (hshown.unique e.longestWithin_shownSnippet)
    rw [compose_eq_intercalate, compose_eq_intercalate, hsame]
    rfl

end CodeAtlas.Entity
