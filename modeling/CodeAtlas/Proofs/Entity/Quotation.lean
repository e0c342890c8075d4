import Mathlib.Data.List.Infix
import Mathlib.Data.List.TakeWhile
import CodeAtlas.Entity.Docstring
import CodeAtlas.Proofs.Text.Excerpt

/-!
# String literals and their contents

A string literal is a content between two copies of a delimiter, behind some letters.  The delimiters are tried
one after the other, and some of them are the beginnings of others; so a literal could be taken apart by another
delimiter than the one it was put together with.  That does not happen, unless a content behind a single quote
begins with that quote.

## Main definitions

* `CodeAtlas.Entity.Framed` — a literal is a content between two copies of a delimiter.

## Main results

* `CodeAtlas.Entity.between_eq_some_iff` — what stands between two copies of a delimiter.
* `CodeAtlas.Entity.findSome?_between_of_framed` — a literal is taken apart by its own delimiter.
* `CodeAtlas.Entity.unquote_undoes_quoting` — unquoting gives the content back.
-/

namespace CodeAtlas.Entity

/-! ## Delimiters -/

/-- The literal is the content between two copies of the delimiter. -/
def Framed (delimiter content literal : List Char) : Prop := literal = delimiter ++ content ++ delimiter

/-- **What stands between two copies of a delimiter** is the content that they frame.

**Proof sketch.** If something is found, the literal begins with the delimiter and the rest ends with it, so the
literal is their concatenation.  Conversely, dropping as many characters as the delimiter has from both ends of such
a literal leaves the content. -/
theorem between_eq_some_iff (delimiter literal content : List Char) :
    between delimiter literal = some content ↔ Framed delimiter content literal := by
  unfold between Framed
  constructor
  · intro h
    dsimp only at h
    split_ifs at h with hfront hback
    obtain ⟨rest, rfl⟩ := List.isPrefixOf_iff_prefix.mp hfront
    rw [List.drop_left] at h hback
    obtain ⟨inner, rfl⟩ := List.isSuffixOf_iff_suffix.mp hback
    rw [List.length_append, Nat.add_sub_cancel, List.take_left] at h
    rw [Option.some.inj h, List.append_assoc]
  · rintro rfl
    have hfront : delimiter.isPrefixOf (delimiter ++ content ++ delimiter) = true := by
      rw [List.isPrefixOf_iff_prefix, List.append_assoc]
      exact List.prefix_append _ _
    have hrest : (delimiter ++ content ++ delimiter).drop delimiter.length = content ++ delimiter := by
      rw [List.append_assoc, List.drop_left]
    have hback : delimiter.isSuffixOf (content ++ delimiter) = true := by
      rw [List.isSuffixOf_iff_suffix]
      exact List.suffix_append _ _
    rw [if_pos hfront, hrest, if_pos hback, List.length_append, Nat.add_sub_cancel, List.take_left]

/-- Nothing stands between delimiters that do not frame the literal. -/
lemma between_eq_none_iff (delimiter literal : List Char) :
    between delimiter literal = none ↔ ∀ content, ¬ Framed delimiter content literal := by
  rw [Option.eq_none_iff_forall_ne_some]
  exact forall_congr' fun content => not_congr (between_eq_some_iff delimiter literal content)

/-- Different quotes begin different literals. -/
lemma not_framed_of_head_ne {quote other : Char} (h : quote ≠ other) (tail rest content : List Char) :
    ¬ Framed (other :: tail) content (quote :: rest) := by
  intro hframed
  exact h (List.cons.inj hframed).1

/-- A literal between single quotes is not one between three of them, if the content begins with no
quote. -/
lemma not_framed_triple {quote : Char} {content : List Char} (h : ¬ [quote] <+: content)
    (inner : List Char) : ¬ Framed [quote, quote, quote] inner (quote :: (content ++ [quote])) := by
  intro hframed
  have htail : content ++ [quote] = quote :: quote :: (inner ++ [quote, quote, quote]) :=
    (List.cons.inj hframed).2
  cases content with
  | nil => simp at htail
  | cons c cs =>
    obtain ⟨rfl, -⟩ := List.cons.inj htail
    exact h ⟨cs, rfl⟩

/-- **A literal is taken apart by its own delimiter.**  No delimiter that is tried before it frames the
literal.

**Proof sketch.** By which delimiter it is.  Those tried before it are made of the other quote, with which the
literal does not begin, or are the triple of the same quote, which would put that quote at the beginning of the
content. -/
theorem findSome?_between_of_framed {delimiter content literal : List Char}
    (hdelimiter : delimiter ∈ delimiters) (hcontent : delimiter.length = 1 → ¬ delimiter <+: content)
    (hframed : Framed delimiter content literal) :
    delimiters.findSome? (fun d => between d literal) = some content := by
  have hown : between delimiter literal = some content := (between_eq_some_iff _ _ _).mpr hframed
  subst hframed
  rw [List.findSome?_eq_some_iff]
  simp only [delimiters, List.mem_cons, List.not_mem_nil, or_false] at hdelimiter
  rcases hdelimiter with rfl | rfl | rfl | rfl
  · exact ⟨[], _, _, rfl, hown, by simp⟩
  · refine ⟨[_], _, _, rfl, hown, ?_⟩
    simp only [List.mem_singleton, forall_eq, between_eq_none_iff]
    exact not_framed_of_head_ne (by decide) _ _
  · refine ⟨[_, _], _, _, rfl, hown, ?_⟩
    simp only [List.mem_cons, List.not_mem_nil, or_false, forall_eq_or_imp, forall_eq,
      between_eq_none_iff]
    exact ⟨not_framed_triple (hcontent rfl), not_framed_of_head_ne (by decide) _ _⟩
  · refine ⟨[_, _, _], _, _, rfl, hown, ?_⟩
    simp only [List.mem_cons, List.not_mem_nil, or_false, forall_eq_or_imp, forall_eq,
      between_eq_none_iff]
    exact ⟨not_framed_of_head_ne (by decide) _ _, not_framed_triple (hcontent rfl),
      not_framed_of_head_ne (by decide) _ _⟩

/-! ## Literals -/

/-- Every delimiter begins with a quote. -/
lemma exists_quote_of_mem_delimiters {delimiter : List Char} (h : delimiter ∈ delimiters) :
    ∃ quote rest, delimiter = quote :: rest ∧ isQuote quote = true := by
  simp only [delimiters, List.mem_cons, List.not_mem_nil, or_false] at h
  rcases h with rfl | rfl | rfl | rfl <;> exact ⟨_, _, rfl, by decide⟩

/-- The letters of a literal are what stands before its first quote. -/
lemma unquote_append {letters : List Char} (hletters : ∀ c ∈ letters, isQuote c = false)
    {literal : List Char} (hliteral : ∀ c ∈ literal.head?, isQuote c = true) :
    unquote (letters ++ literal) =
      if letters.any isFormatLetter then none
      else (delimiters.findSome? fun d => between d literal).map Text.trimChars := by
  have hpass : ∀ c ∈ letters, (!isQuote c) = true := fun c hc => by rw [hletters c hc]; rfl
  have hstop : literal.takeWhile (fun c => !isQuote c) = [] ∧
      literal.dropWhile (fun c => !isQuote c) = literal := by
    cases literal with
    | nil => exact ⟨rfl, rfl⟩
    | cons c cs => simp [hliteral c rfl]
  unfold unquote
  rw [List.takeWhile_append_of_pos hpass, List.dropWhile_append_of_pos hpass, hstop.1, hstop.2,
    List.append_nil]

/-- Nothing is framed in a text without quotes. -/
lemma unquote_eq_none_of_forall_not_isQuote {raw : List Char} (h : ∀ c ∈ raw, isQuote c = false) :
    unquote raw = none := by
  have hhead : ∀ c ∈ ([] : List Char).head?, isQuote c = true := by simp
  rw [← List.append_nil raw, unquote_append h hhead, ite_eq_left_iff]
  intro _
  decide

/-- **Unquoting undoes quoting.**  Take some letters without a quote, a delimiter, and a content that, between
single quotes, does not begin with that quote.  The literal made of these has no content if one of the letters
makes it a formatted text or bytes; otherwise its content is the given one without the blanks around it.  A text
without any quote is no literal.

**Proof sketch.** The letters are what stands before the first quote, so they decide whether the literal has a
content.  If so, it is the one that the delimiter frames, since no other delimiter does; and it is trimmed, which
takes blanks away at both ends. -/
theorem unquote_undoes_quoting :
    (∀ letters delimiter content : List Char, (∀ c ∈ letters, isQuote c = false) →
      delimiter ∈ delimiters → (delimiter.length = 1 → ¬ delimiter <+: content) →
      ((∃ c ∈ letters, c ∈ ['f', 'F', 'b', 'B']) →
        unquote (letters ++ (delimiter ++ content ++ delimiter)) = none) ∧
      ((∀ c ∈ letters, c ∉ ['f', 'F', 'b', 'B']) →
        ∃ t, unquote (letters ++ (delimiter ++ content ++ delimiter)) = some t ∧ Text.Trimmed t ∧
          ∃ before after, content = before ++ t ++ after ∧
            (∀ c ∈ before, Text.isBlank c = true) ∧ ∀ c ∈ after, Text.isBlank c = true)) ∧
    ∀ raw : List Char, (∀ c ∈ raw, isQuote c = false) → unquote raw = none := by
  refine ⟨fun letters delimiter content hletters hdelimiter hcontent => ?_,
    fun raw => unquote_eq_none_of_forall_not_isQuote⟩
  obtain ⟨quote, rest, hquote, hisQuote⟩ := exists_quote_of_mem_delimiters hdelimiter
  have hhead : ∀ c ∈ (delimiter ++ content ++ delimiter).head?, isQuote c = true := by
    rw [hquote]
    rintro c ⟨⟩
    exact hisQuote
  have hformat : ∀ c, isFormatLetter c = true ↔ c ∈ ['f', 'F', 'b', 'B'] := fun c => by
    simp [isFormatLetter, or_assoc]
  rw [unquote_append hletters hhead, findSome?_between_of_framed hdelimiter hcontent rfl]
  constructor
  · rintro ⟨c, hc, hmem⟩
    exact if_pos (List.any_eq_true.mpr ⟨c, hc, (hformat c).mpr hmem⟩)
  · intro hplain
    have hnone : ¬ letters.any isFormatLetter = true := fun hany => by
      obtain ⟨c, hc, hmem⟩ := List.any_eq_true.mp hany
      exact hplain c hc ((hformat c).mp hmem)
    exact ⟨Text.trimChars content, if_neg hnone, Text.trimmed_trimChars content,
      Text.exists_blanks_around_trimChars content⟩

/-- A content with a quote of either kind, the last of which stands right before the closing one, behind a
letter that does not matter. -/
theorem unquote_undoes_quoting_raw_literal :
    (∀ c ∈ ['r'], isQuote c = false ∧ c ∉ ['f', 'F', 'b', 'B']) ∧ ['"'] ∈ delimiters ∧
      ¬ ['"'] <+: " it's \"".toList ∧ (∀ c ∈ "plain".toList, isQuote c = false) ∧
      unquote "r\" it's \"\"".toList = some "it's \"".toList ∧
      (∃ t, unquote (['r'] ++ (['"'] ++ " it's \"".toList ++ ['"'])) = some t ∧ Text.Trimmed t ∧
        ∃ before after, " it's \"".toList = before ++ t ++ after ∧
          (∀ c ∈ before, Text.isBlank c = true) ∧ ∀ c ∈ after, Text.isBlank c = true) ∧
      unquote "plain".toList = none := by
  have hletters : ∀ c ∈ ['r'], isQuote c = false ∧ c ∉ ['f', 'F', 'b', 'B'] := by simp [isQuote]
  have hplain : ∀ c ∈ "plain".toList, isQuote c = false := by simp [isQuote]
  have hcontent : ¬ ['"'] <+: " it's \"".toList := by decide
  exact ⟨hletters, by decide, hcontent, hplain, by decide,
    (unquote_undoes_quoting.1 ['r'] ['"'] " it's \"".toList (fun c hc => (hletters c hc).1) (by decide)
      fun _ => hcontent).2 fun c hc => (hletters c hc).2,
    unquote_undoes_quoting.2 "plain".toList hplain⟩

/-- A content that begins with the quote around it may lose more than that quote. -/
example : unquote ("\"" ++ "\"\"a\"\"" ++ "\"").toList = some ['a'] := by decide

end CodeAtlas.Entity
