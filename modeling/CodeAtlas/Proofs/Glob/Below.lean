import CodeAtlas.Proofs.Glob.Language

/-!
# Patterns for all that is below a directory

Two stars behind a separator at the end of a pattern stand for all that is below a directory.  A pattern
that ends so and matches one path below a directory matches every path below it.  For other patterns one
path says nothing about the others.

## Main definitions

* `CodeAtlas.Glob.OpenEnded` — the tokens end with everything below a directory.
* `CodeAtlas.Glob.EndsInStars` — the text of a pattern ends with two stars that fill a component.

## Main results

* `CodeAtlas.Glob.Pattern.isMatch_below` — an open-ended pattern that matches one path below a directory
  matches all of them.
* `CodeAtlas.Glob.openEnded_of_parse` — a text that ends with such stars has an open-ended pattern.
-/

namespace CodeAtlas.Glob

/-! ## Open-ended patterns -/

/-- The tokens end with everything below a directory: they are two stars alone, or the last of them is
such a suffix. -/
def OpenEnded (tokens : List Token) : Prop :=
  tokens = [.recursivePrefix] ∨ ∃ ts, tokens = ts ++ [.recursiveSuffix]

/-- Tokens with such a suffix are not all literal. -/
lemma literals?_of_mem {ts : List Token} (h : .recursiveSuffix ∈ ts) : literals? ts = none := by
  induction ts with
  | nil => exact absurd h List.not_mem_nil
  | cons t rest ih =>
    cases t with
    | literal c =>
      have hrest : .recursiveSuffix ∈ rest := by simpa using h
      rw [literals?, ih hrest]
      rfl
    | _ => rfl

/-- They are no fixed name. -/
lemma isNamed_of_mem {ts : List Token} (h : .recursiveSuffix ∈ ts) : isNamed ts = false := by
  unfold isNamed
  split
  · next rest =>
    have hrest : .recursiveSuffix ∈ rest := by simpa using h
    rw [literals?_of_mem hrest]
  · rfl

/-- They are no name with a fixed extension. -/
lemma isExtension_of_mem (style : Style) {ts : List Token} (h : .recursiveSuffix ∈ ts) :
    isExtension style ts = false := by
  unfold isExtension
  split
  -- what follows leading components, or everything
  · dsimp only
    split
    · next ext =>
      have hext : .recursiveSuffix ∈ ext := by simpa using h
      rw [literals?_of_mem hext]
    · rfl
  · dsimp only
    split
    · next ext _ =>
      have hext : .recursiveSuffix ∈ ext := by simpa using h
      rw [literals?_of_mem hext]
    · rfl

/-- A pattern that ends with everything below a directory speaks of no file name. -/
lemma speaksOfName_append_recursiveSuffix (style : Style) (ts : List Token) :
    speaksOfName style (ts ++ [.recursiveSuffix]) = false := by
  have hmem : .recursiveSuffix ∈ ts ++ [.recursiveSuffix] := by simp
  have hends : endsWithExtension (ts ++ [.recursiveSuffix]) = false := by
    simp [endsWithExtension]
  simp [speaksOfName, isNamed_of_mem hmem, isExtension_of_mem style hmem, hends]

/-- A word that goes into a directory somewhere before its last component goes on with whatever comes in
that component's place.

**Proof sketch.** The word is split into a word of the language, a separator and anything.  The separator stands at
or before the one behind the directory, since after that one there is only the last byte, which is none.  So the
first part of the split is kept when the end of the word is exchanged. -/
lemma mem_mul_separator_top {l : ByteLanguage} {d : Bytes} {b : UInt8} (hb : b ≠ separator)
    (h : d ++ [separator, b] ∈ l * ({[separator]} * ⊤)) (rest : Bytes) :
    d ++ separator :: rest ∈ l * ({[separator]} * ⊤) := by
  have hmem : ∀ {a : Bytes}, a ∈ l → ∀ y, a ++ separator :: y ∈ l * ({[separator]} * ⊤) :=
    fun ha y => Language.append_mem_mul ha ⟨[separator], rfl, y, trivial, rfl⟩
  obtain ⟨a, ha, _, ⟨_, rfl, x, -, rfl⟩, heq⟩ := h
  rcases List.append_eq_append_iff.mp heq with ⟨u, rfl, hu⟩ | ⟨u, rfl, hu⟩
  -- the directory begins at or before the separator that follows `d`
  · cases u with
    | nil =>
      rw [List.append_nil]
      exact hmem ha rest
    | cons c u =>
      obtain rfl : separator = c := (List.cons.inj hu).1
      rw [List.append_assoc]
      exact hmem ha (u ++ separator :: rest)
  -- or within the last two bytes, where no other separator is
  · cases u with
    | nil =>
      rw [List.append_nil] at ha
      exact hmem ha rest
    | cons c u =>
      have hlast : separator ∈ [b] := by
        rw [(List.cons.inj hu).2]
        simp
      exact absurd (List.mem_singleton.mp hlast).symm hb

namespace Pattern

/-- **An open-ended pattern that matches one path below a directory matches all of them.**

**Proof sketch.** Two stars alone match everything.  Otherwise the pattern ends in a directory and anything below
it, so that membership in its language does not depend on the last component; and such a pattern does not speak of
the name of a file. -/
theorem isMatch_below {p : Pattern} (hp : OpenEnded p.tokens) {d : Bytes} {b : UInt8}
    (hb : b ≠ separator) (h : p.isMatch (d ++ [separator, b]) = true) (rest : Bytes) :
    p.isMatch (d ++ separator :: rest) = true := by
  rw [isMatch_iff] at h ⊢
  rcases hp with hp | ⟨ts, hp⟩
  · exact Or.inl hp
  · have hlang : language p.style p.tokens = language p.style ts * ({[separator]} * ⊤) := by
      rw [hp, language_append, language, language, tokenLanguage, mul_one]
    rw [hlang] at h ⊢
    rcases h with h | ⟨hmem, -⟩
    · exact Or.inl h
    · refine Or.inr ⟨mem_mul_separator_top hb hmem rest, fun hname => ?_⟩
      rw [hp, speaksOfName_append_recursiveSuffix] at hname
      exact Bool.false_ne_true hname.2

end Pattern

/-! ## Texts that end in two stars -/

/-- The two stars that may fill a component. -/
def twoStars : List Char := ['*', '*']

/-- The text ends with two stars that fill a component: they are all of it, or follow a separator. -/
def EndsInStars (text : List Char) : Prop := text = twoStars ∨ '/' :: twoStars <:+ text

instance (text : List Char) : Decidable (EndsInStars text) :=
  inferInstanceAs (Decidable (_ ∨ _))

/-- What follows another character than a separator still ends so. -/
lemma suffix_of_suffix_cons {c : Char} {rest : List Char} (h : '/' :: twoStars <:+ c :: rest)
    (hc : c ≠ '/') : '/' :: twoStars <:+ rest := by
  rcases List.suffix_cons_iff.mp h with heq | h
  · exact absurd (List.cons.inj heq).1.symm hc
  · exact h

/-- A class that is closed ends with its bracket, and then the rest follows. -/
lemma suffix_of_scanClass {s : ClassScan} {text : List Char} {ranges : List (Char × Char)}
    {after : List Char} (h : scanClass s text = .ok (some (ranges, after))) : ']' :: after <:+ text := by
  fun_induction scanClass s text with
  | case1 => simp at h
  | case2 s c rest hc =>
    obtain ⟨-, rfl⟩ : s.finish = ranges ∧ rest = after := by simpa using h
    rw [hc.1]
  | case3 => simp at h
  | case4 s c rest hc s' hs ih => exact (ih h).trans (List.suffix_cons c rest)

/-- No class reaches into the stars at the end. -/
lemma stars_suffix_of_scanClass {s : ClassScan} {text : List Char} {ranges : List (Char × Char)}
    {after : List Char} (hstars : '/' :: twoStars <:+ text)
    (h : scanClass s text = .ok (some (ranges, after))) : '/' :: twoStars <:+ after := by
  have hafter := suffix_of_scanClass h
  rcases List.suffix_or_suffix_of_suffix hstars hafter with hsuffix | hsuffix
  · exact suffix_of_suffix_cons hsuffix (by decide)
  · have hmem : ']' ∈ '/' :: twoStars := hsuffix.subset List.mem_cons_self
    exact absurd hmem (by decide)

namespace Scan

/-- Two stars that lead a sequence are only at its start. -/
def Led (s : Scan) : Prop := ∀ rest, s.current = .recursivePrefix :: rest → rest = []

/-- What is left of the text closes with two stars that fill a component: they come behind a separator
that is still to be read, or one that was read just now and has left a token. -/
def Closes (s : Scan) (previous : Option Char) (text : List Char) : Prop :=
  '/' :: twoStars <:+ text ∨ text = twoStars ∧ previous = some '/' ∧ s.current ≠ []

/-- The tokens that were read are open-ended. -/
def IsOpen (s : Scan) : Prop :=
  s.current = [.recursivePrefix] ∨ ∃ rest, s.current = .recursiveSuffix :: rest

/-- Another token than leading stars may follow any sequence. -/
lemma led_of_current {s : Scan} {t : Token} {rest : List Token} (hs : s.current = t :: rest)
    (ht : t ≠ .recursivePrefix) : s.Led := by
  intro rest' hrest
  rw [hs] at hrest
  exact absurd (List.cons.inj hrest).1 ht

/-- Stars that fill a component keep a sequence led. -/
lemma Led.pushRecursive {s : Scan} (h : s.Led) (last : Bool) : (s.pushRecursive last).Led := by
  unfold Scan.pushRecursive
  split
  · exact h
  · exact h
  · exact led_of_current rfl (by cases last <;> simp)
  · exact h

/-- They leave a token. -/
lemma current_pushRecursive_ne_nil {s : Scan} (h : s.current ≠ []) (last : Bool) :
    (s.pushRecursive last).current ≠ [] := by
  unfold Scan.pushRecursive
  split
  · exact h
  · exact h
  · exact List.cons_ne_nil _ _
  · exact h

/-- Two stars at the end make the sequence open-ended. -/
lemma Led.isOpen_pushRecursive {s : Scan} (h : s.Led) (hne : s.current ≠ []) :
    (s.pushRecursive true).IsOpen := by
  unfold Scan.pushRecursive
  split
  · next rest hs => exact Or.inl (by rw [hs, h rest hs])
  · next rest hs => exact Or.inr ⟨rest, hs⟩
  · next t rest _ _ hs => exact Or.inr ⟨rest, rfl⟩
  · next hs => exact absurd hs hne

/-- Behind a separator the rest closes with the stars, or is nothing but them. -/
lemma closes_after_separator {s : Scan} {rest : List Char} (h : '/' :: twoStars <:+ '/' :: rest)
    (hne : s.current ≠ []) : s.Closes (some '/') rest := by
  rcases List.suffix_cons_iff.mp h with heq | h
  · exact Or.inr ⟨(List.cons.inj heq).2.symm, rfl, hne⟩
  · exact Or.inl h

/-- A character that stands for itself keeps the text closing. -/
lemma closes_push_literal (s : Scan) {c : Char} {rest : List Char}
    (h : '/' :: twoStars <:+ c :: rest) : (s.push (.literal c)).Closes (some c) rest := by
  by_cases hc : c = '/'
  · subst hc
    exact closes_after_separator h (List.cons_ne_nil _ _)
  · exact Or.inl (suffix_of_suffix_cons h hc)

/-- **Two stars before the end keep the text closing.**

**Proof sketch.** By where the stars stand: at the beginning of the sequence, after a separator, or elsewhere.  The
two stars at the end of the text are still to come, so these are not at the end; what is read of them keeps a
leading token first, and the text that is left still ends in a separator and two stars. -/
lemma Led.of_scanStars {s s' : Scan} (h : s.Led) {previous previous' : Option Char}
    {after rest : List Char} (hstars : '/' :: twoStars <:+ after)
    (heq : scanStars s previous after = (s', previous', rest)) :
    s'.Led ∧ s'.Closes previous' rest ∧ rest.length ≤ after.length := by
  have hplain : s.pushStars.Led := led_of_current rfl (by simp)
  unfold scanStars at heq
  split at heq
  · next hempty =>
    split at heq
    · exact absurd hstars (by decide)
    · next c after =>
      split at heq
      -- the stars lead the sequence, and take the separator behind them
      · next hc =>
        obtain ⟨rfl, rfl, rfl⟩ : _ = s' ∧ _ = previous' ∧ after = rest := by simpa using heq
        have hled : (s.push .recursivePrefix).Led := by
          intro rest hrest
          rw [← (List.cons.inj hrest).2]
          exact List.isEmpty_iff.mp hempty
        rw [hc] at hstars
        exact ⟨hled, closes_after_separator hstars (List.cons_ne_nil _ _), Nat.le_succ _⟩
      · obtain ⟨rfl, rfl, rfl⟩ : _ = s' ∧ _ = previous' ∧ _ = rest := by simpa using heq
        exact ⟨hplain, Or.inl hstars, le_rfl⟩
  · next hne =>
    have hcurrent : s.current ≠ [] := fun hnil => hne (by rw [hnil]; rfl)
    split at heq
    · split at heq
      · exact absurd hstars (by decide)
      · next c after =>
        split at heq
        -- the stars fill a component, and take the separator behind them
        · next hc =>
          obtain ⟨rfl, rfl, rfl⟩ : _ = s' ∧ _ = previous' ∧ after = rest := by simpa using heq
          rw [hc] at hstars
          exact ⟨h.pushRecursive false,
            closes_after_separator hstars (current_pushRecursive_ne_nil hcurrent false), Nat.le_succ _⟩
        · split at heq
          · obtain ⟨rfl, rfl, rfl⟩ : _ = s' ∧ _ = previous' ∧ _ = rest := by simpa using heq
            exact ⟨h.pushRecursive true, Or.inl hstars, le_rfl⟩
          · obtain ⟨rfl, rfl, rfl⟩ : _ = s' ∧ _ = previous' ∧ _ = rest := by simpa using heq
            exact ⟨hplain, Or.inl hstars, le_rfl⟩
    · obtain ⟨rfl, rfl, rfl⟩ : _ = s' ∧ _ = previous' ∧ _ = rest := by simpa using heq
      exact ⟨hplain, Or.inl hstars, le_rfl⟩

/-- Two stars behind a separator and with nothing behind them end the sequence. -/
lemma scanStars_nil {s : Scan} (hne : s.current ≠ []) :
    scanStars s (some '/') [] = (s.pushRecursive true, none, []) := by
  have hcurrent : ¬s.current.isEmpty = true := fun h => hne (List.isEmpty_iff.mp h)
  rw [scanStars, if_neg hcurrent, if_pos (Or.inl rfl)]

/-- What follows any other character than a separator or a star closes as before. -/
lemma Closes.tail {s : Scan} {previous : Option Char} {c : Char} {rest : List Char}
    (h : s.Closes previous (c :: rest)) (hc : c ≠ '/') (hstar : c ≠ '*') :
    '/' :: twoStars <:+ rest := by
  rcases h with h | ⟨heq, -⟩
  · exact suffix_of_suffix_cons h hc
  · exact absurd (List.cons.inj heq).1 hstar

end Scan

/-- Nothing left leaves the tokens as they are. -/
lemma parseWithin_nil (style : Style) (fuel : Nat) (s : Scan) (previous : Option Char) :
    parseWithin style fuel s previous [] = .ok s := by
  cases fuel <;> rfl

/-- **What is read of a closing text is open-ended.**

**Proof sketch.** Induction along the reading.  Each token that is read leaves a shorter text that still closes
with the stars, and a sequence that is still led.  Only the stars at the end have nothing behind them, and
there the last token becomes the suffix, unless leading stars are the only token. -/
theorem isOpen_of_parseWithin {style : Style} {fuel : Nat} {s s' : Scan} {previous : Option Char}
    {text : List Char} (hled : s.Led) (hcloses : s.Closes previous text) (hfuel : text.length < fuel)
    (h : parseWithin style fuel s previous text = .ok s') : s'.IsOpen := by
  fun_induction parseWithin style fuel s previous text with
  | case1 => exact absurd hfuel (Nat.not_lt_zero _)
  -- the end of the text
  | case2 =>
    rcases hcloses with hstars | ⟨heq, -⟩
    · exact absurd hstars (by decide)
    · exact absurd heq (by decide)
  -- a question mark
  | case3 fuel s previous rest ih =>
    have hrest := hcloses.tail (by decide) (by decide)
    exact ih (Scan.led_of_current rfl (by simp)) (Or.inl hrest) (by simpa using hfuel) h
  -- two stars
  | case4 fuel s previous after s₁ previous₁ rest hscan _ ih =>
    rcases hcloses with hstars | ⟨heq, hprevious, hne⟩
    · have hafter := suffix_of_suffix_cons (suffix_of_suffix_cons hstars (by decide)) (by decide)
      obtain ⟨hled₁, hcloses₁, hlength⟩ := hled.of_scanStars hafter hscan
      simp only [List.length_cons] at hfuel
      exact ih hled₁ hcloses₁ (by omega) h
    -- nothing is left behind the stars
    · obtain rfl : after = [] := (List.cons.inj (List.cons.inj heq).2).2
      rw [hprevious, Scan.scanStars_nil hne] at hscan
      obtain ⟨rfl, -, rfl⟩ : s.pushRecursive true = s₁ ∧ none = previous₁ ∧ [] = rest := by
        simpa using hscan
      rw [parseWithin_nil] at h
      rw [← Except.ok.inj h]
      exact hled.isOpen_pushRecursive hne
  -- a single star
  | case5 fuel s previous rest hsingle _ ih =>
    rcases hcloses with hstars | ⟨heq, -⟩
    · have hrest := suffix_of_suffix_cons hstars (by decide)
      exact ih (Scan.led_of_current rfl (by simp)) (Or.inl hrest) (by simpa using hfuel) h
    · exact (hsingle [] (List.cons.inj heq).2).elim
  -- a class, or a bracket that is plain text
  | case6 => simp at h
  | case7 fuel s previous c rest _ hstar hc negated body hbody ranges after hclass ih =>
    have hrest := hcloses.tail (by rw [hc.1]; decide) hstar
    have hstars : '/' :: twoStars <:+ body ∧ body.length ≤ rest.length := by
      split at hbody
      · obtain ⟨-, rfl⟩ := Prod.mk.inj hbody
        exact ⟨suffix_of_suffix_cons hrest (by decide), Nat.le_succ _⟩
      · obtain ⟨-, rfl⟩ := Prod.mk.inj hbody
        exact ⟨suffix_of_suffix_cons hrest (by decide), Nat.le_succ _⟩
      · obtain ⟨-, rfl⟩ := Prod.mk.inj hbody
        exact ⟨hrest, le_rfl⟩
    have hafter := stars_suffix_of_scanClass hstars.1 hclass
    have hlength := (suffix_of_scanClass hclass).length_le
    simp only [List.length_cons] at hfuel hlength
    exact ih (Scan.led_of_current rfl (by simp)) (Or.inl hafter) (by omega) h
  | case8 fuel s previous c rest _ hstar hc negated body _ _ _ ih =>
    have hrest := hcloses.tail (by rw [hc.1]; decide) hstar
    exact ih (Scan.led_of_current rfl (by simp)) (Or.inl hrest) (by simpa using hfuel) h
  | case9 => simp at h
  -- a group begins
  | case10 fuel s previous rest _ _ _ ih =>
    have hrest := hcloses.tail (by decide) (by decide)
    exact ih (by simp [Scan.Led]) (Or.inl hrest) (by simpa using hfuel) h
  -- a group ends
  | case11 => simp at h
  | case12 fuel s previous rest g groups _ branches _ _ _ _ ih =>
    have hrest := hcloses.tail (by decide) (by decide)
    exact ih (Scan.led_of_current rfl (by simp)) (Or.inl hrest) (by simpa using hfuel) h
  -- a comma, outside of groups and inside
  | case13 fuel s previous rest _ _ _ _ _ _ ih =>
    have hrest := hcloses.tail (by decide) (by decide)
    exact ih (Scan.led_of_current rfl (by simp)) (Or.inl hrest) (by simpa using hfuel) h
  | case14 fuel s previous rest g groups _ _ _ _ _ _ ih =>
    have hrest := hcloses.tail (by decide) (by decide)
    exact ih (by simp [Scan.Led]) (Or.inl hrest) (by simpa using hfuel) h
  -- an escape
  | case15 => simp at h
  | case16 fuel s previous d after _ _ _ _ _ _ ih =>
    have hrest := hcloses.tail (by decide) (by decide)
    simp only [List.length_cons] at hfuel
    exact ih (Scan.led_of_current rfl (by simp)) (s.closes_push_literal hrest) (by omega) h
  -- any other character
  | case17 fuel s previous c rest _ hstar _ _ _ _ _ ih =>
    rcases hcloses with hstars | ⟨heq, -⟩
    · exact ih (Scan.led_of_current rfl (by simp)) (s.closes_push_literal hstars)
        (by simpa using hfuel) h
    · exact absurd (List.cons.inj heq).1 hstar

/-- **A text that ends with stars that fill a component has an open-ended pattern.**

**Proof sketch.** Two stars alone give the token that matches everything.  Otherwise the text closes at every step
of the scanner, so the last token that is pushed is the one for everything below. -/
theorem openEnded_of_parse {style : Style} {text : List Char} (htext : EndsInStars text)
    {tokens : List Token} (h : parse style text = .ok tokens) : OpenEnded tokens := by
  rcases htext with rfl | hstars
  · left
    have hparse : parse style twoStars = .ok [.recursivePrefix] := rfl
    exact (Except.ok.inj (hparse.symm.trans h)).symm
  · unfold parse at h
    split at h
    · exact absurd h (by simp)
    · next s hs =>
      have hopen : s.IsOpen :=
        isOpen_of_parseWithin (fun rest hrest => by simp at hrest) (Or.inl hstars) (Nat.lt_succ_self _) hs
      split at h
      · obtain rfl : s.current.reverse = tokens := by simpa using h
        rcases hopen with hs | ⟨rest, hs⟩
        · exact Or.inl (by rw [hs]; rfl)
        · exact Or.inr ⟨rest.reverse, by rw [hs, List.reverse_cons]⟩
      · exact absurd h (by simp)

/-- So has the pattern that is made of it. -/
lemma Pattern.openEnded_of_ofString {style : Style} {text : String} (htext : EndsInStars text.toList)
    {p : Pattern} (h : ofString style text = .ok p) : OpenEnded p.tokens := by
  unfold ofString at h
  cases hparse : parse style text.toList with
  | error f =>
    rw [hparse] at h
    simp [Except.map] at h
  | ok tokens =>
    rw [hparse] at h
    rw [← Except.ok.inj h]
    exact openEnded_of_parse htext hparse

end CodeAtlas.Glob
