import Mathlib.Computability.Language
import CodeAtlas.Glob.Match

/-!
# The language of a glob pattern

A token stands for a language of bytes, and tokens in sequence for the product of their languages.  The
remainders that matching computes are exactly what is left of the bytes behind a word of that language.

## Main definitions

* `CodeAtlas.Glob.tokenLanguage`, `CodeAtlas.Glob.language` — what a token, and tokens in sequence, stand
  for.

## Main results

* `CodeAtlas.Glob.mem_remainder_iff` — a token leaves what follows a word of its language.
* `CodeAtlas.Glob.mem_remainders_iff` — so do tokens in sequence.
* `CodeAtlas.Glob.language_append` — the language of a sequence is the product of those of its parts.
* `CodeAtlas.Glob.Pattern.isMatch_iff` — a pattern matches the words of its language.
-/

/-- A language of bytes. -/
abbrev ByteLanguage : Type := Language UInt8

namespace CodeAtlas.Glob

/-! ## Languages -/

/-- A star can stand for the byte. -/
def Style.wild (style : Style) (b : UInt8) : Bool := !(style.literalSeparator && b == separator)

/-- A single byte of some kind. -/
def singleByteLanguage (p : UInt8 → Bool) : ByteLanguage := {w | ∃ b, p b = true ∧ w = [b]}

/-- Any number of whole components, each with the separator behind it. -/
def componentsLanguage : ByteLanguage := {w | w = [] ∨ ∃ u, w = u ++ [separator]}

mutual

/-- The words for which a token stands. -/
def tokenLanguage (style : Style) : Token → ByteLanguage
  | .literal c => {charBytes c}
  | .any => singleByteLanguage style.wild
  | .zeroOrMore => {w | ∀ b ∈ w, style.wild b = true}
  | .recursivePrefix => componentsLanguage
  | .recursiveSuffix => {[separator]} * ⊤
  | .recursiveZeroOrMore => {[separator]} * componentsLanguage
  | .charClass negated ranges => singleByteLanguage fun b => ranges.any (inRange b) != negated
  | .alternates branches => if areVoid branches then 1 else alternativesLanguage style branches

/-- The words for which one of some alternatives stands; those that are void do not count. -/
def alternativesLanguage (style : Style) : List (List Token) → ByteLanguage
  | [] => 0
  | b :: rest => (if isVoid b then 0 else language style b) + alternativesLanguage style rest

/-- The words for which tokens in sequence stand. -/
def language (style : Style) : List Token → ByteLanguage
  | [] => 1
  | t :: rest => tokenLanguage style t * language style rest

end

/-- The language of a sequence is the product of those of its parts. -/
lemma language_append (style : Style) (ts us : List Token) :
    language style (ts ++ us) = language style ts * language style us := by
  induction ts with
  | nil => rw [List.nil_append, language, one_mul]
  | cons t rest ih => rw [List.cons_append, language, language, ih, mul_assoc]

/-! ## Parts of matching -/

/-- What follows the lead is left. -/
lemma dropLead_eq_some_iff (lead bytes r : Bytes) :
    dropLead lead bytes = some r ↔ lead ++ r = bytes := by
  fun_induction dropLead lead bytes with
  | case1 bytes => rw [Option.some_inj, List.nil_append, eq_comm]
  | case2 a lead bytes ih => rw [ih, List.cons_append, List.cons.injEq, and_iff_right rfl]
  | case3 a lead b bytes hne => simp [hne]
  | case4 => simp

/-- The tails are what follows bytes that satisfy the condition. -/
lemma mem_tails_iff (p : UInt8 → Bool) (bytes r : Bytes) :
    r ∈ tails p bytes ↔ ∃ w, (∀ b ∈ w, p b = true) ∧ w ++ r = bytes := by
  induction bytes with
  | nil => simp [tails]
  | cons b bytes ih =>
    rw [tails, List.mem_cons]
    constructor
    · rintro (rfl | hr)
      · exact ⟨[], by simp, rfl⟩
      · by_cases hb : p b = true
        · rw [if_pos hb, ih] at hr
          obtain ⟨w, hw, rfl⟩ := hr
          exact ⟨b :: w, by simpa [hb] using hw, rfl⟩
        · rw [if_neg hb] at hr
          exact absurd hr List.not_mem_nil
    · rintro ⟨w, hw, heq⟩
      cases w with
      | nil => exact Or.inl heq
      | cons a w =>
        obtain ⟨rfl, rfl⟩ := List.cons.inj heq
        obtain ⟨ha, hw⟩ := List.forall_mem_cons.mp hw
        rw [if_pos ha, ih]
        exact Or.inr ⟨w, hw, rfl⟩

/-- What follows a separator. -/
lemma mem_afterSeparators_iff (bytes r : Bytes) :
    r ∈ afterSeparators bytes ↔ ∃ u, u ++ separator :: r = bytes := by
  induction bytes with
  | nil => simp [afterSeparators]
  | cons b bytes ih =>
    have hcons : (∃ u, u ++ separator :: r = b :: bytes) ↔
        (b = separator ∧ r = bytes) ∨ ∃ u, u ++ separator :: r = bytes := by
      constructor
      · rintro ⟨u, heq⟩
        cases u with
        | nil =>
          obtain ⟨hb, hr⟩ := List.cons.inj heq
          exact Or.inl ⟨hb.symm, hr⟩
        | cons a u => exact Or.inr ⟨u, (List.cons.inj heq).2⟩
      · rintro (⟨rfl, rfl⟩ | ⟨u, rfl⟩)
        · exact ⟨[], rfl⟩
        · exact ⟨b :: u, rfl⟩
    rw [hcons, afterSeparators]
    by_cases hb : b = separator
    · simp [hb, ih]
    · simp [hb, ih]

/-- What follows leading components: everything, or what follows a separator. -/
lemma mem_cons_afterSeparators_iff (bytes r : Bytes) :
    r ∈ bytes :: afterSeparators bytes ↔ ∃ w ∈ componentsLanguage, w ++ r = bytes := by
  rw [List.mem_cons, mem_afterSeparators_iff]
  constructor
  · rintro (rfl | ⟨u, rfl⟩)
    · exact ⟨[], Or.inl rfl, rfl⟩
    · exact ⟨u ++ [separator], Or.inr ⟨u, rfl⟩, List.append_assoc u [separator] r⟩
  · rintro ⟨w, rfl | ⟨u, rfl⟩, rfl⟩
    · exact Or.inl rfl
    · exact Or.inr ⟨u, (List.append_assoc u [separator] r).symm⟩

/-- A single byte does not stand at the end. -/
lemma not_exists_mem_singleByteLanguage (p : UInt8 → Bool) (r : Bytes) :
    ¬∃ w ∈ singleByteLanguage p, w ++ r = [] := by
  rintro ⟨w, ⟨b, -, rfl⟩, h⟩
  exact List.cons_ne_nil _ _ h

/-- What follows a single byte. -/
lemma mem_ite_iff_exists_mem_singleByteLanguage (p : UInt8 → Bool) (b : UInt8) (bytes r : Bytes) :
    r ∈ (if p b then [bytes] else []) ↔ ∃ w ∈ singleByteLanguage p, w ++ r = b :: bytes := by
  constructor
  · intro hr
    by_cases hb : p b = true
    · rw [if_pos hb, List.mem_singleton] at hr
      exact ⟨[b], ⟨b, hb, rfl⟩, congrArg (b :: ·) hr⟩
    · rw [if_neg hb] at hr
      exact absurd hr List.not_mem_nil
  · rintro ⟨w, ⟨a, ha, rfl⟩, h⟩
    obtain ⟨rfl, rfl⟩ := List.cons.inj h
    rw [if_pos ha]
    exact List.mem_singleton_self _

/-- What follows a separator and a word of some language. -/
lemma exists_mem_separator_mul_iff (l : ByteLanguage) (bytes r : Bytes) :
    (∃ w ∈ {[separator]} * l, w ++ r = bytes) ↔
      ∃ rest, separator :: rest = bytes ∧ ∃ w ∈ l, w ++ r = rest := by
  constructor
  · rintro ⟨_, ⟨_, rfl, w, hw, rfl⟩, rfl⟩
    exact ⟨w ++ r, rfl, w, hw, rfl⟩
  · rintro ⟨_, rfl, w, hw, rfl⟩
    exact ⟨separator :: w, ⟨_, rfl, w, hw, rfl⟩, rfl⟩

/-- **Ends of the same bytes stay when each length is kept once.**

**Proof sketch.** Two ends of the same bytes that have the same length are equal.  So when an end is left out
because one of its length was seen, it was seen itself. -/
lemma mem_distinct_iff {whole : Bytes} {rests : List Bytes} (h : ∀ x ∈ rests, x <:+ whole)
    (r : Bytes) : r ∈ distinct rests ↔ r ∈ rests := by
  -- the induction is on the list that is still to be read; what was seen is an end with its length
  have hfold : ∀ (seen : List (Nat × Bytes)) (rests : List Bytes),
      (∀ s ∈ seen, s.1 = s.2.length ∧ s.2 <:+ whole) → (∀ x ∈ rests, x <:+ whole) →
      (r ∈ (rests.foldl (fun (seen : List (Nat × Bytes)) r =>
        if seen.any fun s => s.1 == r.length then seen else (r.length, r) :: seen) seen).map Prod.snd ↔
        r ∈ seen.map Prod.snd ∨ r ∈ rests) := by
    intro seen rests hseen hrests
    induction rests generalizing seen with
    | nil => simp
    | cons x rest ih =>
      obtain ⟨hx, hrest⟩ := List.forall_mem_cons.mp hrests
      rw [List.foldl_cons, List.mem_cons]
      by_cases hany : (seen.any fun s => s.1 == x.length) = true
      · rw [if_pos hany, ih seen hseen hrest]
        obtain ⟨s, hs, hlen⟩ := List.any_eq_true.mp hany
        obtain ⟨hlength, hend⟩ := hseen s hs
        have hsx : s.2 = x := by
          have heq : s.2.length = x.length := by rw [← hlength, eq_of_beq hlen]
          exact (List.suffix_of_suffix_length_le hend hx heq.le).eq_of_length heq
        have hmem : x ∈ seen.map Prod.snd := hsx ▸ List.mem_map_of_mem hs
        constructor
        · rintro (hr | hr)
          · exact Or.inl hr
          · exact Or.inr (Or.inr hr)
        · rintro (hr | rfl | hr)
          · exact Or.inl hr
          · exact Or.inl hmem
          · exact Or.inr hr
      · have hseen' : ∀ s ∈ (x.length, x) :: seen, s.1 = s.2.length ∧ s.2 <:+ whole :=
          List.forall_mem_cons.mpr ⟨⟨rfl, hx⟩, hseen⟩
        rw [if_neg hany, ih _ hseen' hrest, List.map_cons, List.mem_cons]
        tauto
  rw [distinct, hfold [] rests (by simp) h]
  simp

/-! ## Matching finds the words of the language -/

mutual

/-- **A token leaves what follows a word of its language.**

**Proof sketch.** By the kinds of tokens, each with the lemma about its language: a single byte, any number of
bytes, or leading components.  For alternatives, which hold tokens in turn, the three statements are proved by one
recursion. -/
theorem mem_remainder_iff (style : Style) : ∀ (t : Token) (bytes r : Bytes),
    r ∈ remainder style t bytes ↔ ∃ w ∈ tokenLanguage style t, w ++ r = bytes
  | .literal c, bytes, r => by
    rw [remainder, Option.mem_toList, dropLead_eq_some_iff, tokenLanguage]
    exact ⟨fun h => ⟨_, rfl, h⟩, fun ⟨w, hw, h⟩ => hw ▸ h⟩
  | .any, [], r => by
    rw [remainder, tokenLanguage]
    exact iff_of_false List.not_mem_nil (not_exists_mem_singleByteLanguage style.wild r)
  | .any, b :: bytes, r => by
    have hwild : remainder style .any (b :: bytes) = if style.wild b then [bytes] else [] := by
      rw [remainder, Style.wild]
      cases style.literalSeparator && b == separator <;> rfl
    rw [hwild, tokenLanguage]
    exact mem_ite_iff_exists_mem_singleByteLanguage style.wild b bytes r
  | .zeroOrMore, bytes, r => by
    rw [remainder, tokenLanguage]
    exact mem_tails_iff style.wild bytes r
  | .recursivePrefix, bytes, r => by
    rw [remainder, tokenLanguage]
    exact mem_cons_afterSeparators_iff bytes r
  | .recursiveSuffix, bytes, r => by
    rw [tokenLanguage, exists_mem_separator_mul_iff]
    cases bytes with
    | nil => simp [remainder]
    | cons b bytes =>
      by_cases hb : b = separator
      · rw [remainder, if_pos hb, mem_tails_iff, hb]
        constructor
        · rintro ⟨w, -, h⟩
          exact ⟨bytes, rfl, w, trivial, h⟩
        · rintro ⟨rest, heq, w, -, h⟩
          exact ⟨w, fun _ _ => rfl, h.trans (List.cons.inj heq).2⟩
      · simp [remainder, hb, Ne.symm hb]
  | .recursiveZeroOrMore, bytes, r => by
    rw [tokenLanguage, exists_mem_separator_mul_iff]
    cases bytes with
    | nil => simp [remainder]
    | cons b bytes =>
      by_cases hb : b = separator
      · rw [remainder, if_pos hb, mem_cons_afterSeparators_iff, hb]
        constructor
        · exact fun h => ⟨bytes, rfl, h⟩
        · rintro ⟨rest, heq, h⟩
          rwa [← (List.cons.inj heq).2]
      · simp [remainder, hb, Ne.symm hb]
  | .charClass negated ranges, [], r => by
    rw [remainder, tokenLanguage]
    exact iff_of_false List.not_mem_nil (not_exists_mem_singleByteLanguage _ r)
  | .charClass negated ranges, b :: bytes, r => by
    rw [remainder, tokenLanguage]
    exact mem_ite_iff_exists_mem_singleByteLanguage (fun b => ranges.any (inRange b) != negated) b bytes r
  | .alternates branches, bytes, r => by
    have hbranches := mem_branchRemainders_iff style branches bytes
    rw [remainder, tokenLanguage]
    by_cases hvoid : areVoid branches = true
    · rw [if_pos hvoid, if_pos hvoid, List.mem_singleton]
      constructor
      · rintro rfl
        exact ⟨[], rfl, rfl⟩
      · rintro ⟨w, rfl, h⟩
        exact h
    · have hends : ∀ x ∈ branchRemainders style branches bytes, x <:+ bytes := by
        intro x hx
        obtain ⟨w, -, h⟩ := (hbranches x).mp hx
        exact ⟨w, h⟩
      rw [if_neg hvoid, if_neg hvoid, mem_distinct_iff hends, hbranches]

/-- **One of some alternatives leaves what follows a word of their language.**

**Proof sketch.** Induction on the alternatives.  A void one leaves nothing, and stands for no word; any other
leaves what its tokens leave. -/
theorem mem_branchRemainders_iff (style : Style) : ∀ (branches : List (List Token)) (bytes r : Bytes),
    r ∈ branchRemainders style branches bytes ↔
      ∃ w ∈ alternativesLanguage style branches, w ++ r = bytes
  | [], bytes, r => by
    rw [branchRemainders, alternativesLanguage]
    refine iff_of_false List.not_mem_nil ?_
    rintro ⟨w, hw, -⟩
    exact Language.notMem_zero w hw
  | b :: rest, bytes, r => by
    have hb := mem_remainders_iff style b (List.forall_mem_singleton.mpr (List.suffix_refl bytes)) r
    have hrest := mem_branchRemainders_iff style rest bytes r
    rw [branchRemainders, alternativesLanguage, List.mem_append, hrest]
    by_cases hvoid : isVoid b = true
    · rw [if_pos hvoid, if_pos hvoid, zero_add]
      simp
    · rw [if_neg hvoid, if_neg hvoid, hb]
      simp only [List.mem_singleton, exists_eq_left, Language.mem_add, or_and_right, exists_or]

/-- **Tokens in sequence leave what follows a word of their language**, if all starts are ends of the
same bytes.

**Proof sketch.** Induction on the tokens.  What the first of them leaves are ends of the same bytes again, so that
taking each of them once loses none; and a word of the sequence is one of the first token followed by one of the
rest. -/
theorem mem_remainders_iff (style : Style) : ∀ (tokens : List Token) {whole : Bytes}
    {starts : List Bytes}, (∀ x ∈ starts, x <:+ whole) → ∀ r,
    (r ∈ remainders style tokens starts ↔
      ∃ bytes ∈ starts, ∃ w ∈ language style tokens, w ++ r = bytes)
  | [], whole, starts, _, r => by
    rw [remainders, language]
    constructor
    · exact fun hr => ⟨r, hr, [], rfl, rfl⟩
    · rintro ⟨bytes, hbytes, w, rfl, rfl⟩
      exact hbytes
  | t :: rest, whole, starts, hstarts, r => by
    have ht := mem_remainder_iff style t
    have hends : ∀ x ∈ starts.flatMap fun bytes => remainder style t bytes, x <:+ whole := by
      intro x hx
      obtain ⟨bytes, hbytes, hx⟩ := List.mem_flatMap.mp hx
      obtain ⟨w, -, rfl⟩ := (ht bytes x).mp hx
      exact (List.suffix_append w x).trans (hstarts _ hbytes)
    have hdistinct := mem_distinct_iff hends
    have hrest := mem_remainders_iff style rest fun x hx => hends x ((hdistinct x).mp hx)
    rw [remainders, hrest, language]
    constructor
    · rintro ⟨x, hx, v, hv, rfl⟩
      obtain ⟨bytes, hbytes, hx⟩ := List.mem_flatMap.mp ((hdistinct _).mp hx)
      obtain ⟨w, hw, h⟩ := (ht bytes _).mp hx
      exact ⟨bytes, hbytes, w ++ v, Language.append_mem_mul hw hv, by rw [List.append_assoc, h]⟩
    · rintro ⟨bytes, hbytes, _, ⟨w, hw, v, hv, rfl⟩, rfl⟩
      refine ⟨v ++ r, (hdistinct _).mpr (List.mem_flatMap.mpr ⟨_, hbytes, ?_⟩), v, hv, rfl⟩
      exact (ht _ _).mpr ⟨w, hw, (List.append_assoc w v r).symm⟩

end

/-- The tokens leave nothing of the words of their language. -/
lemma any_isEmpty_remainders_iff (style : Style) (tokens : List Token) (path : Bytes) :
    (remainders style tokens [path]).any List.isEmpty = true ↔ path ∈ language style tokens := by
  have hempty : (remainders style tokens [path]).any List.isEmpty = true ↔
      [] ∈ remainders style tokens [path] := by
    simp only [List.any_eq_true, List.isEmpty_iff, exists_eq_right]
  rw [hempty, mem_remainders_iff style tokens (List.forall_mem_singleton.mpr (List.suffix_refl path))]
  simp only [List.mem_singleton, exists_eq_left, List.append_nil, exists_eq_right]

namespace Pattern

/-- **A pattern matches the words of its language**, unless it speaks of the name of a file and the path
names none.  The exception are two stars alone, which match everything. -/
theorem isMatch_iff (p : Pattern) (path : Bytes) :
    p.isMatch path = true ↔
      p.tokens = [.recursivePrefix] ∨
        path ∈ language p.style p.tokens ∧
          ¬(namesNoFile path = true ∧ speaksOfName p.style p.tokens = true) := by
  rw [isMatch]
  split
  · next heq => simp [heq]
  · next tokens hne =>
    rw [← any_isEmpty_remainders_iff, or_iff_right hne]
    by_cases hname : namesNoFile path = true ∧ speaksOfName p.style p.tokens = true
    · simp [hname]
    · have hname' : ¬(namesNoFile path && speaksOfName p.style p.tokens) = true := by
        simpa using hname
      rw [if_neg hname', and_iff_left hname]

end Pattern

end CodeAtlas.Glob
