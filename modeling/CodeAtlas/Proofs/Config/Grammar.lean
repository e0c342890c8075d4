import Mathlib.Order.Nat
import CodeAtlas.Config.Variable

/-!
# How values are written in variables

A grammar for the texts of environment variables.  The words `true` and `false`, tables in braces, lists in
brackets, quoted texts and quoted characters are marked by how they begin; any other value is a run of loose
characters up to the next comma, bracket or brace.

The scanner counts its steps down from a bound that is computed from the length of the text.  Each part takes at
least one character, so the bound is never reached: the scanner finds a value exactly if the grammar derives one.

## Main definitions

* `CodeAtlas.Config.Variable.Quoted` — what stands between quotes.
* `CodeAtlas.Config.Variable.Written` — how a value is written.
* `CodeAtlas.Config.Variable.Complete` — a text that is a value as a whole.

## Main results

* `CodeAtlas.Config.Variable.scanQuoted_eq_some_iff`, `CodeAtlas.Config.Variable.scanKey_eq_some_iff` — texts and
  keys.
* `CodeAtlas.Config.Variable.scanWithin_sound`, `CodeAtlas.Config.Variable.Written.found` — the scanner follows the
  grammar.
* `CodeAtlas.Config.Variable.read_of_complete`, `CodeAtlas.Config.Variable.read_of_not_complete` — the value of a
  text.
-/

namespace CodeAtlas.Config.Variable

/-! ## Texts and keys -/

/-- **What stands between quotes**: the characters up to the closing quote are a text, and what follows it. -/
inductive Quoted : List Char → List Char → List Char → Prop
  | close (rest : List Char) : Quoted ('"' :: rest) [] rest
  | plain {c : Char} {cs s rest : List Char} (hquote : c ≠ '"') (hbackslash : c ≠ '\\') (h : Quoted cs s rest) :
      Quoted (c :: cs) (c :: s) rest
  | escape {e x : Char} {cs s rest : List Char} (hx : Toml.simpleEscape e = some x) (h : Quoted cs s rest) :
      Quoted ('\\' :: e :: cs) (x :: s) rest
  | short {a b c d x : Char} {cs s rest : List Char} (hx : Toml.scalar? [a, b, c, d] = some x)
      (h : Quoted cs s rest) : Quoted ('\\' :: 'u' :: a :: b :: c :: d :: cs) (x :: s) rest
  | long {a b c d e f g i x : Char} {cs s rest : List Char} (hx : Toml.scalar? [a, b, c, d, e, f, g, i] = some x)
      (h : Quoted cs s rest) : Quoted ('\\' :: 'U' :: a :: b :: c :: d :: e :: f :: g :: i :: cs) (x :: s) rest

/-- The scanner of quoted texts finds what stands between the quotes.

**Proof sketch.** Induction along the scanner.  Each of its steps takes a character or an escape, which is a rule of
the grammar, and puts what it stands for before what is read later.  A backslash that begins no escape is refused,
so a character taken as it is was none. -/
lemma scanQuoted_sound {read cs : List Char} {text : String} {rest : List Char}
    (h : scanQuoted read cs = some (text, rest)) :
    ∃ s, text = String.ofList (read.reverse ++ s) ∧ Quoted cs s rest := by
  fun_induction scanQuoted read cs with
  | case1 => cases h
  | case2 read after =>
    cases h
    exact ⟨[], by simp, .close _⟩
  | case3 read a b c d after x hx ih =>
    obtain ⟨s, rfl, hs⟩ := ih h
    exact ⟨x :: s, by simp, .short hx hs⟩
  | case4 => cases h
  | case5 read a b c d e f g i after x hx ih =>
    obtain ⟨s, rfl, hs⟩ := ih h
    exact ⟨x :: s, by simp, .long hx hs⟩
  | case6 => cases h
  | case7 read e after hshort hlong x hx ih =>
    obtain ⟨s, rfl, hs⟩ := ih h
    exact ⟨x :: s, by simp, .escape hx hs⟩
  | case8 => cases h
  | case9 read c after hquote hshort hlong hescape ih =>
    obtain ⟨s, rfl, hs⟩ := ih h
    refine ⟨c :: s, by simp, .plain (by simpa using hquote) ?_ hs⟩
    rintro rfl
    -- a backslash at the end leaves the text open
    cases after with
    | nil => cases hs
    | cons e after => exact hescape e after rfl rfl

/-- What stands between quotes is found by the scanner.

**Proof sketch.** Induction on how the text is written.  Each rule is one step of the scanner; what has to be shown
is that no earlier case of the scanner takes the same characters, which the side conditions of the rules exclude. -/
lemma Quoted.scan {cs s rest : List Char} (h : Quoted cs s rest) (read : List Char) :
    scanQuoted read cs = some (String.ofList (read.reverse ++ s), rest) := by
  induction h generalizing read with
  | close rest => simp [scanQuoted]
  | @plain c cs s rest hquote hbackslash _ ih =>
    rw [scanQuoted, ih]
    · simp
    · exact hquote
    · rintro a b c' d after rfl
      exact absurd rfl hbackslash
    · rintro a b c' d e f g i after rfl
      exact absurd rfl hbackslash
    · rintro e after rfl
      exact absurd rfl hbackslash
  | @escape e x cs s rest hx _ ih =>
    have hu : e ≠ 'u' := by
      rintro rfl
      cases hx
    have hU : e ≠ 'U' := by
      rintro rfl
      cases hx
    rw [scanQuoted, hx]
    · dsimp only
      rw [ih]
      simp
    · rintro a b c d after rfl
      exact absurd rfl hu
    · rintro a b c d e' f g i after rfl
      exact absurd rfl hU
  | short hx _ ih =>
    rw [scanQuoted, hx]
    dsimp only
    rw [ih]
    simp
  | long hx _ ih =>
    rw [scanQuoted, hx]
    dsimp only
    rw [ih]
    simp

/-- **The scanner of quoted texts** finds what stands between the quotes. -/
theorem scanQuoted_eq_some_iff (cs : List Char) (text : String) (rest : List Char) :
    scanQuoted [] cs = some (text, rest) ↔ Quoted cs text.toList rest := by
  constructor
  · intro h
    obtain ⟨s, rfl, hs⟩ := scanQuoted_sound h
    simpa using hs
  · intro h
    simpa using h.scan []

/-- A quoted text is shorter than its notation, and something follows only after it. -/
lemma Quoted.length_lt {cs s rest : List Char} (h : Quoted cs s rest) : s.length + rest.length < cs.length := by
  induction h with
  | close rest => simp
  | plain _ _ _ ih => simp only [List.length_cons]; omega
  | escape _ _ ih => simp only [List.length_cons]; omega
  | short _ _ ih => simp only [List.length_cons]; omega
  | long _ _ ih => simp only [List.length_cons]; omega

/-- **A run of characters** of one class, up to the first of another class or the end. -/
structure Run (p : Char → Bool) (cs run rest : List Char) : Prop where
  eq_append : cs = run ++ rest
  all : ∀ c ∈ run, p c = true
  stop : ∀ c ∈ rest.head?, p c = false

/-- There is one run. -/
lemma run_iff {p : Char → Bool} {cs run rest : List Char} :
    Run p cs run rest ↔ cs.takeWhile p = run ∧ cs.dropWhile p = rest := by
  constructor
  · rintro ⟨rfl, hall, hstop⟩
    have hrest : rest.takeWhile p = [] ∧ rest.dropWhile p = rest := by
      cases rest with
      | nil => simp
      | cons c rest => simp [hstop c (by simp)]
    rw [List.takeWhile_append_of_pos hall, List.dropWhile_append_of_pos hall, hrest.1, hrest.2]
    simp
  · rintro ⟨rfl, rfl⟩
    refine ⟨List.takeWhile_append_dropWhile.symm, List.all_eq_true.mp List.all_takeWhile, fun c hc => ?_⟩
    have hstop := List.head?_dropWhile_not p cs
    rw [Option.mem_def.mp hc] at hstop
    exact hstop

/-- **How a key is written**: as a run of characters, or between quotes. -/
inductive KeyWritten : List Char → String → List Char → Prop
  | bare {cs run rest : List Char} (hrun : Run isKeyChar cs run rest) (hne : run ≠ []) :
      KeyWritten cs (String.ofList run) rest
  | quoted {cs : List Char} {key : String} {rest : List Char} (h : Quoted cs key.toList rest) :
      KeyWritten ('"' :: cs) key rest

/-- **The scanner of keys** finds how they are written.

**Proof sketch.** A key between quotes is a quoted text.  Any other key is the longest run of key characters, which
is not empty and hence does not begin with a quote. -/
theorem scanKey_eq_some_iff (cs : List Char) (key : String) (rest : List Char) :
    scanKey cs = some (key, rest) ↔ KeyWritten cs key rest := by
  constructor
  · intro h
    unfold scanKey at h
    split at h
    · exact .quoted ((scanQuoted_eq_some_iff _ _ _).mp h)
    · dsimp only at h
      split_ifs at h with hempty
      cases h
      exact .bare (run_iff.mpr ⟨rfl, rfl⟩) (by simpa using hempty)
  · intro h
    cases h with
    | @bare _ run _ hrun hne =>
      obtain ⟨htake, hdrop⟩ := run_iff.mp hrun
      have hquote : ∀ cs', cs ≠ '"' :: cs' := by
        rintro cs' rfl
        exact hne (htake ▸ rfl)
      rw [scanKey]
      · rw [htake, hdrop, if_neg (by simpa using hne)]
      · exact hquote
    | quoted h => exact (scanQuoted_eq_some_iff _ _ _).mpr h

/-- Something follows only after the key. -/
lemma KeyWritten.length_lt {cs rest : List Char} {key : String} (h : KeyWritten cs key rest) :
    rest.length < cs.length := by
  cases h with
  | bare hrun hne =>
    have hpos := List.length_pos_iff.mpr hne
    rw [hrun.eq_append, List.length_append]
    omega
  | quoted h =>
    have hlt := h.length_lt
    rw [List.length_cons]
    omega

/-! ## Values -/

/-- The value is marked by how it begins. -/
def Marked (cs : List Char) : Prop :=
  ['t', 'r', 'u', 'e'] <+: cs ∨ ['f', 'a', 'l', 's', 'e'] <+: cs ∨ ['\x7b'] <+: cs ∨ ['['] <+: cs ∨
    ['"'] <+: cs ∨ ['\''] <+: cs

instance (cs : List Char) : Decidable (Marked cs) :=
  inferInstanceAs (Decidable (['t', 'r', 'u', 'e'] <+: cs ∨ ['f', 'a', 'l', 's', 'e'] <+: cs ∨ ['\x7b'] <+: cs ∨
    ['['] <+: cs ∨ ['"'] <+: cs ∨ ['\''] <+: cs))

/-- What is written: a value, the items of a list up to its end, or the entries of a table up to its end together
with those already read. -/
inductive Part where
  | value (v : Value)
  | items (vs : List Value)
  | entries (read all : Table Value)

/-- **How values are written.**  The characters begin with a part, and the last argument is what follows it.  Blanks
before a value do not belong to it.  A comma may stand after the last item of a list and the last entry of a table;
of repeated keys the last one counts. -/
inductive Written (o : Origin) : List Char → Part → List Char → Prop
  | true (rest : List Char) : Written o ('t' :: 'r' :: 'u' :: 'e' :: rest) (.value (.scalar o (.bool true))) rest
  | false (rest : List Char) :
      Written o ('f' :: 'a' :: 'l' :: 's' :: 'e' :: rest) (.value (.scalar o (.bool false))) rest
  | table {cs rest : List Char} {all : Table Value} (h : Written o cs (.entries [] all) rest) :
      Written o ('\x7b' :: cs) (.value (.table o all)) rest
  | list {cs rest : List Char} {vs : List Value} (h : Written o cs (.items vs) rest) :
      Written o ('[' :: cs) (.value (.list o vs)) rest
  | quoted {cs rest : List Char} {s : String} (h : Quoted cs s.toList rest) :
      Written o ('"' :: cs) (.value (.scalar o (.text s))) rest
  | char (c : Char) (rest : List Char) : Written o ('\'' :: c :: '\'' :: rest) (.value (.scalar o (.char c))) rest
  | loose {cs run rest : List Char} (hmark : ¬ Marked cs) (hrun : Run isLoose cs run rest) :
      Written o cs (.value (.scalar o (scalar (Text.trimChars run)))) rest
  | noItem (rest : List Char) : Written o (']' :: rest) (.items []) rest
  | lastItem {cs after rest : List Char} {v : Value} (hopen : ∀ cs', cs ≠ ']' :: cs')
      (hv : Written o (skipSpace cs) (.value v) after) (hafter : skipSpace after = ']' :: rest) :
      Written o cs (.items [v]) rest
  | item {cs after cs' rest : List Char} {v : Value} {vs : List Value} (hopen : ∀ cs', cs ≠ ']' :: cs')
      (hv : Written o (skipSpace cs) (.value v) after) (hafter : skipSpace after = ',' :: cs')
      (h : Written o cs' (.items vs) rest) : Written o cs (.items (v :: vs)) rest
  | noEntry (read : Table Value) (rest : List Char) : Written o ('\x7d' :: rest) (.entries read read) rest
  | lastEntry {read : Table Value} {cs afterKey beforeValue after rest : List Char} {key : String} {v : Value}
      (hopen : ∀ cs', cs ≠ '\x7d' :: cs') (hkey : KeyWritten (skipSpace cs) key afterKey)
      (hequals : skipSpace afterKey = '=' :: beforeValue)
      (hv : Written o (skipSpace beforeValue) (.value v) after) (hafter : skipSpace after = '\x7d' :: rest) :
      Written o cs (.entries read (Table.insert key v read)) rest
  | entry {read all : Table Value} {cs afterKey beforeValue after cs' rest : List Char} {key : String} {v : Value}
      (hopen : ∀ cs', cs ≠ '\x7d' :: cs') (hkey : KeyWritten (skipSpace cs) key afterKey)
      (hequals : skipSpace afterKey = '=' :: beforeValue)
      (hv : Written o (skipSpace beforeValue) (.value v) after) (hafter : skipSpace after = ',' :: cs')
      (h : Written o cs' (.entries (Table.insert key v read) all) rest) : Written o cs (.entries read all) rest

/-! ## The scanner follows the grammar -/

variable {o : Origin}

/-- Where a list does not end, an item stands. -/
lemma scanItemsWithin_next {o : Origin} {fuel : Nat} {read : List Value} {cs : List Char}
    (h : ∀ rest, cs ≠ ']' :: rest) :
    scanItemsWithin o (fuel + 1) read cs =
      match scanWithin o fuel cs with
      | some (v, ',' :: rest) => scanItemsWithin o fuel (v :: read) rest
      | some (v, ']' :: rest) => some (.list o (v :: read).reverse, rest)
      | _ => none :=
  scanItemsWithin.eq_3 o read cs fuel h

/-- Where a table does not end, an entry stands. -/
lemma scanEntriesWithin_next {o : Origin} {fuel : Nat} {read : Table Value} {cs : List Char}
    (h : ∀ rest, cs ≠ '\x7d' :: rest) :
    scanEntriesWithin o (fuel + 1) read cs =
      match scanKey (skipSpace cs) with
      | none => none
      | some (key, rest) =>
        match skipSpace rest with
        | '=' :: rest =>
          match scanWithin o fuel rest with
          | some (v, ',' :: rest) => scanEntriesWithin o fuel (Table.insert key v read) rest
          | some (v, '\x7d' :: rest) => some (.table o (Table.insert key v read), rest)
          | _ => none
        | _ => none :=
  scanEntriesWithin.eq_3 o read cs fuel h

/-- Without a mark, the value is a run of loose characters. -/
lemma scanWithin_loose {fuel : Nat} {cs : List Char} (h : ¬ Marked (skipSpace cs)) :
    scanWithin o (fuel + 1) cs =
      some (.scalar o (scalar (Text.trimChars ((skipSpace cs).takeWhile isLoose))),
        skipSpace ((skipSpace cs).dropWhile isLoose)) := by
  unfold scanWithin
  dsimp only
  generalize skipSpace cs = ds at h
  simp only [Marked, not_or] at h
  obtain ⟨htrue, hfalse, hbrace, hbracket, hquote, hmark⟩ := h
  -- only the last case is for what has no mark
  split <;> rename_i hfound <;> split at hfound <;> first
    | exact absurd ⟨_, rfl⟩ htrue
    | exact absurd ⟨_, rfl⟩ hfalse
    | exact absurd ⟨_, rfl⟩ hbrace
    | exact absurd ⟨_, rfl⟩ hbracket
    | exact absurd ⟨_, rfl⟩ hquote
    | exact absurd ⟨_, rfl⟩ hmark
    | cases hfound
  rfl

/-- What is found in a number of steps is written: values, the items of a list and the entries of a table. -/
structure Sound (o : Origin) (fuel : Nat) : Prop where
  value : ∀ cs v rest, scanWithin o fuel cs = some (v, rest) →
    ∃ after, Written o (skipSpace cs) (.value v) after ∧ skipSpace after = rest
  items : ∀ read cs v rest, scanItemsWithin o fuel read cs = some (v, rest) →
    ∃ items, v = .list o (read.reverse ++ items) ∧ Written o cs (.items items) rest
  entries : ∀ read cs v rest, scanEntriesWithin o fuel read cs = some (v, rest) →
    ∃ all, v = .table o all ∧ Written o cs (.entries read all) rest

namespace Sound

variable {fuel : Nat} {cs rest : List Char} {v : Value}

/-- One more step for a value.

**Proof sketch.** A value that is marked by how it begins is found in one of the cases of the scanner, each of which
is a rule of the grammar, with the hypothesis for what a list or a table holds.  A value without a mark is a run of
loose characters. -/
lemma value_succ (h : Sound o fuel) (hscan : scanWithin o (fuel + 1) cs = some (v, rest)) :
    ∃ after, Written o (skipSpace cs) (.value v) after ∧ skipSpace after = rest := by
  by_cases hmark : Marked (skipSpace cs)
  · unfold scanWithin at hscan
    dsimp only at hscan
    generalize skipSpace cs = ds at hscan hmark
    split at hscan
    · rename_i w after hfound
      cases hscan
      refine ⟨after, ?_, rfl⟩
      split at hfound
      · cases hfound
        exact .true _
      · cases hfound
        exact .false _
      · obtain ⟨entries, rfl, hwritten⟩ := h.entries _ _ _ _ hfound
        exact .table hwritten
      · obtain ⟨items, rfl, hwritten⟩ := h.items _ _ _ _ hfound
        exact .list hwritten
      · obtain ⟨⟨s, after'⟩, hs, heq⟩ := Option.map_eq_some_iff.mp hfound
        cases heq
        exact .quoted ((scanQuoted_eq_some_iff _ _ _).mp hs)
      · split at hfound
        · cases hfound
          exact .char _ _
        · cases hfound
      · rename_i htrue hfalse hbrace hbracket hquote hchar
        -- the last case is for what is not marked
        rcases hmark with ⟨r, rfl⟩ | ⟨r, rfl⟩ | ⟨r, rfl⟩ | ⟨r, rfl⟩ | ⟨r, rfl⟩ | ⟨r, rfl⟩
        · exact absurd rfl (htrue r)
        · exact absurd rfl (hfalse r)
        · exact absurd rfl (hbrace r)
        · exact absurd rfl (hbracket r)
        · exact absurd rfl (hquote r)
        · exact absurd rfl (hchar r)
    · cases hscan
  · rw [scanWithin_loose hmark] at hscan
    cases hscan
    exact ⟨_, .loose hmark (run_iff.mpr ⟨rfl, rfl⟩), rfl⟩

/-- One more step for the items of a list. -/
lemma items_succ (h : Sound o fuel) {read : List Value}
    (hscan : scanItemsWithin o (fuel + 1) read cs = some (v, rest)) :
    ∃ items, v = .list o (read.reverse ++ items) ∧ Written o cs (.items items) rest := by
  by_cases hclose : ∃ after, cs = ']' :: after
  · obtain ⟨after, rfl⟩ := hclose
    cases hscan
    exact ⟨[], by simp, .noItem _⟩
  · have hopen : ∀ cs', cs ≠ ']' :: cs' := by simpa using hclose
    rw [scanItemsWithin_next hopen] at hscan
    split at hscan
    · rename_i w cs' hw
      obtain ⟨after, hwritten, hafter⟩ := h.value _ _ _ hw
      obtain ⟨items, rfl, hrest⟩ := h.items _ _ _ _ hscan
      exact ⟨w :: items, by simp, .item hopen hwritten hafter hrest⟩
    · rename_i w cs' hw
      obtain ⟨after, hwritten, hafter⟩ := h.value _ _ _ hw
      cases hscan
      exact ⟨[w], by simp, .lastItem hopen hwritten hafter⟩
    · cases hscan

/-- One more step for the entries of a table. -/
lemma entries_succ (h : Sound o fuel) {read : Table Value}
    (hscan : scanEntriesWithin o (fuel + 1) read cs = some (v, rest)) :
    ∃ all, v = .table o all ∧ Written o cs (.entries read all) rest := by
  by_cases hclose : ∃ after, cs = '\x7d' :: after
  · obtain ⟨after, rfl⟩ := hclose
    cases hscan
    exact ⟨read, rfl, .noEntry _ _⟩
  · have hopen : ∀ cs', cs ≠ '\x7d' :: cs' := by simpa using hclose
    rw [scanEntriesWithin_next hopen] at hscan
    split at hscan
    · cases hscan
    · rename_i key afterKey hkey
      have hkey := (scanKey_eq_some_iff _ _ _).mp hkey
      split at hscan
      · rename_i beforeValue hequals
        split at hscan
        · rename_i w cs' hw
          obtain ⟨after, hwritten, hafter⟩ := h.value _ _ _ hw
          obtain ⟨all, rfl, hrest⟩ := h.entries _ _ _ _ hscan
          exact ⟨all, rfl, .entry hopen hkey hequals hwritten hafter hrest⟩
        · rename_i w cs' hw
          obtain ⟨after, hwritten, hafter⟩ := h.value _ _ _ hw
          cases hscan
          exact ⟨_, rfl, .lastEntry hopen hkey hequals hwritten hafter⟩
        · cases hscan
      · cases hscan

end Sound

/-- **What the scanner finds is written**, however many steps it may take.

**Proof sketch.** Induction on the fuel.  Without fuel nothing is found; with one unit more, the three scanners
follow the grammar by the steps above. -/
theorem scanWithin_sound (fuel : Nat) : Sound o fuel := by
  induction fuel with
  | zero => constructor <;> simp [scanWithin, scanItemsWithin, scanEntriesWithin]
  | succ fuel ih => exact ⟨fun _ _ _ => ih.value_succ, fun _ _ _ _ => ih.items_succ, fun _ _ _ _ => ih.entries_succ⟩

/-- Without the blanks before it, a text is not longer. -/
lemma length_skipSpace_le (cs : List Char) : (skipSpace cs).length ≤ cs.length :=
  (List.dropWhile_sublist _).length_le

/-- A part and the character after it take at least that character. -/
lemma length_lt_of_skipSpace {cs after rest : List Char} {c : Char} (h : after.length ≤ (skipSpace cs).length)
    (hafter : skipSpace after = c :: rest) : rest.length < cs.length := by
  have hskip := length_skipSpace_le after
  rw [hafter, List.length_cons] at hskip
  have hcs := length_skipSpace_le cs
  omega

/-- What follows a part is not longer.

**Proof sketch.** Induction on how the part is written.  Every rule takes some characters, and the blanks that are
skipped between its pieces only make the rest shorter. -/
lemma Written.length_le {cs : List Char} {part : Part} {rest : List Char} (h : Written o cs part rest) :
    rest.length ≤ cs.length := by
  induction h with
  | true => simp only [List.length_cons]; omega
  | false => simp only [List.length_cons]; omega
  | table _ ih => exact ih.trans (Nat.le_succ _)
  | list _ ih => exact ih.trans (Nat.le_succ _)
  | quoted h =>
    have hlt := h.length_lt
    rw [List.length_cons]
    omega
  | char => simp only [List.length_cons]; omega
  | loose _ hrun =>
    rw [hrun.eq_append, List.length_append]
    omega
  | noItem => exact Nat.le_succ _
  | lastItem _ _ hafter ih => exact (length_lt_of_skipSpace ih hafter).le
  | item _ _ hafter _ ihv ih => exact ih.trans (length_lt_of_skipSpace ihv hafter).le
  | noEntry => exact Nat.le_succ _
  | lastEntry _ hkey hequals _ hafter ih =>
    exact ((length_lt_of_skipSpace ih hafter).trans (length_lt_of_skipSpace hkey.length_lt.le hequals)).le
  | entry _ hkey hequals _ hafter _ ihv ih =>
    exact ih.trans ((length_lt_of_skipSpace ihv hafter).trans
      (length_lt_of_skipSpace hkey.length_lt.le hequals)).le

/-- The scanner finds a part, if there are two steps for each character. -/
def Part.Found (o : Origin) (cs rest : List Char) : Part → Prop
  | .value v => ∀ ds fuel, skipSpace ds = cs → 2 * cs.length + 1 ≤ fuel →
      scanWithin o fuel ds = some (v, skipSpace rest)
  | .items vs => ∀ read fuel, 2 * cs.length + 2 ≤ fuel →
      scanItemsWithin o fuel read cs = some (.list o (read.reverse ++ vs), rest)
  | .entries read all => ∀ fuel, 2 * cs.length + 2 ≤ fuel →
      scanEntriesWithin o fuel read cs = some (.table o all, rest)

/-- **What is written is found** by the scanner.

**Proof sketch.** Induction on how the part is written.  Every rule is one step of the scanner, which costs one unit
of fuel; and the pieces of a rule are shorter than the whole, so the fuel that is left is enough for each of them. -/
theorem Written.found {cs : List Char} {part : Part} {rest : List Char} (h : Written o cs part rest) :
    part.Found o cs rest := by
  -- no part is found without a step
  have hstep : ∀ {n fuel : Nat}, n + 1 ≤ fuel → ∃ fuel', fuel = fuel' + 1 ∧ n ≤ fuel' :=
    fun {n fuel} h => ⟨fuel - 1, by omega, by omega⟩
  induction h with
  | true =>
    intro ds fuel hds hfuel
    obtain ⟨fuel, rfl, -⟩ := hstep hfuel
    simp [scanWithin, hds]
  | false =>
    intro ds fuel hds hfuel
    obtain ⟨fuel, rfl, -⟩ := hstep hfuel
    simp [scanWithin, hds]
  | table _ ih =>
    intro ds fuel hds hfuel
    obtain ⟨fuel, rfl, hfuel⟩ := hstep hfuel
    rw [List.length_cons] at hfuel
    simp [scanWithin, hds, ih fuel (by omega)]
  | list _ ih =>
    intro ds fuel hds hfuel
    obtain ⟨fuel, rfl, hfuel⟩ := hstep hfuel
    rw [List.length_cons] at hfuel
    simp [scanWithin, hds, ih [] fuel (by omega)]
  | quoted h =>
    intro ds fuel hds hfuel
    obtain ⟨fuel, rfl, -⟩ := hstep hfuel
    simp [scanWithin, hds, (scanQuoted_eq_some_iff _ _ _).mpr h]
  | char =>
    intro ds fuel hds hfuel
    obtain ⟨fuel, rfl, -⟩ := hstep hfuel
    simp [scanWithin, hds]
  | loose hmark hrun =>
    intro ds fuel hds hfuel
    obtain ⟨fuel, rfl, -⟩ := hstep hfuel
    obtain ⟨htake, hdrop⟩ := run_iff.mp hrun
    rw [scanWithin_loose (hds ▸ hmark), hds, htake, hdrop]
  | noItem =>
    intro read fuel hfuel
    obtain ⟨fuel, rfl, -⟩ := hstep hfuel
    simp [scanItemsWithin]
  | @lastItem cs after rest v hopen hv hafter ih =>
    intro read fuel hfuel
    obtain ⟨fuel, rfl, hfuel⟩ := hstep hfuel
    have hle := length_skipSpace_le cs
    rw [scanItemsWithin_next hopen, ih cs fuel rfl (by omega), hafter]
    simp
  | @item cs after cs' rest v vs hopen hv hafter h ihv ih =>
    intro read fuel hfuel
    obtain ⟨fuel, rfl, hfuel⟩ := hstep hfuel
    have hle := length_skipSpace_le cs
    have hlt := length_lt_of_skipSpace hv.length_le hafter
    rw [scanItemsWithin_next hopen, ihv cs fuel rfl (by omega), hafter]
    exact (ih (v :: read) fuel (by omega)).trans (by simp)
  | noEntry =>
    intro fuel hfuel
    obtain ⟨fuel, rfl, -⟩ := hstep hfuel
    simp [scanEntriesWithin]
  | @lastEntry read cs afterKey beforeValue after rest key v hopen hkey hequals hv hafter ih =>
    intro fuel hfuel
    obtain ⟨fuel, rfl, hfuel⟩ := hstep hfuel
    have hle := length_skipSpace_le beforeValue
    have hlt := length_lt_of_skipSpace hkey.length_lt.le hequals
    have hvalue := ih beforeValue fuel rfl (by omega)
    rw [scanEntriesWithin_next hopen, (scanKey_eq_some_iff _ _ _).mpr hkey]
    simp [hequals, hvalue, hafter]
  | @entry read all cs afterKey beforeValue after cs' rest key v hopen hkey hequals hv hafter h ihv ih =>
    intro fuel hfuel
    obtain ⟨fuel, rfl, hfuel⟩ := hstep hfuel
    have hle := length_skipSpace_le beforeValue
    have hlt := length_lt_of_skipSpace hkey.length_lt.le hequals
    have hlt' := length_lt_of_skipSpace hv.length_le hafter
    have hvalue := ihv beforeValue fuel rfl (by omega)
    rw [scanEntriesWithin_next hopen, (scanKey_eq_some_iff _ _ _).mpr hkey]
    simp [hequals, hvalue, hafter, ih fuel (by omega)]

/-! ## The value of a text -/

/-- **A text that is a value as a whole**, up to blanks around it. -/
def Complete (o : Origin) (text : String) (v : Value) : Prop :=
  ∃ rest, Written o (skipSpace text.toList) (.value v) rest ∧ skipSpace rest = []

/-- The scanner finds the value of a text that is one as a whole. -/
lemma complete_iff (text : String) (v : Value) :
    Complete o text v ↔ scanWithin o (2 * text.toList.length + 3) text.toList = some (v, []) := by
  constructor
  · rintro ⟨rest, hwritten, hrest⟩
    have hle := length_skipSpace_le text.toList
    rw [hwritten.found text.toList _ rfl (by omega), hrest]
  · intro h
    exact (scanWithin_sound _).value _ _ _ h

/-- **A text that is a value** as a whole has that value. -/
theorem read_of_complete {text : String} {v : Value} (h : Complete o text v) : read o text = v := by
  unfold read
  dsimp only
  rw [(complete_iff text v).mp h]

/-- **Any other text** stands for itself. -/
theorem read_of_not_complete {text : String} (h : ∀ v, ¬ Complete o text v) :
    read o text = .scalar o (.text text) := by
  unfold read
  dsimp only
  split
  · rename_i v hscan
    exact absurd ((complete_iff text v).mpr hscan) (h v)
  · rfl

end CodeAtlas.Config.Variable
