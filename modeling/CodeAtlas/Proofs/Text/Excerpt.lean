import Mathlib.Data.List.DropRight
import Mathlib.Data.List.Infix
import CodeAtlas.Text.Blank
import CodeAtlas.Text.Slice

/-!
# Excerpts of a text

Names, snippets and documentation are excerpts of a text: what stands in a range of bytes, and what is left of it
when blanks at both ends are dropped.  A range can be read exactly when it lies between two boundaries of
characters, and a range inside another one reads as a part of it.

## Main definitions

* `CodeAtlas.Text.Trimmed` — a text without blanks at its ends.
* `CodeAtlas.Text.IsBoundary` — a byte offset at which no character is cut.

## Main results

* `CodeAtlas.Text.exists_blanks_around_trimChars`, `CodeAtlas.Text.trimmed_trimChars` — trimming drops blanks,
  and all of them at both ends.
* `CodeAtlas.Text.slice_eq_some_iff` — what a range of bytes reads as.
* `CodeAtlas.Text.exists_slice` — ranges between boundaries can be read.
* `CodeAtlas.Text.infix_of_slice` — a range inside another one.
-/

namespace CodeAtlas.Text

/-! ## Trimming -/

/-- **A trimmed text** neither starts nor ends with a blank. -/
def Trimmed (cs : List Char) : Prop :=
  (∀ c ∈ cs.head?, isBlank c = false) ∧ ∀ c ∈ cs.getLast?, isBlank c = false

-- the characters in question are looked at, rather than all there are
instance (cs : List Char) : Decidable (Trimmed cs) :=
  @instDecidableAnd _ _ (Option.decidableForallMem cs.head?) (Option.decidableForallMem cs.getLast?)

/-- Trimming the end is dropping blanks from the right. -/
lemma trimEndChars_eq_rdropWhile (cs : List Char) : trimEndChars cs = cs.rdropWhile isBlank := rfl

/-- **Trimming drops nothing but blanks**, and only at the ends. -/
theorem exists_blanks_around_trimChars (cs : List Char) :
    ∃ l r, cs = l ++ trimChars cs ++ r ∧ (∀ c ∈ l, isBlank c = true) ∧ ∀ c ∈ r, isBlank c = true := by
  refine ⟨cs.takeWhile isBlank, (cs.dropWhile isBlank).rtakeWhile isBlank, ?_,
    fun c => List.mem_takeWhile_imp, fun c => List.mem_rtakeWhile_imp⟩
  rw [trimChars, trimEndChars_eq_rdropWhile, List.append_assoc, List.rdropWhile_append_rtakeWhile,
    List.takeWhile_append_dropWhile]

/-- What is left stands in the text. -/
theorem trimChars_infix (cs : List Char) : trimChars cs <:+: cs := by
  obtain ⟨l, r, h, -, -⟩ := exists_blanks_around_trimChars cs
  exact ⟨l, r, h.symm⟩

/-- **Nothing is left exactly of blank texts.** -/
theorem trimChars_eq_nil_iff (cs : List Char) : trimChars cs = [] ↔ ∀ c ∈ cs, isBlank c = true := by
  constructor
  · intro hnil c hc
    obtain ⟨l, r, h, hl, hr⟩ := exists_blanks_around_trimChars cs
    rw [hnil, List.append_nil] at h
    rw [h] at hc
    exact (List.mem_append.mp hc).elim (hl c) (hr c)
  · intro hblank
    rw [trimChars, trimEndChars_eq_rdropWhile, List.rdropWhile_eq_nil_iff]
    exact fun c hc => hblank c ((List.dropWhile_suffix isBlank).mem hc)

/-- **What is left is trimmed.**

**Proof sketch.** Blanks are dropped from the front and then from the end.  The second step leaves a beginning of
what the first one left, whose first character is still no blank. -/
theorem trimmed_trimChars (cs : List Char) : Trimmed (trimChars cs) := by
  rw [trimChars, trimEndChars_eq_rdropWhile]
  constructor
  · -- the first character is that of the text without leading blanks
    intro c hc
    obtain ⟨rest, hrest⟩ := List.rdropWhile_prefix isBlank (cs.dropWhile isBlank)
    have hhead : (cs.dropWhile isBlank).head? = some c := by
      rw [← hrest, List.head?_append, hc, Option.some_or]
    have := List.head?_dropWhile_not isBlank cs
    rw [hhead] at this
    simpa using this
  · intro c hc
    obtain ⟨hne, hlast⟩ := List.mem_getLast?_eq_getLast hc
    have := List.rdropWhile_last_not isBlank (cs.dropWhile isBlank) hne
    rw [← hlast] at this
    simpa using this

/-- Exactly trimmed texts are left as they are. -/
theorem trimChars_eq_self_iff (cs : List Char) : trimChars cs = cs ↔ Trimmed cs := by
  refine ⟨fun h => h ▸ trimmed_trimChars cs, fun ⟨hhead, hlast⟩ => ?_⟩
  obtain ⟨l, r, h, hl, hr⟩ := exists_blanks_around_trimChars cs
  have hl' : l = [] := by
    cases l with
    | nil => rfl
    | cons c l =>
      have hblank := hhead c (by rw [h]; rfl)
      rw [hl c List.mem_cons_self] at hblank
      cases hblank
  have hr' : r = [] := by
    rcases List.eq_nil_or_concat r with rfl | ⟨r, c, rfl⟩
    · rfl
    · have hblank := hlast c (by rw [h]; simp)
      rw [hr c (by simp)] at hblank
      cases hblank
  rw [hl', hr', List.nil_append, List.append_nil] at h
  exact h.symm

/-! ## Widths -/

/-- The bytes of a text are counted on from any number. -/
lemma foldl_utf8Size (cs : List Char) (n : Nat) :
    cs.foldl (fun n c => n + c.utf8Size) n = n + width cs := by
  induction cs generalizing n with
  | nil => rfl
  | cons c rest ih =>
    have hwidth : width (c :: rest) = 0 + c.utf8Size + width rest := ih (0 + c.utf8Size)
    rw [List.foldl_cons, ih, hwidth]
    omega

@[simp] lemma width_nil : width [] = 0 := rfl

@[simp] lemma width_cons (c : Char) (cs : List Char) : width (c :: cs) = c.utf8Size + width cs := by
  rw [width, List.foldl_cons, foldl_utf8Size, Nat.zero_add]

@[simp] lemma width_append (cs ds : List Char) : width (cs ++ ds) = width cs + width ds := by
  induction cs with
  | nil => simp
  | cons c rest ih => rw [List.cons_append, width_cons, ih, width_cons, Nat.add_assoc]

/-- Every character has a byte. -/
@[simp] lemma width_eq_zero_iff (cs : List Char) : width cs = 0 ↔ cs = [] := by
  cases cs with
  | nil => simp
  | cons c rest =>
    have := c.utf8Size_pos
    simp [width_cons]
    omega

/-- Of two beginnings of a text the one with fewer bytes is a beginning of the other. -/
lemma prefix_of_width_le {cs l l' : List Char} (hl : l <+: cs) (hl' : l' <+: cs)
    (h : width l ≤ width l') : l <+: l' := by
  rcases List.prefix_or_prefix_of_prefix hl hl' with hprefix | ⟨rest, rfl⟩
  · exact hprefix
  · have hrest : width rest = 0 := by
      rw [width_append] at h
      omega
    rw [(width_eq_zero_iff rest).mp hrest, List.append_nil]

/-! ## Ranges of bytes -/

/-- What follows some bytes. -/
lemma dropBytes_eq_some_iff (n : Nat) (cs r : List Char) :
    dropBytes n cs = some r ↔ ∃ l, cs = l ++ r ∧ width l = n := by
  fun_induction dropBytes n cs with
  | case1 cs =>
    refine ⟨fun h => ⟨[], (Option.some.inj h), rfl⟩, ?_⟩
    rintro ⟨l, rfl, hw⟩
    rw [(width_eq_zero_iff l).mp hw, List.nil_append]
  | case2 n =>
    refine ⟨nofun, ?_⟩
    rintro ⟨l, hl, hw⟩
    rw [(List.append_eq_nil_iff.mp hl.symm).1] at hw
    cases hw
  | case3 n c cs hfit ih =>
    rw [ih]
    clear ih
    constructor
    · rintro ⟨l, rfl, hw⟩
      exact ⟨c :: l, rfl, by rw [width_cons, hw]; omega⟩
    · rintro ⟨_ | ⟨d, l⟩, hl, hw⟩
      · cases hw
      · obtain ⟨rfl, rfl⟩ := List.cons.inj hl
        exact ⟨l, rfl, by rw [width_cons] at hw; omega⟩
  | case4 n c cs hfit =>
    refine ⟨nofun, ?_⟩
    rintro ⟨_ | ⟨d, l⟩, hl, hw⟩
    · cases hw
    · obtain ⟨rfl, rfl⟩ := List.cons.inj hl
      rw [width_cons] at hw
      omega

/-- Some bytes, after those already taken. -/
lemma takeBytesFrom_eq_some_iff (taken : List Char) (n : Nat) (cs m : List Char) :
    takeBytesFrom taken n cs = some m ↔ ∃ p, p <+: cs ∧ width p = n ∧ m = taken.reverse ++ p := by
  fun_induction takeBytesFrom taken n cs with
  | case1 taken cs =>
    refine ⟨fun h => ⟨[], List.nil_prefix, rfl, by simpa using (Option.some.inj h).symm⟩, ?_⟩
    rintro ⟨p, -, hw, rfl⟩
    rw [(width_eq_zero_iff p).mp hw, List.append_nil]
  | case2 taken n =>
    refine ⟨nofun, ?_⟩
    rintro ⟨p, hp, hw, -⟩
    rw [List.prefix_nil.mp hp] at hw
    cases hw
  | case3 taken n c cs hfit ih =>
    rw [ih]
    clear ih
    constructor
    · rintro ⟨p, hp, hw, rfl⟩
      refine ⟨c :: p, List.cons_prefix_cons.mpr ⟨rfl, hp⟩, by rw [width_cons, hw]; omega, by simp⟩
    · rintro ⟨_ | ⟨d, p⟩, hp, hw, rfl⟩
      · cases hw
      · obtain ⟨rfl, hrest⟩ := List.cons_prefix_cons.mp hp
        exact ⟨p, hrest, by rw [width_cons] at hw; omega, by simp⟩
  | case4 taken n c cs hfit =>
    refine ⟨nofun, ?_⟩
    rintro ⟨_ | ⟨d, p⟩, hp, hw, -⟩
    · cases hw
    · obtain ⟨rfl, -⟩ := List.cons_prefix_cons.mp hp
      rw [width_cons] at hw
      omega

/-- **What a range of bytes reads as.**

**Proof sketch.** A range is read by dropping the bytes before it and taking as many as it has, neither of which may
cut a character.  So the text is split where the range begins and where it ends. -/
theorem slice_eq_some_iff (cs : List Char) (start stop : Nat) (m : List Char) :
    slice cs start stop = some m ↔
      ∃ l r, cs = l ++ m ++ r ∧ width l = start ∧ width (l ++ m) = stop := by
  rw [slice]
  split_ifs with hle
  · rw [Option.bind_eq_some_iff]
    constructor
    · rintro ⟨rest, hrest, hm⟩
      obtain ⟨l, rfl, hl⟩ := (dropBytes_eq_some_iff start cs rest).mp hrest
      obtain ⟨p, ⟨r, rfl⟩, hp, rfl⟩ := (takeBytesFrom_eq_some_iff [] _ _ m).mp hm
      refine ⟨l, r, by simp, hl, ?_⟩
      rw [width_append, hl, hp]
      omega
    · rintro ⟨l, r, rfl, hl, hm⟩
      refine ⟨m ++ r, (dropBytes_eq_some_iff _ _ _).mpr ⟨l, by simp, hl⟩,
        (takeBytesFrom_eq_some_iff [] _ _ m).mpr ⟨m, ⟨r, rfl⟩, ?_, rfl⟩⟩
      rw [width_append] at hm
      omega
  · refine ⟨nofun, ?_⟩
    rintro ⟨l, r, -, rfl, rfl⟩
    rw [width_append] at hle
    omega

/-- **A byte offset at which no character is cut**: it ends a beginning of the text. -/
def IsBoundary (cs : List Char) (n : Nat) : Prop := ∃ l ∈ cs.inits, width l = n

instance (cs : List Char) (n : Nat) : Decidable (IsBoundary cs n) :=
  inferInstanceAs (Decidable (∃ l ∈ cs.inits, width l = n))

/-- **Ranges between boundaries can be read.** -/
theorem exists_slice {cs : List Char} {start stop : Nat} (hle : start ≤ stop)
    (hstart : IsBoundary cs start) (hstop : IsBoundary cs stop) : ∃ m, slice cs start stop = some m := by
  obtain ⟨l, hl, rfl⟩ := hstart
  obtain ⟨l', hl', rfl⟩ := hstop
  rw [List.mem_inits] at hl hl'
  obtain ⟨m, rfl⟩ := prefix_of_width_le hl hl' hle
  obtain ⟨r, hr⟩ := hl'
  exact ⟨m, (slice_eq_some_iff cs _ _ m).mpr ⟨l, r, hr.symm, rfl, rfl⟩⟩

/-- **A range inside another one reads as a part of it.**

**Proof sketch.** Two beginnings of the same text are comparable by their widths.  So the part before the inner
range goes on from the part before the outer one, and the end of the inner range comes before that of the outer one. -/
theorem infix_of_slice {cs outer inner : List Char} {start stop start' stop' : Nat}
    (houter : slice cs start stop = some outer) (hinner : slice cs start' stop' = some inner)
    (hstart : start ≤ start') (hstop : stop' ≤ stop) : inner <:+: outer := by
  obtain ⟨l, r, hcs, rfl, rfl⟩ := (slice_eq_some_iff _ _ _ _).mp houter
  obtain ⟨l', r', hcs', rfl, rfl⟩ := (slice_eq_some_iff _ _ _ _).mp hinner
  have hbegins : l <+: cs := ⟨outer ++ r, by rw [hcs, List.append_assoc]⟩
  have hbegins' : l' <+: cs := ⟨inner ++ r', by rw [hcs', List.append_assoc]⟩
  have hl : l <+: l' := prefix_of_width_le hbegins hbegins' hstart
  have hends : l' ++ inner <+: l ++ outer :=
    prefix_of_width_le ⟨r', hcs'.symm⟩ ⟨r, hcs.symm⟩ hstop
  obtain ⟨gap, rfl⟩ := hl
  rw [List.append_assoc, List.prefix_append_right_inj] at hends
  obtain ⟨rest, hrest⟩ := hends
  exact ⟨gap, rest, hrest⟩

end CodeAtlas.Text
