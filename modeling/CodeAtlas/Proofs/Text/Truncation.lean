import CodeAtlas.Proofs.Text.Excerpt
import CodeAtlas.Proofs.Text.Order

/-!
# Cutting a text to a number of bytes

A text that is too long is cut at the last offset within the limit at which its bytes show that a
character starts.  Such an offset is found at most three bytes before the limit, since no character has
more than four bytes, and what stands before it is the longest beginning of the text that fits: a
beginning of the bytes that is a text is made of whole characters.

## Main definitions

* `CodeAtlas.Text.LongestWithin` — the longest beginning of a text that has at most so many bytes.

## Main results

* `CodeAtlas.Text.Utf8.encode_prefix_encode_iff` — beginnings of the bytes that are texts.
* `CodeAtlas.Text.boundaryAt_encode_iff` — the bytes show where no character is cut.
* `CodeAtlas.Text.boundaryUpTo_eq_some_iff` — what the search backwards finds.
* `CodeAtlas.Text.truncate_eq_some_iff` — what is left of a text that is cut.
-/

namespace CodeAtlas.Text

namespace Utf8

/-! ## Beginnings of the bytes of a text -/

/-- The bytes of no character are continued to those of another, so the first character can be told. -/
lemma encodeChar_append_inj {c d : Char} {x y : List UInt8}
    (h : String.utf8EncodeChar c ++ x = String.utf8EncodeChar d ++ y) : c = d ∧ x = y := by
  rcases lt_trichotomy c d with hlt | rfl | hgt
  · have hless := encodeChar_append_lt hlt x y
    rw [h] at hless
    exact absurd hless (List.lt_irrefl _)
  · exact ⟨rfl, List.append_cancel_left h⟩
  · have hless := encodeChar_append_lt hgt y x
    rw [h] at hless
    exact absurd hless (List.lt_irrefl _)

/-- A beginning of the bytes that is made of characters is made of the first characters.

**Proof sketch.** Induction on the characters: the encodings of two characters with something behind them are equal
only if the characters are. -/
lemma flatMap_prefix_flatMap_iff (l cs : List Char) :
    l.flatMap String.utf8EncodeChar <+: cs.flatMap String.utf8EncodeChar ↔ l <+: cs := by
  constructor
  · intro h
    induction l generalizing cs with
    | nil => exact List.nil_prefix
    | cons c l ih =>
      obtain ⟨rest, hrest⟩ := h
      rw [List.flatMap_cons, List.append_assoc] at hrest
      cases cs with
      | nil =>
        have hnil := congrArg List.length hrest
        have hpos := c.utf8Size_pos
        simp only [List.length_append, String.length_utf8EncodeChar, List.flatMap_nil,
          List.length_nil] at hnil
        omega
      | cons d cs =>
        rw [List.flatMap_cons] at hrest
        obtain ⟨rfl, htail⟩ := encodeChar_append_inj hrest
        exact List.cons_prefix_cons.mpr ⟨rfl, ih cs ⟨rest, htail⟩⟩
  · rintro ⟨rest, rfl⟩
    rw [List.flatMap_append]
    exact List.prefix_append _ _

/-- **A beginning of the bytes of a text that is a text itself** is a beginning of its characters. -/
theorem encode_prefix_encode_iff (t s : String) :
    encode t <+: encode s ↔ t.toList <+: s.toList := by
  rw [encode_eq_flatMap, encode_eq_flatMap, flatMap_prefix_flatMap_iff]

/-- The bytes of characters are as many as their width. -/
lemma length_flatMap_utf8EncodeChar (cs : List Char) :
    (cs.flatMap String.utf8EncodeChar).length = width cs := by
  induction cs with
  | nil => rfl
  | cons c rest ih => simp [ih]

/-- The number of bytes of a text. -/
lemma length_encode (s : String) : (encode s).length = width s.toList := by
  rw [encode_eq_flatMap, length_flatMap_utf8EncodeChar]

/-! ## Where a character starts -/

/-- Continuation bytes, by their number. -/
private lemma isContinuation_ofNat {k : Nat} (hk : k < 256) :
    isContinuation (UInt8.ofNat k) = decide (128 ≤ k ∧ k ≤ 191) := by
  have hle : (0x80 : UInt8) ≤ UInt8.ofNat k ↔ 128 ≤ k := by
    rw [UInt8.le_iff_toNat_le, UInt8.toNat_ofNat_of_lt' hk]
    rfl
  have hge : UInt8.ofNat k ≤ (0xBF : UInt8) ↔ k ≤ 191 := by
    rw [UInt8.le_iff_toNat_le, UInt8.toNat_ofNat_of_lt' hk]
    rfl
  simp [isContinuation, hle, hge]

/-- **All bytes of a character but the first are continuation bytes.** -/
lemma exists_utf8EncodeChar_eq_cons (c : Char) :
    ∃ lead tail, String.utf8EncodeChar c = lead :: tail ∧ isContinuation lead = false ∧
      ∀ b ∈ tail, isContinuation b = true := by
  have hlead : ∀ {k : Nat}, k < 256 → k < 128 ∨ 192 ≤ k →
      isContinuation (UInt8.ofNat k) = false := by
    intro k hk hout
    rw [isContinuation_ofNat hk, decide_eq_false_iff_not]
    omega
  have htail : ∀ k : Nat, isContinuation (UInt8.ofNat (k % 64 + 128)) = true := by
    intro k
    rw [isContinuation_ofNat (by omega), decide_eq_true_iff]
    omega
  unfold String.utf8EncodeChar
  dsimp only
  generalize c.val.toNat = v
  split_ifs
  all_goals
    refine ⟨_, _, rfl, hlead (by omega) (by omega), ?_⟩
    simp only [List.mem_cons, List.not_mem_nil, or_false, forall_eq_or_imp, forall_eq, htail, and_self,
      false_imp_iff, implies_true]

end Utf8

/-- No character is cut at the start of a text. -/
lemma boundaryAt_zero (bytes : List UInt8) : boundaryAt bytes 0 = true := rfl

/-- After the first byte, what stands at an offset shows whether a character is cut there. -/
lemma boundaryAt_of_pos (bytes : List UInt8) {n : Nat} (hn : 0 < n) :
    boundaryAt bytes n = bytes[n]?.elim (n == bytes.length) fun b => !Utf8.isContinuation b := by
  have hne : (n == 0) = false := beq_false_of_ne (by omega)
  rw [boundaryAt, hne, Bool.false_or]
  cases bytes[n]? with
  | none => rfl
  | some b => rfl

/-- The first character is cut anywhere inside its bytes. -/
lemma boundaryAt_utf8EncodeChar_append_of_lt (c : Char) (rest : List UInt8) {n : Nat} (hpos : 0 < n)
    (hn : n < c.utf8Size) : boundaryAt (String.utf8EncodeChar c ++ rest) n = false := by
  obtain ⟨lead, tail, hc, -, htail⟩ := Utf8.exists_utf8EncodeChar_eq_cons c
  obtain ⟨m, rfl⟩ : ∃ m, n = m + 1 := ⟨n - 1, by omega⟩
  have hsize : c.utf8Size = tail.length + 1 := by
    rw [← String.length_utf8EncodeChar, hc, List.length_cons]
  have hm : m < tail.length := by omega
  rw [boundaryAt_of_pos _ hpos, hc, List.cons_append, List.getElem?_cons_succ,
    List.getElem?_append_left hm, List.getElem?_eq_getElem hm, Option.elim_some,
    htail _ (List.getElem_mem hm), Bool.not_true]

/-- Behind the first character, offsets are counted on from its bytes. -/
lemma boundaryAt_utf8EncodeChar_append (c : Char) (cs : List Char) (n : Nat) :
    boundaryAt (String.utf8EncodeChar c ++ cs.flatMap String.utf8EncodeChar) (c.utf8Size + n) =
      boundaryAt (cs.flatMap String.utf8EncodeChar) n := by
  have hpos : 0 < c.utf8Size + n := Nat.add_pos_left c.utf8Size_pos n
  have hlength := String.length_utf8EncodeChar c
  rw [boundaryAt_of_pos _ hpos, List.getElem?_append_right (by omega), hlength,
    Nat.add_sub_cancel_left, List.length_append, hlength]
  rcases Nat.eq_zero_or_pos n with rfl | hn
  · -- what follows is the end of the text, or the first byte of another character
    rw [boundaryAt_zero]
    cases cs with
    | nil => simp
    | cons d cs =>
      obtain ⟨lead, tail, hd, hlead, -⟩ := Utf8.exists_utf8EncodeChar_eq_cons d
      rw [List.flatMap_cons, hd]
      simp [hlead]
  · rw [boundaryAt_of_pos _ hn]
    cases (cs.flatMap String.utf8EncodeChar)[n]? with
    | none => simp
    | some b => rfl

/-- A boundary ends some of the first characters. -/
lemma isBoundary_iff (cs : List Char) (n : Nat) : IsBoundary cs n ↔ ∃ l, l <+: cs ∧ width l = n := by
  simp only [IsBoundary, List.mem_inits]

/-- A text without characters has one boundary. -/
lemma isBoundary_nil_iff (n : Nat) : IsBoundary [] n ↔ n = 0 := by
  simp [IsBoundary, eq_comm]

/-- The boundaries of a text are its start and those behind its first character. -/
lemma isBoundary_cons_iff (c : Char) (cs : List Char) (n : Nat) :
    IsBoundary (c :: cs) n ↔ n = 0 ∨ ∃ m, n = c.utf8Size + m ∧ IsBoundary cs m := by
  simp only [IsBoundary, List.inits_cons, List.mem_cons, List.mem_map, exists_eq_or_imp, width_nil]
  constructor
  · rintro (h | ⟨_, ⟨l, hl, rfl⟩, rfl⟩)
    · exact Or.inl h.symm
    · exact Or.inr ⟨width l, width_cons c l, l, hl, rfl⟩
  · rintro (h | ⟨m, rfl, l, hl, rfl⟩)
    · exact Or.inl h.symm
    · exact Or.inr ⟨c :: l, ⟨l, hl, rfl⟩, width_cons c l⟩

/-- **The bytes of a text show where no character is cut.**

**Proof sketch.** Induction on the characters.  Within the bytes of the first one there is no boundary but at their
beginning; from their end on, boundaries are those of the rest, counted from there. -/
theorem boundaryAt_encode_iff (text : String) (n : Nat) :
    boundaryAt (Utf8.encode text) n = true ↔ IsBoundary text.toList n := by
  rw [Utf8.encode_eq_flatMap]
  induction text.toList generalizing n with
  | nil =>
    rw [isBoundary_nil_iff]
    simp [boundaryAt]
  | cons c cs ih =>
    rw [isBoundary_cons_iff, List.flatMap_cons]
    rcases Nat.eq_zero_or_pos n with rfl | hpos
    · simp [boundaryAt_zero]
    · rcases Nat.lt_or_ge n c.utf8Size with hlt | hge
      · rw [boundaryAt_utf8EncodeChar_append_of_lt c _ hpos hlt]
        refine iff_of_false Bool.false_ne_true ?_
        rintro (rfl | ⟨m, rfl, -⟩)
        · omega
        · omega
      · obtain ⟨m, rfl⟩ := Nat.exists_eq_add_of_le hge
        rw [boundaryAt_utf8EncodeChar_append, ih]
        constructor
        · exact fun h => Or.inr ⟨m, rfl, h⟩
        · rintro (h | ⟨k, hk, h⟩)
          · omega
          · rwa [Nat.add_left_cancel hk]

/-- **A boundary is near**: no more than three bytes before any offset inside a text. -/
lemma exists_isBoundary_near (cs : List Char) {n : Nat} (hn : n < width cs) :
    ∃ m, IsBoundary cs m ∧ m ≤ n ∧ n ≤ m + 3 := by
  induction cs generalizing n with
  | nil => cases hn
  | cons c cs ih =>
    have hfour := c.utf8Size_le_four
    rcases Nat.lt_or_ge n c.utf8Size with hlt | hge
    · exact ⟨0, (isBoundary_cons_iff c cs 0).mpr (Or.inl rfl), by omega, by omega⟩
    · rw [width_cons] at hn
      obtain ⟨m, hm, hle, hnear⟩ := ih (n := n - c.utf8Size) (by omega)
      exact ⟨c.utf8Size + m, (isBoundary_cons_iff c cs _).mpr (Or.inr ⟨m, rfl, hm⟩), by omega, by omega⟩

/-! ## The search backwards -/

/-- **The search backwards ends at the last boundary** up to where it starts.

**Proof sketch.** Induction on where the search starts: it ends there if that is a boundary, and otherwise goes on
one byte before, where the same boundaries remain. -/
theorem boundaryUpTo_eq_some_iff (bytes : List UInt8) (n stop : Nat) :
    boundaryUpTo bytes n = some stop ↔
      stop ≤ n ∧ boundaryAt bytes stop = true ∧
        ∀ m, boundaryAt bytes m = true → m ≤ n → m ≤ stop := by
  induction n with
  | zero =>
    rw [boundaryUpTo, if_pos (boundaryAt_zero bytes), Option.some.injEq]
    constructor
    · rintro rfl
      exact ⟨le_rfl, boundaryAt_zero bytes, fun m _ hm => hm⟩
    · rintro ⟨hle, -, -⟩
      omega
  | succ n ih =>
    rw [boundaryUpTo]
    split_ifs with hhere
    · rw [Option.some.injEq]
      constructor
      · rintro rfl
        exact ⟨le_rfl, hhere, fun m _ hm => hm⟩
      · rintro ⟨hle, -, hlast⟩
        have := hlast (n + 1) hhere le_rfl
        omega
    · rw [ih]
      constructor
      · rintro ⟨hle, hstop, hlast⟩
        refine ⟨by omega, hstop, fun m hm hmn => ?_⟩
        have hne : m ≠ n + 1 := by
          rintro rfl
          exact hhere hm
        exact hlast m hm (by omega)
      · rintro ⟨hle, hstop, hlast⟩
        have hne : stop ≠ n + 1 := by
          rintro rfl
          exact hhere hstop
        exact ⟨by omega, hstop, fun m hm hmn => hlast m hm (by omega)⟩

/-- The search backwards never passes the first byte, at which no character is cut. -/
lemma exists_boundaryUpTo (bytes : List UInt8) (n : Nat) : ∃ stop, boundaryUpTo bytes n = some stop := by
  induction n with
  | zero => exact ⟨0, rfl⟩
  | succ n ih =>
    rw [boundaryUpTo]
    split_ifs
    · exact ⟨n + 1, rfl⟩
    · exact ih

/-! ## What is left of a text -/

/-- **The longest beginning of a text that has at most `max` bytes**: every text whose bytes begin the text
and fit is a beginning of it. -/
structure LongestWithin (max : Nat) (text t : String) : Prop where
  /-- Its bytes are the first bytes of the text. -/
  begins : Utf8.encode t <+: Utf8.encode text
  /-- It has at most `max` bytes. -/
  fits : (Utf8.encode t).length ≤ max
  /-- No other beginning that fits is longer. -/
  longest : ∀ u : String, Utf8.encode u <+: Utf8.encode text → (Utf8.encode u).length ≤ max →
    Utf8.encode u <+: Utf8.encode t

/-- Any characters the text begins with and that fit have no more bytes. -/
lemma LongestWithin.width_le {max : Nat} {text t : String} (h : LongestWithin max text t)
    {p : List Char} (hp : p <+: text.toList) (hfits : width p ≤ max) :
    width p ≤ (Utf8.encode t).length := by
  have hlength : (Utf8.encode (String.ofList p)).length = width p := by
    rw [Utf8.length_encode, String.toList_ofList]
  have hbegins : Utf8.encode (String.ofList p) <+: Utf8.encode text := by
    rwa [Utf8.encode_prefix_encode_iff, String.toList_ofList]
  exact hlength ▸ (h.longest _ hbegins (hlength.symm ▸ hfits)).length_le

/-- There is one longest beginning. -/
lemma LongestWithin.unique {max : Nat} {text t t' : String} (h : LongestWithin max text t)
    (h' : LongestWithin max text t') : t = t' := by
  have hle := (Utf8.encode_prefix_encode_iff t t').mp (h'.longest t h.begins h.fits)
  have hge := (Utf8.encode_prefix_encode_iff t' t).mp (h.longest t' h'.begins h'.fits)
  exact String.toList_injective (hle.eq_of_length_le hge.length_le)

/-- A text that fits is its longest beginning. -/
lemma longestWithin_self_iff (max : Nat) (text : String) :
    LongestWithin max text text ↔ (Utf8.encode text).length ≤ max :=
  ⟨fun h => h.fits, fun h => ⟨List.prefix_rfl, h, fun _ hu _ => hu⟩⟩

/-- **Any other longest beginning ends at the last boundary up to the limit.** -/
lemma longestWithin_of_boundaryUpTo {max stop : Nat} {text : String} {p : List Char}
    (hstop : boundaryUpTo (Utf8.encode text) max = some stop) (hp : p <+: text.toList)
    (hwidth : width p = stop) : LongestWithin max text (String.ofList p) := by
  obtain ⟨hle, -, hlast⟩ := (boundaryUpTo_eq_some_iff _ _ _).mp hstop
  refine ⟨?_, ?_, fun u hu hfits => ?_⟩
  · rwa [Utf8.encode_prefix_encode_iff, String.toList_ofList]
  · rwa [Utf8.length_encode, String.toList_ofList, hwidth]
  · rw [Utf8.encode_prefix_encode_iff] at hu
    rw [Utf8.length_encode] at hfits
    have hboundary : boundaryAt (Utf8.encode text) (width u.toList) = true :=
      (boundaryAt_encode_iff text _).mpr ((isBoundary_iff _ _).mpr ⟨u.toList, hu, rfl⟩)
    rw [Utf8.encode_prefix_encode_iff, String.toList_ofList]
    exact prefix_of_width_le hu hp (hwidth ▸ hlast _ hboundary hfits)

/-- **Cutting a text always leaves its longest beginning that fits.** -/
theorem exists_truncate (max : Nat) (text : String) :
    ∃ t, truncate max text = some t ∧ LongestWithin max text t := by
  by_cases hfits : (Utf8.encode text).length ≤ max
  · exact ⟨text, by simp [truncate, hfits], (longestWithin_self_iff max text).mpr hfits⟩
  · obtain ⟨stop, hstop⟩ := exists_boundaryUpTo (Utf8.encode text) max
    obtain ⟨-, hboundary, -⟩ := (boundaryUpTo_eq_some_iff _ _ _).mp hstop
    rw [boundaryAt_encode_iff, isBoundary_iff] at hboundary
    obtain ⟨p, hp, hwidth⟩ := hboundary
    have htake : takeBytes stop text.toList = some p :=
      (takeBytesFrom_eq_some_iff [] stop _ p).mpr ⟨p, hp, hwidth, rfl⟩
    exact ⟨String.ofList p, by simp [truncate, hfits, hstop, htake],
      longestWithin_of_boundaryUpTo hstop hp hwidth⟩

/-- **What is left of a text that is cut.** -/
theorem truncate_eq_some_iff (max : Nat) (text t : String) :
    truncate max text = some t ↔ LongestWithin max text t := by
  obtain ⟨t', ht', hlongest⟩ := exists_truncate max text
  rw [ht', Option.some.injEq]
  exact ⟨fun h => h ▸ hlongest, fun h => hlongest.unique h⟩

/-- The longest beginning cuts no character. -/
lemma LongestWithin.isBoundary {max : Nat} {text t : String} (h : LongestWithin max text t) :
    IsBoundary text.toList (Utf8.encode t).length := by
  have hprefix := (Utf8.encode_prefix_encode_iff t text).mp h.begins
  exact (isBoundary_iff _ _).mpr ⟨t.toList, hprefix, (Utf8.length_encode t).symm⟩

/-- **The search backwards finds where the longest beginning ends.** -/
lemma LongestWithin.boundaryUpTo_eq {max : Nat} {text t : String} (h : LongestWithin max text t) :
    boundaryUpTo (Utf8.encode text) max = some (Utf8.encode t).length := by
  rw [boundaryUpTo_eq_some_iff]
  refine ⟨h.fits, (boundaryAt_encode_iff text _).mpr h.isBoundary, fun m hm hle => ?_⟩
  rw [boundaryAt_encode_iff, isBoundary_iff] at hm
  obtain ⟨p, hp, rfl⟩ := hm
  exact h.width_le hp hle

/-- A text is its own longest beginning exactly if it fits. -/
lemma LongestWithin.eq_iff {max : Nat} {text t : String} (h : LongestWithin max text t) :
    t = text ↔ (Utf8.encode text).length ≤ max := by
  refine ⟨fun heq => heq ▸ h.fits, fun hfits => h.unique ((longestWithin_self_iff max text).mpr hfits)⟩

/-- **At most three bytes are left unused** when a text is cut. -/
lemma LongestWithin.le_length_add {max : Nat} {text t : String} (h : LongestWithin max text t)
    (hlong : max < (Utf8.encode text).length) : max ≤ (Utf8.encode t).length + 3 := by
  rw [Utf8.length_encode] at hlong
  obtain ⟨m, hm, hle, hnear⟩ := exists_isBoundary_near text.toList hlong
  obtain ⟨p, hp, rfl⟩ := (isBoundary_iff _ _).mp hm
  have hshorter := h.width_le hp hle
  omega

end CodeAtlas.Text
