import CodeAtlas.Proofs.Ingest.Causes
import CodeAtlas.Proofs.Number.Nearest

/-!
# Offline vectors

The vector of a text repeats the digest of the text as often as needed, one component for each byte.  A byte is
divided by the greatest one and moved down by a half, with a rounding after each step.  As zero, one and the two
halves are numbers of the format, rounding does not pass them, and the result stays between minus a half and a
half.  Vectors have the length that is asked for, so that a run which uses them never meets one that does not
fit.

## Main results

* `CodeAtlas.Embedding.Offline.component_nearest` — the number of a byte.
* `CodeAtlas.Embedding.Offline.component_bounds` — where it lies.
* `CodeAtlas.Embedding.Offline.getElem?_vector` — the components of a vector.
* `CodeAtlas.Embedding.Offline.vector_prefix_iff` — vectors of different lengths.
* `CodeAtlas.Embedding.Offline.vector_repeats_digest_and_always_fits` — offline vectors, and runs with them.
-/

namespace CodeAtlas.Embedding.Offline

open CodeAtlas.Number

/-! ## The number of a byte

Zero, one and the two halves are numbers of the format. -/

lemma value?_zero : (⟨0⟩ : Binary32).datum.value? = some 0 := by
  have hdatum : (⟨0⟩ : Binary32).datum = .finite false 0 (-149) := by decide
  simp [hdatum, Datum.value?]

lemma value?_one : (⟨0x3F800000⟩ : Binary32).datum.value? = some 1 := by
  have hdatum : (⟨0x3F800000⟩ : Binary32).datum = .finite false (2 ^ 23) (-23) := by decide +kernel
  rw [hdatum, Datum.value?]
  norm_num

lemma value?_half : (⟨0x3F000000⟩ : Binary32).datum.value? = some (1 / 2) := by
  have hdatum : (⟨0x3F000000⟩ : Binary32).datum = .finite false (2 ^ 23) (-24) := by decide +kernel
  rw [hdatum, Datum.value?]
  norm_num

lemma value?_neg_half : (⟨0xBF000000⟩ : Binary32).datum.value? = some (-1 / 2) := by
  have hdatum : (⟨0xBF000000⟩ : Binary32).datum = .finite true (2 ^ 23) (-24) := by decide +kernel
  rw [hdatum, Datum.value?]
  norm_num

/-- No byte is greater than the greatest one. -/
lemma toNat_div_le_one (b : UInt8) : (b.toNat / (255 : Nat) : ℚ) ≤ 1 := by
  have hb : (b.toNat : ℚ) ≤ (255 : Nat) := by exact_mod_cast Nat.le_of_lt_succ b.toNat_lt
  exact div_le_one_of_le₀ hb (Nat.cast_nonneg _)

/-- Its part of the greatest byte is in the range of the format. -/
lemma toNat_div_lt (b : UInt8) : (b.toNat / (255 : Nat) : ℚ) < 2 ^ 128 - 2 ^ 103 :=
  (toNat_div_le_one b).trans_lt (by norm_num)

/-- The division is rounded to a nearest number. -/
lemma nearest_toNat_div (b : UInt8) : (Binary32.ofRatio false b.toNat 255).Nearest (b.toNat / (255 : Nat)) := by
  have hpos : (0 : ℚ) ≤ b.toNat / (255 : Nat) := by positivity
  have hsign : decide ((b.toNat : Int) < 0) = false := decide_eq_false (by omega)
  have hden : 0 < 255 := by decide
  have hnearest := Binary32.nearest_ofRatio b.toNat hden ((abs_of_nonneg hpos).trans_lt (toNat_div_lt b))
  rw [hsign] at hnearest
  exact hnearest

/-- **A rounded part of the greatest byte** is not beyond zero and one, which are numbers of the format. -/
lemma bounds_of_nearest {x : Binary32} {b : UInt8} {v : ℚ} (h : x.Nearest (b.toNat / (255 : Nat)))
    (hx : x.datum.value? = some v) : 0 ≤ v ∧ v ≤ 1 :=
  ⟨h.ge hx value?_zero (by positivity), h.le hx value?_one (toNat_div_le_one b)⟩

/-- The difference to a half, as the ratio of integers by which it is computed. -/
lemma ratio_eq_sub_half (u : Nat) (e : Int) :
    ((((2 * u * Nat.pow 2 e.toNat : Nat) : Int) - (Nat.pow 2 (-e).toNat : Nat) : Int) : ℚ) /
      (2 * Nat.pow 2 (-e).toNat : Nat) = u * 2 ^ e - 1 / 2 := by
  have hden : (0 : ℚ) < (Nat.pow 2 (-e).toNat : Nat) := by exact_mod_cast Nat.two_pow_pos _
  rw [← Format.scaled_div_eq u e]
  push_cast
  field_simp

/-- **The number of a byte**: its part of the greatest byte, rounded, less a half, rounded again.

**Proof sketch.** The part of a byte is rounded once, to a number between zero and one, whose value is an integer
times a power of two.  So its difference to a half is again a fraction of integers, which is rounded to a nearest
number since it is in the range of the format. -/
theorem component_nearest (b : UInt8) :
    ∃ (x : Binary32) (v : ℚ), x.Nearest (b.toNat / 255) ∧ x.datum.value? = some v ∧
      (component b).Nearest (v - 1 / 2) := by
  obtain ⟨u, e, hdatum, -⟩ := Binary32.exists_datum_ofRatio false (by decide) (toNat_div_lt b)
  have hvalue : (Binary32.ofRatio false b.toNat 255).datum.value? = some (u * 2 ^ e : ℚ) := by
    rw [hdatum, Datum.value?, if_neg Bool.false_ne_true]
  have hpart := nearest_toNat_div b
  obtain ⟨hnonneg, hle⟩ := bounds_of_nearest hpart hvalue
  refine ⟨_, _, hpart, hvalue, ?_⟩
  unfold component
  rw [hdatum]
  dsimp only
  rw [← ratio_eq_sub_half]
  refine Binary32.nearest_ofRatio _ (Nat.mul_pos two_pos (Nat.two_pow_pos _)) ?_
  rw [ratio_eq_sub_half, abs_lt]
  constructor
  · exact lt_of_lt_of_le (by norm_num) (sub_le_sub_right hnonneg _)
  · exact lt_of_le_of_lt (sub_le_sub_right hle _) (by norm_num)

/-- **The number of a byte lies between minus a half and a half.** -/
theorem component_bounds (b : UInt8) :
    ∃ q, (component b).datum.value? = some q ∧ -1 / 2 ≤ q ∧ q ≤ 1 / 2 := by
  obtain ⟨x, v, hx, hv, hnearest⟩ := component_nearest b
  obtain ⟨hnonneg, hle⟩ := bounds_of_nearest hx hv
  obtain ⟨q, hq, -⟩ := id hnearest
  exact ⟨q, hq, hnearest.ge hq value?_neg_half (by linarith), hnearest.le hq value?_half (by linarith)⟩

/-! ## Repetition -/

variable {α : Type} {items : List α} {n m i : Nat}

/-- Fewer repeated items are the first ones. -/
lemma cycleFrom_prefix_cycleFrom (items rest : List α) (h : n ≤ m) :
    cycleFrom items rest n <+: cycleFrom items rest m := by
  induction n generalizing rest m with
  | zero =>
    rw [cycleFrom]
    exact List.nil_prefix
  | succ n ih =>
    obtain ⟨m, rfl⟩ := Nat.exists_eq_succ_of_ne_zero (Nat.ne_of_gt (Nat.lt_of_lt_of_le n.succ_pos h))
    have hle : n ≤ m := Nat.le_of_succ_le_succ h
    cases rest with
    | cons x rest => exact (List.prefix_cons_inj x).mpr (ih rest hle)
    | nil =>
      cases items with
      | nil => exact List.prefix_rfl
      | cons x rest => exact (List.prefix_cons_inj x).mpr (ih rest hle)

/-- **The items come round again and again**, whichever they begin with.

**Proof sketch.** Induction on the number of items.  If there is a next one, it is at its place, and the hypothesis is
used for what follows it.  If there is none, the items begin again, and the next one is the first. -/
lemma getElem?_cycleFrom_drop {k : Nat} (hk : k ≤ items.length) (h : 0 < items.length) (hi : i < n) :
    (cycleFrom items (items.drop k) n)[i]? = items[(k + i) % items.length]? := by
  induction n generalizing k i with
  | zero => exact absurd hi (Nat.not_lt_zero i)
  | succ n ih =>
    have hstep : ∀ {k}, k < items.length →
        (cycleFrom items (items.drop k) (n + 1))[i]? = items[(k + i) % items.length]? := by
      intro k hk
      rw [List.drop_eq_getElem_cons hk, cycleFrom]
      cases i with
      | zero => rw [List.getElem?_cons_zero, Nat.add_zero, Nat.mod_eq_of_lt hk, List.getElem?_eq_getElem hk]
      | succ i =>
        have hplace : k + 1 + i = k + (i + 1) := by omega
        rw [List.getElem?_cons_succ, ih hk (Nat.lt_of_succ_lt_succ hi), hplace]
    rcases Nat.lt_or_eq_of_le hk with hlt | rfl
    · exact hstep hlt
    · rw [List.drop_length, cycleFrom_nil, Nat.add_mod_left, cycle]
      have hagain := hstep h
      rwa [List.drop_zero, Nat.zero_add] at hagain

/-- The repeated items are those of the list, counted round and round. -/
lemma getElem?_cycle (h : 0 < items.length) (hi : i < n) : (cycle items n)[i]? = items[i % items.length]? := by
  have hfirst := getElem?_cycleFrom_drop (Nat.zero_le _) h hi
  rwa [List.drop_zero, Nat.zero_add] at hfirst

/-- **The components of a vector** are the numbers of the bytes of the digest, over and over. -/
lemma getElem?_vector (text : String) (hi : i < n) :
    (vector n text)[i]? = ((Digest.Sha256.digest (Text.Utf8.encode text))[i % 32]?).map component := by
  have hlength : (Digest.Sha256.digest (Text.Utf8.encode text)).length = 32 := Digest.Sha256.length_digest _
  rw [vector, List.getElem?_map, getElem?_cycle (by omega) hi, hlength]

/-- **Shorter vectors are the first parts of longer ones.** -/
lemma vector_prefix_iff {text : String} : vector n text <+: vector m text ↔ n ≤ m := by
  constructor
  · intro h
    have hlength := h.length_le
    rwa [(Embedder.offline_pure n).length, (Embedder.offline_pure m).length] at hlength
  · intro h
    exact (cycleFrom_prefix_cycleFrom _ _ h).map component

/-! ## Runs -/

open CodeAtlas.Graph CodeAtlas.Ingest

/-- **Offline vectors repeat the digest of the text, and fit into every run.**  The digest has 32 bytes and the
vector has the components that are asked for.  Each is the number of the byte of the digest at its place, counted
round and round, so that the components repeat after 32 of them and the vectors of a text are prefixes of each
other.  The number of a byte is its part of 255, rounded to a nearest number of the format, less a half, rounded
again; it lies between minus a half and a half.

Every entity therefore has its vector, and a run that fails did not find its files, could not set up its store or
could not write a file.  Over the graph in memory and over a database, which do not speak of vectors, it never
fails over a vector: neither over its length nor otherwise.

**Proof sketch.** The digest has 32 bytes, and a repeated list holds at every place the item at that place modulo
its length; period and prefixes follow.  The bounds are those of the number of a byte.  The provider is a function
that gives vectors of the length asked for, so a run over it has no cause to fail but those that remain, and neither
of the two stores fails over a vector. -/
theorem vector_repeats_digest_and_always_fits {σ τ : Type} (n : Nat) (text : String) (store : Store σ τ)
    (clock : Nat → String) (tree : Files.Entry) (base : List String) (settings : Config.IngestSettings) (s : σ) :
    let digest := Digest.Sha256.digest (Text.Utf8.encode text)
    digest.length = 32 ∧
    (vector n text).length = n ∧
    (∀ i < n, ∃ b, digest[i % 32]? = some b ∧ (vector n text)[i]? = some (component b)) ∧
    (∀ i, i + 32 < n → (vector n text)[i + 32]? = (vector n text)[i]?) ∧
    (∀ m, vector n text <+: vector m text ↔ n ≤ m) ∧
    (∀ b : UInt8, ∃ (x : Binary32) (q : ℚ), x.Nearest (b.toNat / 255) ∧ x.datum.value? = some q ∧
      (component b).Nearest (q - 1 / 2)) ∧
    (∀ x ∈ vector n text, ∃ q, x.datum.value? = some q ∧ -1 / 2 ≤ q ∧ q ≤ 1 / 2) ∧
    (∀ call path e, embedEntity (Embedder.offline n) call path e = .ok (vector n (e.compose path))) ∧
    (∀ f, conclusion (run store (Embedder.offline n) clock tree base settings s).1 = .error f →
      inputsOf tree base settings = .error f ∨ (Repository.ensureSchema store s).1 = .error f ∨
        ∃ path cause, f = .write path cause) ∧
    (∀ (m : Memory) reason,
      conclusion (run Memory.store (Embedder.offline n) clock tree base settings m).1 ≠
        .error (.embedding reason)) ∧
    (∀ {ρ : Type} (server : Bolt.Server ρ) (login : Bolt.Login) (c : Bolt.Client ρ) reason,
      conclusion (run (Bolt.store server login) (Embedder.offline n) clock tree base settings c).1 ≠
        .error (.embedding reason)) := by
  intro digest
  have hpure := Embedder.offline_pure n
  have hdigest : digest.length = 32 := Digest.Sha256.length_digest _
  refine ⟨hdigest, hpure.length text, ?component, ?period, fun m => vector_prefix_iff, component_nearest, ?bounds,
    embedEntity_of_pure hpure, fun f => run_failure_of_pure hpure, ?memory, ?database⟩
  case component =>
    intro i hi
    have hbound : i % 32 < digest.length := by
      rw [hdigest]
      exact Nat.mod_lt i (by decide)
    have hbyte := List.getElem?_eq_getElem hbound
    refine ⟨_, hbyte, ?_⟩
    rw [getElem?_vector text hi, hbyte, Option.map_some]
  case period =>
    intro i hi
    rw [getElem?_vector text hi, getElem?_vector text (Nat.lt_of_add_right_lt hi), Nat.add_mod_right]
  case bounds =>
    intro x hx
    obtain ⟨b, -, rfl⟩ := List.mem_map.mp hx
    exact component_bounds b
  case memory =>
    intro m reason
    refine conclusion_ne_embedding hpure ?_
    rw [Repository.ensureSchema_store]
    exact fun h => nomatch h
  case database =>
    intro ρ server login c reason
    refine conclusion_ne_embedding hpure fun h => ?_
    obtain ⟨reason', statement, hquery⟩ := Bolt.exists_query_of_ensureSchema h
    cases hquery

end CodeAtlas.Embedding.Offline
