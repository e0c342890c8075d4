import Mathlib.Data.String.Basic
import Mathlib.Data.List.Pairwise
import Mathlib.Data.List.Sort
import CodeAtlas.Table

/-!
# The theory of tables

A table answers each key by its last insertion, and insertions under different keys may be swapped.
Neither law needs the keys to be in order: an insertion takes effect at the first key that is not less
than its own, wherever that stands.  The order matters where entries are counted.

## Main definitions

* `CodeAtlas.Table.Ordered` — the keys are strictly increasing.
* `CodeAtlas.Table.Holding` — an ordered table of values of one kind.

## Main results

* `CodeAtlas.Table.get?_insert`, `CodeAtlas.Table.get?_erase` — what a key answers afterwards.
* `CodeAtlas.Table.insert_comm` — insertions under different keys may be swapped.
* `CodeAtlas.Table.Ordered.insert` — insertions keep the order.
* `CodeAtlas.Table.Ordered.mem_iff_get?` — in an ordered table the entries are what the keys answer.
* `CodeAtlas.Table.Ordered.ext` — ordered tables with the same answers are equal.
-/

namespace CodeAtlas.Table

variable {α : Type}

/-! ## What a key answers -/

/-- The key that was set answers the value. -/
@[simp] theorem get?_insert_self (key : String) (value : α) (t : Table α) :
    get? key (insert key value t) = some value := by
  induction t with
  | nil => simp [insert, get?]
  | cons e rest ih =>
    obtain ⟨k, v⟩ := e
    rw [insert]
    by_cases hlt : k < key
    · rw [if_pos hlt, get?, if_neg (ne_of_lt hlt)]
      exact ih
    · rw [if_neg hlt]
      split <;> simp [get?]

/-- Any other key answers as before. -/
theorem get?_insert_of_ne {key other : String} (h : other ≠ key) (value : α) (t : Table α) :
    get? other (insert key value t) = get? other t := by
  induction t with
  | nil => simp [insert, get?, h.symm]
  | cons e rest ih =>
    obtain ⟨k, v⟩ := e
    rw [insert]
    by_cases hlt : k < key
    · rw [if_pos hlt, get?, get?, ih]
    · rw [if_neg hlt]
      by_cases heq : k = key
      · rw [if_pos heq, get?, get?, if_neg h.symm, if_neg (heq ▸ h.symm)]
      · rw [if_neg heq, get?, if_neg h.symm]

/-- An insertion changes the answer of its own key only. -/
theorem get?_insert (key other : String) (value : α) (t : Table α) :
    get? other (insert key value t) = if other = key then some value else get? other t := by
  by_cases h : other = key
  · rw [h, if_pos rfl, get?_insert_self]
  · rw [if_neg h, get?_insert_of_ne h]

/-- An erasure changes the answer of its own key only. -/
theorem get?_erase (key other : String) (t : Table α) :
    get? other (erase key t) = if other = key then none else get? other t := by
  induction t with
  | nil => simp [erase, get?]
  | cons e rest ih =>
    obtain ⟨k, v⟩ := e
    by_cases hk : k = key
    · subst hk
      rw [erase, List.filter_cons_of_neg (by simp), ← erase, ih, get?]
      by_cases ho : other = k
      · rw [if_pos ho, if_pos ho]
      · rw [if_neg ho, if_neg ho, if_neg (Ne.symm ho)]
    · rw [erase, List.filter_cons_of_pos (by simpa using hk), ← erase, get?, get?, ih]
      by_cases ho : k = other
      · rw [if_pos ho, if_pos ho, if_neg (ho ▸ hk)]
      · rw [if_neg ho, if_neg ho]

/-- The keys after an insertion. -/
theorem contains_insert (key other : String) (value : α) (t : Table α) :
    contains other (insert key value t) = (decide (other = key) || contains other t) := by
  rw [contains, get?_insert]
  by_cases h : other = key <;> simp [h, contains]

/-- A table has exactly its keys. -/
theorem contains_iff_mem_keys (key : String) (t : Table α) :
    contains key t = true ↔ key ∈ keys t := by
  induction t with
  | nil => simp [contains, get?, keys]
  | cons e rest ih =>
    obtain ⟨k, v⟩ := e
    rw [contains] at ih ⊢
    rw [get?, keys, List.map_cons, List.mem_cons, ← keys, ← ih]
    by_cases h : k = key
    · simp [h]
    · rw [if_neg h]
      exact ⟨Or.inr, fun h' => h'.resolve_left (Ne.symm h)⟩

/-- What a key answers is an entry of the table. -/
theorem mem_of_get? {key : String} {value : α} {t : Table α} (h : t.get? key = some value) :
    (key, value) ∈ t := by
  induction t with
  | nil => simp [get?] at h
  | cons e rest ih =>
    obtain ⟨k, v⟩ := e
    rw [get?] at h
    split_ifs at h with hk
    · rw [← hk, ← Option.some.inj h]
      exact List.mem_cons_self
    · exact List.mem_cons_of_mem _ (ih h)

/-! ## Swapping insertions -/

/-- Insertions under different keys may be swapped.

**Proof sketch.** Let `a < b` be the keys.  The first entry that is not less than `a` is not behind the
first that is not less than `b`; so inserting either neither moves the place of the other nor fills it. -/
theorem insert_comm_of_lt {a b : String} (h : a < b) (x y : α) (t : Table α) :
    insert a x (insert b y t) = insert b y (insert a x t) := by
  have hba : ¬ b < a := not_lt_of_gt h
  have hne : b ≠ a := (ne_of_lt h).symm
  induction t with
  | nil => simp only [insert, if_pos h, if_neg hba, if_neg hne]
  | cons e rest ih =>
    obtain ⟨k, v⟩ := e
    rcases lt_trichotomy k a with hka | rfl | hka
    · -- the entry is passed over by both
      have hkb : k < b := lt_trans hka h
      simp only [insert, if_pos hka, if_pos hkb, ih]
    · simp only [insert, if_pos h, lt_irrefl, if_true, if_false]
    · -- `a` is set before the entry, and `b` goes on from it as it would without `a`
      have hka' : ¬ k < a := not_lt_of_gt hka
      have hka'' : k ≠ a := (ne_of_lt hka).symm
      by_cases hkb : k < b
      · simp only [insert, if_pos hkb, if_neg hka', if_neg hka'', if_pos h]
      · by_cases heq : k = b
        · simp only [insert, if_neg hkb, if_pos heq, if_neg hka', if_neg hka'', if_neg hba,
            if_neg hne, if_pos h]
        · simp only [insert, if_neg hkb, if_neg heq, if_neg hka', if_neg hka'', if_neg hba,
            if_neg hne, if_pos h]

/-- Insertions under different keys may be swapped. -/
theorem insert_comm {a b : String} (h : a ≠ b) (x y : α) (t : Table α) :
    insert a x (insert b y t) = insert b y (insert a x t) := by
  rcases lt_or_gt_of_ne h with hlt | hlt
  · exact insert_comm_of_lt hlt x y t
  · exact (insert_comm_of_lt hlt y x t).symm

/-! ## Ordered tables -/

/-- The keys are strictly increasing. -/
def Ordered (t : Table α) : Prop := t.Pairwise fun a b => a.1 < b.1

instance (t : Table α) : Decidable t.Ordered :=
  inferInstanceAs (Decidable (t.Pairwise fun a b => a.1 < b.1))

/-- The entries after an insertion are the new one and old ones. -/
theorem eq_or_mem_of_mem_insert {key : String} {value : α} {t : Table α} {e : String × α}
    (h : e ∈ insert key value t) : e = (key, value) ∨ e ∈ t := by
  induction t with
  | nil => exact Or.inl (List.mem_singleton.mp h)
  | cons d rest ih =>
    obtain ⟨k, v⟩ := d
    rw [insert] at h
    split_ifs at h
    · rcases List.mem_cons.mp h with h | h
      · exact Or.inr (h ▸ List.mem_cons_self)
      · exact (ih h).imp_right (List.mem_cons_of_mem _)
    · rcases List.mem_cons.mp h with h | h
      · exact Or.inl h
      · exact Or.inr (List.mem_cons_of_mem _ h)
    · exact List.mem_cons.mp h

/-- Insertions keep a table ordered.

**Proof sketch.** Induction on the table.  The new key goes in front of the first key that is greater, takes the
place of an equal one, or is inserted behind; in each case what comes first is below what follows. -/
theorem Ordered.insert {t : Table α} (ht : t.Ordered) (key : String) (value : α) :
    (t.insert key value).Ordered := by
  induction t with
  | nil => exact List.pairwise_singleton _ _
  | cons e rest ih =>
    obtain ⟨k, v⟩ := e
    obtain ⟨hhead, htail⟩ := List.pairwise_cons.mp ht
    rw [Table.insert]
    split_ifs with hlt heq
    · refine List.pairwise_cons.mpr ⟨fun d hd => ?_, ih htail⟩
      rcases eq_or_mem_of_mem_insert hd with rfl | hd
      · exact hlt
      · exact hhead d hd
    · exact List.pairwise_cons.mpr ⟨fun d hd => heq ▸ hhead d hd, htail⟩
    · have hkey : key < k := lt_of_le_of_ne (not_lt.mp hlt) (Ne.symm heq)
      refine List.pairwise_cons.mpr ⟨fun d hd => ?_, ht⟩
      rcases List.mem_cons.mp hd with rfl | hd
      · exact hkey
      · exact lt_trans hkey (hhead d hd)

/-- The entries of an ordered table are what its keys answer.

**Proof sketch.** Induction on the table: the first key is below all others, so no later entry has the same key, and
the first answer is the only one. -/
theorem Ordered.mem_iff_get? {t : Table α} (ht : t.Ordered) (key : String) (value : α) :
    (key, value) ∈ t ↔ t.get? key = some value := by
  induction t with
  | nil => simp [get?]
  | cons e rest ih =>
    obtain ⟨k, v⟩ := e
    obtain ⟨hhead, htail⟩ := List.pairwise_cons.mp ht
    rw [List.mem_cons, ih htail, get?]
    by_cases h : k = key
    · subst h
      have hnot : get? k rest ≠ some value := fun hget =>
        lt_irrefl k (hhead (k, value) ((ih htail).mpr hget))
      simp [hnot, eq_comm]
    · rw [if_neg h]
      exact ⟨fun h' => h'.resolve_left fun h'' => h (congrArg Prod.fst h'').symm, Or.inr⟩

/-- The first key of an ordered table does not occur again. -/
lemma Ordered.get?_rest {key : String} {value : α} {rest : Table α} (h : Ordered ((key, value) :: rest)) :
    rest.get? key = none := by
  by_contra hsome
  obtain ⟨w, hw⟩ := Option.ne_none_iff_exists'.mp hsome
  exact lt_irrefl key ((List.pairwise_cons.mp h).1 _ (mem_of_get? hw))

/-- **Ordered tables with the same answers are equal.** -/
theorem Ordered.ext {t t' : Table α} (ht : t.Ordered) (ht' : t'.Ordered)
    (h : ∀ key, t.get? key = t'.get? key) : t = t' := by
  have : Std.Irrefl fun a b : String × α => a.1 < b.1 := ⟨fun a => lt_irrefl a.1⟩
  have : Std.Antisymm fun a b : String × α => a.1 < b.1 :=
    ⟨fun a b hab hba => absurd hba (lt_asymm hab)⟩
  refine List.Pairwise.eq_of_mem_iff ht ht' fun e => ?_
  obtain ⟨key, value⟩ := e
  rw [ht.mem_iff_get?, ht'.mem_iff_get?, h]

/-- **An ordered table of values of one kind**. -/
def Holding (p : α → Prop) (t : Table α) : Prop := t.Ordered ∧ ∀ e ∈ t, p e.2

namespace Holding

variable {p : α → Prop} {t : Table α}

/-- The empty table holds values of any kind. -/
lemma nil : Holding p ([] : Table α) := ⟨List.Pairwise.nil, by simp⟩

/-- Insertions of values of the kind keep the table one of that kind. -/
lemma insert (h : t.Holding p) (key : String) {value : α} (hvalue : p value) :
    (t.insert key value).Holding p := by
  refine ⟨h.1.insert key value, fun e he => ?_⟩
  rcases eq_or_mem_of_mem_insert he with rfl | he
  · exact hvalue
  · exact h.2 e he

/-- What a key answers is of the kind. -/
lemma of_get? (h : t.Holding p) {key : String} {value : α} (hget : t.get? key = some value) : p value :=
  h.2 _ (mem_of_get? hget)

/-- Values of another kind that are put in the place of the old ones. -/
lemma map {β : Type} {q : β → Prop} (f : α → β) (h : t.Holding p) (hf : ∀ e ∈ t, q (f e.2)) :
    Holding q (List.map (fun e => (e.1, f e.2)) t) := by
  refine ⟨List.pairwise_map.mpr h.1, ?_⟩
  rw [List.forall_mem_map]
  exact hf

end Holding

/-- The keys of an ordered table are strictly increasing. -/
theorem Ordered.keys {t : Table α} (ht : t.Ordered) : t.keys.Pairwise (· < ·) :=
  List.pairwise_map.mpr ht

end CodeAtlas.Table
