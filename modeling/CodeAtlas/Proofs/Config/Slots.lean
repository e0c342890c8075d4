import CodeAtlas.Proofs.Config.Merge

/-!
# Sections are read slot by slot

A section has one slot for each of its settings.  Reading entries into a section changes the slot of each entry
and no other, so the slots can be looked at one by one: a slot that is given holds what its value denotes, and any
other holds what it held.  Reading fails only at a value that denotes nothing for its slot.

## Main definitions

* `CodeAtlas.Config.Denotes` — what a value denotes, for a kind of setting.
* `CodeAtlas.Config.Schema.Slots` — a section as independent slots.

## Main results

* `CodeAtlas.Config.Kind.decode_eq_ok_iff` — values are read as what they denote.
* `CodeAtlas.Config.Schema.Slots.setEntries_eq_ok_iff` — entries are read slot by slot.
* `CodeAtlas.Config.Schema.Slots.setEntries_eq_error` — entries are refused for a slot.
-/

namespace CodeAtlas.Config

/-! ## What values denote -/

/-- The kinds of settings. -/
inductive Kind where
  /-- Where the graph is stored. -/
  | backend
  /-- A text. -/
  | text
  /-- A natural number. -/
  | number
  /-- A list of texts. -/
  | texts
  deriving DecidableEq

/-- What a setting of a kind holds. -/
abbrev Kind.type : Kind → Type
  | .backend => Backend
  | .text => String
  | .number => Nat
  | .texts => List String

/-- A text, or a single character. -/
inductive IsText : Value.Form → String → Prop
  | text (s : String) : IsText (.scalar (.text s)) s
  | char (c : Char) : IsText (.scalar (.char c)) c.toString

/-- **What a value denotes**, for a kind of setting.  A value that denotes nothing is ill-typed. -/
inductive Denotes : (kind : Kind) → Value.Form → kind.type → Prop
  | backend (b : Backend) : Denotes .backend (.scalar (.text b.name)) b
  | text {f : Value.Form} {s : String} (h : IsText f s) : Denotes .text f s
  | unsigned (n : Nat) : Denotes .number (.scalar (.unsigned n)) n
  | signed (n : Nat) : Denotes .number (.scalar (.signed n)) n
  | texts {items : List Value} {ss : List String} (h : List.Forall₂ (fun v s => IsText v.form s) items ss) :
      Denotes .texts (.list items) ss

/-- The reader of a kind, for settings that messages describe as `expected`. -/
def Kind.decode (expected : String) : (kind : Kind) → Decoder kind.type
  | .backend => decodeBackend
  | .text => decodeText expected
  | .number => decodeNat expected
  | .texts => decodeList

/-- Texts are read as what they are. -/
lemma decodeText_eq_ok_iff (expected : String) (v : Value) (s : String) :
    decodeText expected v = .ok s ↔ IsText v.form s := by
  constructor
  · intro h
    unfold decodeText at h
    split at h
    · cases h
      exact .text _
    · cases h
      exact .char _
    · cases h
  · intro h
    cases v with
    | scalar o x =>
      cases h with
      | text => rfl
      | char => rfl
    | list => cases h
    | table => cases h

/-- Numbers are read as what they are. -/
lemma decodeNat_eq_ok_iff (expected : String) (v : Value) (n : Nat) :
    decodeNat expected v = .ok n ↔ Denotes .number v.form n := by
  constructor
  · intro h
    unfold decodeNat at h
    split at h
    · cases h
      exact .unsigned _
    · rename_i i
      split_ifs at h with hi
      cases h
      have hcast : (i.toNat : Int) = i := Int.toNat_of_nonneg (by omega)
      have hsigned := Denotes.signed i.toNat
      rwa [hcast] at hsigned
    · cases h
  · intro h
    cases v with
    | scalar o x =>
      cases h with
      | unsigned => rfl
      | signed => rfl
    | list => cases h
    | table => cases h

/-- Lists of texts are read item by item.

**Proof sketch.** Induction on the items.  The list is read if its first item is a text and the rest is read, and
then the texts stand for the items one by one. -/
lemma decodeTexts_eq_ok_iff (index : Nat) (items : List Value) (ss : List String) :
    decodeTexts index items = .ok ss ↔ List.Forall₂ (fun v s => IsText v.form s) items ss := by
  induction items generalizing index ss with
  | nil =>
    rw [decodeTexts, List.forall₂_nil_left_iff]
    exact ⟨fun h => (Except.ok.inj h).symm, fun h => congrArg _ h.symm⟩
  | cons v rest ih =>
    rw [decodeTexts, List.forall₂_cons_left_iff]
    constructor
    · intro h
      cases hv : decodeText "a string" v with
      | error f =>
        rw [hv] at h
        cases h
      | ok s =>
        rw [hv] at h
        cases hrest : decodeTexts (index + 1) rest with
        | error f =>
          rw [hrest] at h
          cases h
        | ok more =>
          rw [hrest] at h
          cases h
          exact ⟨s, more, (decodeText_eq_ok_iff _ _ _).mp hv, (ih _ _).mp hrest, rfl⟩
    · rintro ⟨s, more, hs, hmore, rfl⟩
      rw [(decodeText_eq_ok_iff "a string" v s).mpr hs, (ih (index + 1) more).mpr hmore]
      rfl

/-- A backend is read by its name.

**Proof sketch.** By the form of the value.  A text is read if it is the name of a backend, which is found by its
name; a table with one entry and anything else is refused. -/
lemma decodeBackend_eq_ok_iff (v : Value) (b : Backend) :
    decodeBackend v = .ok b ↔ Denotes .backend v.form b := by
  constructor
  · intro h
    unfold decodeBackend at h
    split at h
    · rename_i o s
      unfold decodeBackend.byName at h
      split at h
      · rename_i b' hfind
        cases h
        have hname := List.find?_some hfind
        rw [decide_eq_true_eq] at hname
        subst hname
        exact .backend b
      · cases h
    · cases h
    · rename_i o name w rest
      cases hname : decodeBackend.byName o name with
      | error f =>
        rw [hname] at h
        cases h
      | ok b' =>
        rw [hname] at h
        cases h
    · cases h
  · intro h
    cases v with
    | scalar o x =>
      cases h
      cases b <;> rfl
    | list => cases h
    | table => cases h

/-- **Values are read as what they denote.** -/
theorem Kind.decode_eq_ok_iff (expected : String) (kind : Kind) (v : Value) (x : kind.type) :
    kind.decode expected v = .ok x ↔ Denotes kind v.form x := by
  cases kind with
  | backend => exact decodeBackend_eq_ok_iff v x
  | text =>
    refine (decodeText_eq_ok_iff expected v x).trans ⟨.text, fun h => ?_⟩
    cases h with
    | text h => exact h
  | number => exact decodeNat_eq_ok_iff expected v x
  | texts =>
    cases v with
    | list o items =>
      refine (decodeTexts_eq_ok_iff 0 items x).trans ⟨.texts, fun h => ?_⟩
      cases h with
      | texts h => exact h
    | scalar o s => constructor <;> intro h <;> cases h
    | table o entries => constructor <;> intro h <;> cases h

/-! ## Sections as slots -/

/-- **A section as independent slots**: each has a name, a reader, and a place in the section. -/
structure Schema.Slots {α : Type} (S : Schema α) (κ : Type) where
  /-- What a slot holds. -/
  Content : κ → Type
  /-- The key of a slot. -/
  name : κ → String
  /-- The reader of a slot. -/
  decode : (k : κ) → Decoder (Content k)
  /-- What a slot holds in a section, if anything. -/
  get : (k : κ) → α → Option (Content k)
  /-- The section with a slot filled. -/
  put : (k : κ) → Content k → α → α
  name_inj : ∀ j k, name j = name k → j = k
  set_name : ∀ k v a, S.set (name k) v a = (decode k v).map (put k · a)
  set_other : ∀ key v a, (∀ k, name k ≠ key) → S.set key v a = .ok a
  get_put : ∀ k x a, get k (put k x a) = some x
  get_put_of_ne : ∀ j k x a, j ≠ k → get j (put k x a) = get j a
  ext : ∀ a b, (∀ k, get k a = get k b) → a = b

/-- A section after reading what was found for it, if anything. -/
def Schema.Reads {α : Type} (S : Schema α) (a : α) (found : Option Value) (b : α) : Prop :=
  match found with
  | none => a = b
  | some w => S.decode a w = .ok b

namespace Schema.Slots

variable {α κ : Type} {S : Schema α} (L : S.Slots κ)

/-- What a slot holds after reading: what was found for it, or what it held. -/
def Takes (k : κ) (found : Option Value) (a b : α) : Prop :=
  match found with
  | none => L.get k b = L.get k a
  | some v => ∃ x, L.decode k v = .ok x ∧ L.get k b = some x

/-- **Entries are read slot by slot.**

**Proof sketch.** Induction on the entries.  An entry for a slot is read into it, and since keys are in order no
later entry has its key: the slot holds what was read, and the other slots are left to the rest.  An entry for no
slot is passed over. -/
theorem setEntries_eq_ok_iff {entries : Table Value} (h : entries.Ordered) (a b : α) :
    S.setEntries entries a = .ok b ↔ ∀ k, L.Takes k (entries.get? (L.name k)) a b := by
  induction entries generalizing a with
  | nil =>
    constructor
    · intro hab k
      cases hab
      rfl
    · intro htakes
      exact congrArg _ (L.ext a b fun k => (htakes k).symm)
  | cons e rest ih =>
    obtain ⟨key, v⟩ := e
    have ih := ih (List.pairwise_cons.mp h).2
    rw [setEntries]
    by_cases hk : ∃ k, L.name k = key
    · obtain ⟨k, rfl⟩ := hk
      -- the slots other than `k` are found in the rest, and `k` is not
      have hself : Table.get? (L.name k) ((L.name k, v) :: rest) = some v := if_pos rfl
      have hother : ∀ j, j ≠ k → Table.get? (L.name j) ((L.name k, v) :: rest) = Table.get? (L.name j) rest :=
        fun j hj => if_neg fun heq => hj (L.name_inj _ _ heq.symm)
      rw [L.set_name]
      cases hdecode : L.decode k v with
      | error f =>
        constructor
        · intro hab
          cases hab
        · intro htakes
          have hk := htakes k
          rw [hself] at hk
          obtain ⟨x, hx, -⟩ := hk
          rw [hdecode] at hx
          cases hx
      | ok x =>
        refine (ih (L.put k x a)).trans (forall_congr' fun j => ?_)
        by_cases hj : j = k
        · subst hj
          rw [hself, h.get?_rest]
          simp only [Takes, L.get_put, hdecode, Except.ok.injEq, exists_eq_left']
        · rw [hother j hj]
          simp only [Takes, L.get_put_of_ne j k x a hj]
    · have hnone : ∀ k, L.name k ≠ key := fun k hname => hk ⟨k, hname⟩
      rw [L.set_other key v a hnone]
      refine (ih a).trans (forall_congr' fun j => ?_)
      rw [Table.get?, if_neg (hnone j).symm]

/-- **Reading fails only at a slot** whose reader refuses what was found for it.

**Proof sketch.** Induction on the entries.  Either the first entry is for a slot that refuses it, or the failure is
that of the rest; there it is found at a slot whose key stands in the rest, and hence is not that of the first
entry. -/
theorem setEntries_eq_error {entries : Table Value} (h : entries.Ordered) {a : α} {f : Fault}
    (hf : S.setEntries entries a = .error f) :
    ∃ k v f', entries.get? (L.name k) = some v ∧ L.decode k v = .error f' ∧ f = f'.under (L.name k) := by
  induction entries generalizing a with
  | nil => cases hf
  | cons e rest ih =>
    obtain ⟨key, v⟩ := e
    have hrest : ∀ a', S.setEntries rest a' = .error f → ∃ k v' f',
        Table.get? (L.name k) ((key, v) :: rest) = some v' ∧ L.decode k v' = .error f' ∧
          f = f'.under (L.name k) := by
      intro a' hf'
      obtain ⟨k, v', f', hget, hdecode, rfl⟩ := ih (List.pairwise_cons.mp h).2 hf'
      have hne : key ≠ L.name k := by
        rintro rfl
        rw [h.get?_rest] at hget
        cases hget
      exact ⟨k, v', f', by rwa [Table.get?, if_neg hne], hdecode, rfl⟩
    rw [setEntries] at hf
    by_cases hk : ∃ k, L.name k = key
    · obtain ⟨k, rfl⟩ := hk
      rw [L.set_name] at hf
      cases hdecode : L.decode k v with
      | error f' =>
        rw [hdecode] at hf
        exact ⟨k, v, f', if_pos rfl, hdecode, (Except.error.inj hf).symm⟩
      | ok x =>
        rw [hdecode] at hf
        exact hrest _ hf
    · rw [L.set_other key v a fun k hname => hk ⟨k, hname⟩] at hf
      exact hrest _ hf

/-- **A section that may be given as a table** is read slot by slot. -/
theorem reads_iff {found : Option Value} (h : ∀ w, found = some w → w.IsTable ∧ w.Ordered) (a b : α) :
    S.Reads a found b ↔ ∀ k, L.Takes k (found.bind (·.get? [L.name k])) a b := by
  cases found with
  | none => exact ⟨fun heq k => heq ▸ rfl, fun htakes => L.ext a b fun k => (htakes k).symm⟩
  | some w =>
    obtain ⟨⟨o, entries, rfl⟩, hordered⟩ := h w rfl
    cases hordered with
    | table hkeys _ =>
      refine (L.setEntries_eq_ok_iff hkeys a b).trans (forall_congr' fun k => ?_)
      rw [Option.bind_some, Value.get?_singleton]

/-- A section that is given as a table is refused for one of its slots. -/
theorem decode_eq_error {w : Value} (htable : w.IsTable) (hordered : w.Ordered) {a : α} {f : Fault}
    (h : S.decode a w = .error f) :
    ∃ k v f', w.get? [L.name k] = some v ∧ L.decode k v = .error f' ∧ f = f'.under (L.name k) := by
  obtain ⟨o, entries, rfl⟩ := htable
  cases hordered with
  | table hkeys _ =>
    obtain ⟨k, v, f', hget, hf', rfl⟩ := L.setEntries_eq_error hkeys h
    exact ⟨k, v, f', by rwa [Value.get?_singleton], hf', rfl⟩

end Schema.Slots

end CodeAtlas.Config
