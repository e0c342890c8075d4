import CodeAtlas.Entity.Record
import CodeAtlas.Proofs.Number.Exact

/-!
# Records are read back

A record is written as a table of eleven fields.  The reader finds every field under its own name and
gives the record back, provided that its lines fit a word and that its vector has finite numbers only: a
number is widened on the way and narrowed again, which loses nothing, but infinities have no numeral.

## Main definitions

* `CodeAtlas.Entity.Record.Storable` — what can be written without loss.
* `CodeAtlas.Entity.Record.toTable` — the fields of a record, as they are stored.

## Main results

* `CodeAtlas.Json.readList_ofVector` — finite vectors are read back.
* `CodeAtlas.Json.readList_ofVector_of_not_isFinite` — other vectors are refused.
* `CodeAtlas.Entity.Record.read_toTable` — records are read back.
* `CodeAtlas.Entity.Record.read_toTable_of_not_isFinite` — records with other vectors are refused.
-/

namespace CodeAtlas

open Number (Word.greatestUnsigned)

namespace Json

/-- A size that fits a word is read. -/
lemma readSize_natCast {n : Nat} (h : n ≤ Word.greatestUnsigned) : readSize (.int n) = .ok n := by
  have hfits : (0 : Int) ≤ n ∧ (n : Int) ≤ Word.greatestUnsigned := by omega
  rw [readSize, readInt, if_pos hfits]
  rfl

/-- Items are read one by one. -/
lemma readItems_map {α : Type} {item : Reader α} {write : α → Json} {as : List α}
    (h : ∀ a ∈ as, item (write a) = .ok a) : readItems item (as.map write) = .ok as := by
  induction as with
  | nil => rfl
  | cons a rest ih =>
    rw [List.forall_mem_cons] at h
    rw [List.map_cons, readItems, h.1, ih h.2]

/-- **A vector of finite numbers is read back**, bit by bit. -/
theorem readList_ofVector {vector : List Number.Binary32} (h : ∀ x ∈ vector, x.isFinite = true) :
    readList readSingle (ofVector vector) = .ok vector := by
  refine readItems_map fun x hx => ?_
  rw [if_pos (h x hx), readSingle, Number.Binary32.ofBinary64_toBinary64 (h x hx)]

/-- Items of which one is refused are refused. -/
lemma exists_readItems_eq_error {α : Type} {item : Reader α} {vs : List Json}
    (h : ∃ v ∈ vs, ∃ e, item v = .error e) : ∃ e, readItems item vs = .error e := by
  induction vs with
  | nil =>
    obtain ⟨v, hv, -⟩ := h
    cases hv
  | cons v rest ih =>
    rw [readItems]
    cases hv : item v with
    | error e => exact ⟨e, rfl⟩
    | ok a =>
      have hrest : ∃ w ∈ rest, ∃ e, item w = .error e := by
        obtain ⟨w, hw, e, he⟩ := h
        rcases List.mem_cons.mp hw with rfl | hw
        · rw [hv] at he
          cases he
        · exact ⟨w, hw, e, he⟩
      obtain ⟨e, he⟩ := ih hrest
      exact ⟨e, by rw [he]⟩

/-- **A vector with an infinity is refused**: it was written as null. -/
theorem readList_ofVector_of_not_isFinite {vector : List Number.Binary32}
    (h : ∃ x ∈ vector, x.isFinite = false) : ∃ e, readList readSingle (ofVector vector) = .error e := by
  obtain ⟨x, hx, hinfinite⟩ := h
  refine exists_readItems_eq_error ⟨.null, ?_, _, rfl⟩
  rw [List.mem_map]
  exact ⟨x, hx, if_neg (by simp [hinfinite])⟩

end Json

namespace Entity

open Json

/-- A kind is read back from its label. -/
lemma Kind.read_label (k : Kind) : Kind.read (.str k.label) = .ok k := by
  cases k <;> rfl

namespace Record

/-- **What can be written without loss**: lines that fit a word and vectors of finite numbers. -/
structure Storable (r : Record) : Prop where
  /-- The first line fits a word. -/
  startLine_le : r.startLine ≤ Word.greatestUnsigned
  /-- The last line fits a word. -/
  endLine_le : r.endLine ≤ Word.greatestUnsigned
  /-- Every number of the vector is finite. -/
  isFinite : ∀ x ∈ r.embedding, x.isFinite = true

/-- The fields of a record as they are stored, in the order of their names. -/
def toTable (r : Record) : Table Json :=
  [("created", .str r.created), ("doc", .str r.doc), ("embedding", .ofVector r.embedding),
   ("endLine", .int r.endLine), ("kind", .str r.kind.label), ("language", .str r.language),
   ("name", .str r.name), ("path", .str r.path), ("snippet", .str r.snippet),
   ("startLine", .int r.startLine), ("uid", .str r.uid)]

/-- What the reader makes of the fields of a record. -/
def toFields (r : Record) : Table Field :=
  [("created", .text r.created), ("doc", .text r.doc), ("embedding", .vector r.embedding),
   ("endLine", .line r.endLine), ("kind", .kind r.kind), ("language", .text r.language),
   ("name", .text r.name), ("path", .text r.path), ("snippet", .text r.snippet),
   ("startLine", .line r.startLine), ("uid", .text r.uid)]

/-- A field that is read stands before those that follow. -/
lemma readFields_cons {key : String} {v : Json} {field : Field} {rest : Table Json} {fields : Table Field}
    (hname : fieldNames.contains key = true) (hfield : readField key v = .ok field)
    (hrest : readFields rest = .ok fields) :
    readFields ((key, v) :: rest) = .ok ((key, field) :: fields) := by
  rw [readFields, if_pos hname, hfield, hrest]

/-- A refused field is refused with the fields after it. -/
lemma readFields_refused {key : String} {v : Json} {e : Refusal} (hname : fieldNames.contains key = true)
    (hfield : readField key v = .error e) (rest : Table Json) : readFields ((key, v) :: rest) = .error e := by
  rw [readFields, if_pos hname, hfield]

/-- Fields that are refused are refused with the fields before them. -/
lemma readFields_cons_error {key : String} {v : Json} {field : Field} {rest : Table Json} {e : Refusal}
    (hname : fieldNames.contains key = true) (hfield : readField key v = .ok field)
    (hrest : readFields rest = .error e) : readFields ((key, v) :: rest) = .error e := by
  rw [readFields, if_pos hname, hfield, hrest]

/-- **Every field is read under its own name.** -/
lemma readFields_toTable {r : Record} (h : r.Storable) : readFields r.toTable = .ok r.toFields := by
  have hvector : readField "embedding" (.ofVector r.embedding) = .ok (.vector r.embedding) := by
    simp [readField, readList_ofVector h.isFinite, Except.map]
  have hstart : readField "startLine" (.int r.startLine) = .ok (.line r.startLine) := by
    simp [readField, readSize_natCast h.startLine_le, Except.map]
  have hend : readField "endLine" (.int r.endLine) = .ok (.line r.endLine) := by
    simp [readField, readSize_natCast h.endLine_le, Except.map]
  have hkind : readField "kind" (.str r.kind.label) = .ok (.kind r.kind) := by
    simp [readField, Kind.read_label, Except.map]
  exact readFields_cons rfl rfl <| readFields_cons rfl rfl <| readFields_cons rfl hvector <|
    readFields_cons rfl hend <| readFields_cons rfl hkind <| readFields_cons rfl rfl <|
    readFields_cons rfl rfl <| readFields_cons rfl rfl <| readFields_cons rfl rfl <|
    readFields_cons rfl hstart <| readFields_cons rfl rfl rfl

/-- The fields of a record make up the record. -/
lemma ofFields_toFields (r : Record) : ofFields r.toFields = .ok r := by
  rfl

/-- **Records are read back.** -/
theorem read_toTable {r : Record} (h : r.Storable) : read (.obj r.toTable) = .ok r := by
  rw [read, readFields_toTable h]
  exact ofFields_toFields r

/-- **A record whose vector has an infinity is refused.** -/
theorem read_toTable_of_not_isFinite {r : Record} (h : ∃ x ∈ r.embedding, x.isFinite = false) :
    ∃ e, read (.obj r.toTable) = .error e := by
  obtain ⟨e, he⟩ := readList_ofVector_of_not_isFinite h
  have hvector : readField "embedding" (.ofVector r.embedding) = .error e := by
    simp [readField, he, Except.map]
  -- the date and the documentation are read before the vector
  have hfields : readFields r.toTable = .error e := by
    rw [toTable]
    exact readFields_cons_error rfl rfl <| readFields_cons_error rfl rfl <|
      readFields_refused rfl hvector _
  exact ⟨e, by rw [read, hfields]; rfl⟩

end Record

end Entity

end CodeAtlas
