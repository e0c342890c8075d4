import CodeAtlas.Proofs.Embedding.Outcome
import CodeAtlas.Proofs.Graph.Retrieval
import CodeAtlas.Proofs.Json.Numeral

/-!
# Which vectors of a provider can be read back

The only condition on a vector of a provider is its length.  Each of its components is a numeral of the reply,
rounded to the small format; a numeral that is too large for this format becomes an infinity, which the store
keeps as null.  So the record of an entity with such a vector can be looked up exactly if every numeral of the
vector is below half a unit above the greatest number of the format; beyond that, looking it up fails.

## Main definitions

* `CodeAtlas.Embedding.Reply.Numerals` — the numerals of the first vector that a reply lists.

## Main results

* `CodeAtlas.Embedding.numerals_of_carries` — a vector comes from the numerals of the reply.
* `CodeAtlas.Graph.Repository.findEntity_upserted` — looking up what was stored last.
* `CodeAtlas.Embedding.Remote.embed_readable_iff_in_range` — which vectors of a provider can be read back.
* `CodeAtlas.Embedding.Remote.embed_accepts_infinity` — a vector that cannot.
-/

namespace CodeAtlas

open Number (Word.greatestUnsigned)

/-! ## Looking up what was stored last -/

namespace Graph

open Memory (Contents)

namespace Repository

/-- A node that is refused makes looking it up fail. -/
lemma findEntity_of_read_eq_error {m : Memory} {uid : String} {node : Table Json} {e : Json.Refusal}
    (hnode : m.contents.entities.get? uid = some node) (hread : Entity.Record.read (.obj node) = .error e) :
    findEntity Memory.store uid m = (.error (Row.unreadable "entity" e), m) := by
  rw [findEntity, fetchOne_findEntity, hnode]
  dsimp only [Option.map_some]
  rw [Row.get, Row.single, Table.get?, if_pos rfl]
  dsimp only
  rw [hread]
  rfl

/-- **What is stored by one more batch**, whatever the calls before it: the last entity of the batch with an
identity, with the date on which something was first stored under it.

**Proof sketch.** The calls leave the graph of the batches that they stored, and the batch that succeeds is one more
of them.  Its entity is the last version under its identity; so it is stored with the date of the first one. -/
lemma get?_entities_upserted {events : List Event} (hcalls : ∀ event ∈ events, event.IsCall) {batch : Deposit}
    {m' : Memory}
    (hupsert : upsertBatch Memory.store batch.now batch.path batch.entities (history events).2.state =
      (.ok (), m'))
    {before later : List Embedded} {e : Embedded} (hentities : batch.entities = before ++ e :: later)
    (hlater : ∀ e' ∈ later, e'.1.uid batch.path ≠ e.1.uid batch.path) :
    ∃ created, m'.contents.entities.get? (e.1.uid batch.path) =
      some ((Version.mk batch.now batch.path e).record (.str created)) := by
  set made := deposits (history events).1 with hmade
  have hm' : m'.contents = Contents.putDeposits {} (made ++ [batch]) := by
    have hcases := upsertBatch_cases Memory.store_buffered batch.now batch.path batch.entities
      (history events).2.state
    rw [hupsert] at hcases
    rcases hcases with ⟨-, hgraph⟩ | ⟨⟨f, hf⟩, -⟩
    · rw [Contents.putDeposits_append, hmade, ← contents_history hcalls]
      exact hgraph
    · cases hf
  have hlast : IsLast (e.1.uid batch.path) ⟨batch.now, batch.path, e⟩ (versions (made ++ [batch])) := by
    refine ⟨rfl, versions made ++ before.map (Version.mk batch.now batch.path),
      later.map (Version.mk batch.now batch.path), ?_, ?_⟩
    · simp [versions, Deposit.versions, hentities]
    · rw [List.forall_mem_map]
      exact hlater
  obtain ⟨first, last, -, hlast', hnode⟩ :=
    (Contents.gains_putDeposits {} (made ++ [batch])).get?_eq_record hlast.mem
  obtain rfl := hlast'.unique hlast
  rw [← hm'] at hnode
  exact ⟨first.now, hnode⟩

/-- **Looking up what was stored last** finds it exactly if its vector is finite, and fails otherwise.

**Proof sketch.** What was stored last is found as a record.  Reading it back succeeds if the numbers of the vector
are finite and the lines fit their words; a vector with another number is refused. -/
theorem findEntity_upserted {events : List Event} (hcalls : ∀ event ∈ events, event.IsCall) (batch : Deposit)
    {m' : Memory}
    (hupsert : upsertBatch Memory.store batch.now batch.path batch.entities (history events).2.state =
      (.ok (), m'))
    {before later : List Embedded} {e : Entity} {v : Embedding.Vector}
    (hentities : batch.entities = before ++ (e, v) :: later)
    (hlater : ∀ e' ∈ later, e'.1.uid batch.path ≠ e.uid batch.path)
    (hstart : e.startLine ≤ Word.greatestUnsigned) (hend : e.endLine ≤ Word.greatestUnsigned) :
    ((∀ x ∈ v, x.isFinite = true) → ∃ record, findEntity Memory.store (e.uid batch.path) m' =
      (.ok (some record), m') ∧ record.embedding = v) ∧
    ((∃ x ∈ v, x.isFinite = false) → ∃ f, findEntity Memory.store (e.uid batch.path) m' = (.error f, m')) := by
  obtain ⟨created, hnode⟩ := get?_entities_upserted hcalls hupsert hentities hlater
  constructor
  · intro hfinite
    have hstorable : (Version.mk batch.now batch.path (e, v)).Storable := ⟨hstart, hend, hfinite⟩
    exact ⟨_, findEntity_of_get? hnode (Version.read_record hstorable created), rfl⟩
  · intro hinfinite
    obtain ⟨refusal, hread⟩ := Entity.Record.read_toTable_of_not_isFinite
      (r := (Version.mk batch.now batch.path (e, v)).stored created) hinfinite
    exact ⟨_, findEntity_of_read_eq_error hnode hread⟩

end Repository

end Graph

/-! ## Vectors of replies -/

namespace Embedding

open CodeAtlas.Json (Document Numeral)

/-- **The numerals of the first vector** that a reply lists. -/
def Reply.Numerals (r : Reply) (numerals : List Numeral) : Prop :=
  ∃ d first others, Document.read r.content = some d ∧ Holds "data" d (.array (first :: others)) ∧
    Holds "embedding" first (.array (numerals.map .number))

/-- The numeral is a number of the small format, when it is rounded to it. -/
def InRange (n : Numeral) : Prop := ∃ q, n.magnitude? = some q ∧ q < 2 ^ 128 - 2 ^ 103

/-- **A numeral and its rounding**: the value of the numeral, rounded to the small format.  This is a number of the
format, or an infinity if the numeral is not in range. -/
structure RoundsTo (n : Numeral) (x : Number.Binary32) : Prop where
  /-- The value is rounded. -/
  rounded : Component (.number n) x
  /-- The result is a number or an infinity. -/
  notNaN : x.datum ≠ .nan
  /-- It is a number exactly for the numerals in range. -/
  isFinite_iff : x.isFinite = true ↔ InRange n

/-- A component is the rounding of a numeral.

**Proof sketch.** A component is read from a numeral, with or without a point; in both cases reading it rounds the
value of the numeral, to a finite number exactly if the value is in range. -/
lemma roundsTo_of_component {d : Document} {x : Number.Binary32} (h : Component d x) :
    ∃ n, d = .number n ∧ RoundsTo n x := by
  have hread : ∀ {n : Numeral} {v : Json}, n.value = some v → Json.readSingle v = .ok x →
      x.datum ≠ .nan ∧ (x.isFinite = true ↔ InRange n) := by
    intro n v hv hx
    obtain ⟨q, hq, hnan, hfinite⟩ := Numeral.isFinite_of_readSingle hv hx
    refine ⟨hnan, hfinite.trans ⟨fun hlt => ⟨q, hq, hlt⟩, ?_⟩⟩
    rintro ⟨q', hq', hlt⟩
    rw [hq] at hq'
    exact Option.some.inj hq' ▸ hlt
  cases id h with
  | int hv =>
    obtain ⟨hnan, hfinite⟩ := hread hv rfl
    exact ⟨_, rfl, h, hnan, hfinite⟩
  | float hv =>
    obtain ⟨hnan, hfinite⟩ := hread hv rfl
    exact ⟨_, rfl, h, hnan, hfinite⟩

/-- Components are the roundings of numerals. -/
lemma roundsTo_of_components {ds : List Document} {v : Vector} (h : List.Forall₂ Component ds v) :
    ∃ numerals : List Numeral, ds = numerals.map .number ∧ List.Forall₂ RoundsTo numerals v := by
  induction h with
  | nil => exact ⟨[], rfl, .nil⟩
  | cons hcomponent _ ih =>
    obtain ⟨n, rfl, hn⟩ := roundsTo_of_component hcomponent
    obtain ⟨numerals, rfl, hrest⟩ := ih
    exact ⟨n :: numerals, rfl, .cons hn hrest⟩

/-- **A vector comes from the numerals of the reply**, one by one. -/
lemma numerals_of_carries {r : Reply} {v : Vector} {others : List Vector} (h : r.Carries (v :: others)) :
    ∃ numerals, r.Numerals numerals ∧ List.Forall₂ RoundsTo numerals v := by
  obtain ⟨d, items, hd, hdata, hitems⟩ := h
  obtain ⟨first, rest, hfirst, -, rfl⟩ := List.forall₂_cons_right_iff.mp hitems
  obtain ⟨components, hholds, hcomponents⟩ := hfirst
  obtain ⟨numerals, rfl, hrounds⟩ := roundsTo_of_components hcomponents
  exact ⟨numerals, ⟨d, first, rest, hd, hdata, hholds⟩, hrounds⟩

/-- The vector is finite exactly if every numeral is in range. -/
lemma forall_isFinite_iff {numerals : List Numeral} {v : Vector} (h : List.Forall₂ RoundsTo numerals v) :
    (∀ x ∈ v, x.isFinite = true) ↔ ∀ n ∈ numerals, InRange n := by
  induction h with
  | nil => simp
  | cons hn _ ih => rw [List.forall_mem_cons, List.forall_mem_cons, ih, hn.isFinite_iff]

namespace Remote

open CodeAtlas.Graph Repository

variable {σ : Type}

/-- A vector comes from a reply. -/
lemma embed_eq_ok_iff {r : Remote} {convert : Url.Host.Conversion} {exchange : Exchange σ} {text : String} {s s' : σ}
    {v : Vector} :
    r.embed convert exchange text s = (.ok v, s') ↔
      ∃ request reply, r.request convert text = .ok request ∧ exchange request s = (some reply, s') ∧
        vector r.dimensions reply = .ok v := by
  unfold embed
  cases hrequest : r.request convert text with
  | error f => simp
  | ok request => rcases hreply : exchange request s with ⟨_ | reply, t⟩ <;> simp [hreply, and_comm]

/-- **Which vectors of a provider can be read back.**  A vector that a provider gives for a text is read from the
numerals of its reply: each component is the value of its numeral, rounded to the small format.  No component is other
than a number or an infinity, and it is a number exactly if its numeral is in range.  Let the vector be stored with an
entity, by one more batch after any calls: if all numerals are in range, looking up the entity finds the vector, and
otherwise looking it up fails.

**Proof sketch.** The vector comes from the reply, whose numerals are rounded one by one; so it is finite exactly if
they are all in range.  What the last batch stored for an entity is what looking it up reads, and reading a record
succeeds exactly if its vector is finite. -/
theorem embed_readable_iff_in_range (r : Remote) (convert : Url.Host.Conversion) (exchange : Exchange σ)
    (text : String) (s s' : σ) (v : Vector) (hembed : r.embed convert exchange text s = (.ok v, s')) :
    ∃ request reply numerals, r.request convert text = .ok request ∧ exchange request s = (some reply, s') ∧
      reply.Numerals numerals ∧ List.Forall₂ RoundsTo numerals v ∧
      ∀ (events : List Event) (batch : Deposit) (before later : List Embedded) (e : Entity) (m' : Memory),
        (∀ event ∈ events, event.IsCall) → batch.entities = before ++ (e, v) :: later →
        (∀ e' ∈ later, e'.1.uid batch.path ≠ e.uid batch.path) →
        e.startLine ≤ Word.greatestUnsigned → e.endLine ≤ Word.greatestUnsigned →
        upsertBatch Memory.store batch.now batch.path batch.entities (history events).2.state = (.ok (), m') →
        ((∀ n ∈ numerals, InRange n) → ∃ record, record.embedding = v ∧
          findEntity Memory.store (e.uid batch.path) m' = (.ok (some record), m')) ∧
        ((∃ n ∈ numerals, ¬ InRange n) → ∃ f,
          findEntity Memory.store (e.uid batch.path) m' = (.error f, m')) := by
  obtain ⟨request, reply, hrequest, hreply, hvector⟩ := embed_eq_ok_iff.mp hembed
  obtain ⟨-, ⟨others, hcarries⟩, -⟩ := (vector_eq_ok_iff _ _ _).mp hvector
  obtain ⟨numerals, hnumerals, hrounds⟩ := numerals_of_carries hcarries
  refine ⟨request, reply, numerals, hrequest, hreply, hnumerals, hrounds, ?_⟩
  intro events batch before later e m' hcalls hentities hlater hstart hend hupsert
  obtain ⟨hfinite, hinfinite⟩ := findEntity_upserted hcalls batch hupsert hentities hlater hstart hend
  constructor
  · intro hrange
    obtain ⟨record, hfind, hvector⟩ := hfinite ((forall_isFinite_iff hrounds).mpr hrange)
    exact ⟨record, hvector, hfind⟩
  · rintro ⟨n, hn, hrange⟩
    refine hinfinite ?_
    by_contra hnone
    refine hrange ((forall_isFinite_iff hrounds).mp ?_ n hn)
    intro x hx
    by_contra hx'
    exact hnone ⟨x, hx, by simpa using hx'⟩

/-- The provider on this machine, for vectors of one length. -/
def localhost (dimensions : Nat) : Remote :=
  ofSettings { endpoint := "http://localhost/v1", dimensions := dimensions } "sk"

/-- A provider with the same reply to every request. -/
def constantly (content : String) : Exchange Unit := .constant fun _ => some ⟨200, Text.Utf8.encode content⟩

/-- The vector of a provider with one reply. -/
lemma embed_constantly {content : String} {v : Vector}
    (hrequest : ((localhost v.length).request Url.Host.plainName "text").toOption.isSome = true)
    (h : vectors? (Text.Utf8.encode content) = some [v]) :
    (localhost v.length).embed Url.Host.plainName (constantly content) "text" () = (.ok v, ()) := by
  cases hr : (localhost v.length).request Url.Host.plainName "text" with
  | error f => simp [hr, Except.toOption] at hrequest
  | ok request =>
    have hcarries := (vectors?_eq_some_iff ⟨200, Text.Utf8.encode content⟩ [v]).mp h
    exact embed_eq_ok_iff.mpr ⟨request, ⟨200, Text.Utf8.encode content⟩, hr, rfl,
      (vector_eq_ok_iff _ _ _).mpr ⟨rfl, ⟨[], hcarries⟩, rfl⟩⟩

/-- A vector whose second component is the greatest number of the format is stored and found. -/
theorem embed_readable_iff_in_range_greatest :
    let content := "\x7b\"data\":[\x7b\"embedding\":[0.5,340282350000000000000000000000000000000]\x7d]\x7d"
    let e : Entity := ⟨.function, "f", .python, 1, 2, "def f(): pass", ""⟩
    let v : Vector := [⟨0x3F000000⟩, ⟨0x7F7FFFFF⟩]
    (localhost 2).embed Url.Host.plainName (constantly content) "text" () = (.ok v, ()) ∧
      ∃ m' record, upsertBatch Memory.store "Monday" "a.py" [(e, v)] (history []).2.state = (.ok (), m') ∧
        record.embedding = v ∧ findEntity Memory.store (e.uid "a.py") m' = (.ok (some record), m') := by
  intro content e v
  have hembed : (localhost 2).embed Url.Host.plainName (constantly content) "text" () = (.ok v, ()) :=
    embed_constantly (v := v) (by decide +kernel) (by decide +kernel)
  refine ⟨hembed, ?_⟩
  obtain ⟨-, -, numerals, -, -, -, hrounds, hread⟩ := embed_readable_iff_in_range _ _ _ _ _ _ _ hembed
  have hrange : ∀ n ∈ numerals, InRange n := (forall_isFinite_iff hrounds).mp (by decide)
  have hfailing : (history []).2.state.failing.contains "a.py" = false := rfl
  have hupsert := upsertBatch_store hfailing "Monday" [(e, v)]
  obtain ⟨record, hvector, hfind⟩ := (hread [] ⟨"Monday", "a.py", [(e, v)]⟩ [] [] e _ (by simp) rfl (by simp)
    (by decide) (by decide) hupsert).1 hrange
  exact ⟨_, record, hupsert, hvector, hfind⟩

/-- **A provider can give an infinity**: a one with 39 zeros is accepted, the entity is stored, and looking it
up fails. -/
theorem embed_accepts_infinity :
    let content := "\x7b\"data\":[\x7b\"embedding\":[1e39]\x7d]\x7d"
    let e : Entity := ⟨.function, "f", .python, 1, 2, "def f(): pass", ""⟩
    let v : Vector := [⟨0x7F800000⟩]
    (localhost 1).embed Url.Host.plainName (constantly content) "text" () = (.ok v, ()) ∧
      ¬ (∀ x ∈ v, x.isFinite = true) ∧
      ∃ m' f, upsertBatch Memory.store "Monday" "a.py" [(e, v)] (history []).2.state = (.ok (), m') ∧
        findEntity Memory.store (e.uid "a.py") m' = (.error f, m') := by
  intro content e v
  refine ⟨embed_constantly (v := v) (by decide +kernel) (by decide +kernel), by decide, ?_⟩
  have hfailing : (history []).2.state.failing.contains "a.py" = false := rfl
  have hupsert := upsertBatch_store hfailing "Monday" [(e, v)]
  have hcalls : ∀ event ∈ ([] : List Event), event.IsCall := by simp
  have hentities : (Deposit.mk "Monday" "a.py" [(e, v)]).entities = [] ++ (e, v) :: [] := rfl
  obtain ⟨f, hfind⟩ := (findEntity_upserted hcalls ⟨"Monday", "a.py", [(e, v)]⟩ hupsert hentities (by simp)
    (by decide) (by decide)).2 (by decide)
  exact ⟨_, f, hupsert, hfind⟩

end Remote

end Embedding

end CodeAtlas
