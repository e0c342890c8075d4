import CodeAtlas.Proofs.Entity.Record
import CodeAtlas.Proofs.Graph.Replay
import CodeAtlas.Proofs.Graph.Versions

/-!
# What is stored can be looked up

A graph that is built by calls of the repository holds what the successful deposits brought, each entity
as a table of properties with its identity and its date.  Looking up a stored identity reads this table
as a record, and no field is lost on the way: the record shows the last version of the entity, down to
the bits of its vector, with the date of the first.  Under any other identity nothing is found.

## Main definitions

* `CodeAtlas.Graph.Event.IsCall` — an event other than a statement or a transaction of one's own.
* `CodeAtlas.Graph.deposits` — the deposits that were made, by events and answers.
* `CodeAtlas.Graph.Version.stored` — the record of a version.

## Main results

* `CodeAtlas.Graph.contents_history` — calls of the repository make the deposits that succeed.
* `CodeAtlas.Graph.Repository.findEntity_stored` — what is found under an identity.
* `CodeAtlas.Graph.Repository.findEntity_reads_back` — what was written is read back.
-/

namespace CodeAtlas.Graph

open Memory (Contents)

/-! ## Records of versions -/

namespace Version

/-- The record of a version. -/
def stored (v : Version) (created : String) : Entity.Record where
  uid := v.uid
  path := v.path
  kind := v.content.1.kind
  name := v.content.1.name
  language := v.content.1.language.id
  startLine := v.content.1.startLine
  endLine := v.content.1.endLine
  snippet := v.content.1.snippet
  doc := v.content.1.doc
  embedding := v.content.2
  created := created

/-- A version whose lines fit a word and whose vector is finite. -/
def Storable (v : Version) : Prop := (v.stored v.now).Storable

/-- **A version is read back from what is stored for it.** -/
lemma read_record {v : Version} (h : v.Storable) (created : String) :
    Entity.Record.read (.obj (v.record (.str created))) = .ok (v.stored created) := by
  have hstorable : (v.stored created).Storable := ⟨h.startLine_le, h.endLine_le, h.isFinite⟩
  exact Entity.Record.read_toTable hstorable

end Version

/-- There is one last version with an identity. -/
lemma IsLast.unique {uid : String} {all : List Version} {v w : Version} (hv : IsLast uid v all)
    (hw : IsLast uid w all) : v = w := by
  have hlast : ∀ {x : Version}, IsLast uid x all →
      (all.filter fun y => y.uid = uid).getLast? = some x := by
    rintro x ⟨hx, before, later, rfl, hlater⟩
    have hnone : later.filter (fun y => y.uid = uid) = [] :=
      List.filter_eq_nil_iff.mpr fun y hy => by simpa using hlater y hy
    rw [List.filter_append, List.filter_cons_of_pos (by simpa using hx), hnone, List.getLast?_concat]
  exact Option.some.inj ((hlast hv).symm.trans (hlast hw))

/-- A version with the identity that comes first is the first one. -/
lemma IsFirst.eq_of_cons {uid : String} {v w : Version} {rest : List Version}
    (h : IsFirst uid v (w :: rest)) (hw : w.uid = uid) : v = w := by
  obtain ⟨-, before, later, hall, hbefore⟩ := h
  cases before with
  | nil => exact (List.cons.inj hall).1.symm
  | cons x before =>
    obtain ⟨rfl, -⟩ := List.cons.inj hall
    exact absurd hw (hbefore w (List.mem_cons_self ..))

/-- The last version is one of the versions. -/
lemma IsLast.mem {uid : String} {all : List Version} {v : Version} (h : IsLast uid v all) : v ∈ all := by
  obtain ⟨-, before, later, rfl, -⟩ := h
  simp

/-! ## Calls of the repository -/

/-- **A call of the repository**, or a path made to fail: neither a statement nor a transaction of one's
own. -/
def Event.IsCall : Event → Prop
  | .failWrites _ => True
  | .step _ .schema => True
  | .step _ (.upsert ..) => True
  | .step _ (.find _) => True
  | .step _ (.uids _) => True
  | .step _ .stats => True
  | .step _ _ => False

/-- The deposit that an event makes if it succeeds. -/
def Event.deposit? : Event → Option Deposit
  | .step now (.upsert path entities) => some ⟨now, path, entities⟩
  | _ => none

/-- The deposits that were made, as events and answers tell. -/
def deposits (observed : List (Event × Answer)) : List Deposit :=
  observed.filterMap fun o => if o.2.succeeded then o.1.deposit? else none

/-- One more event makes its deposit, if it succeeds. -/
lemma deposits_append_singleton (observed : List (Event × Answer)) (o : Event × Answer) :
    deposits (observed ++ [o]) =
      deposits observed ++ (if o.2.succeeded then o.1.deposit? else none).toList := by
  rw [deposits, List.filterMap_append, deposits, List.filterMap_cons]
  split
  · next h => rw [h, List.filterMap_nil, Option.toList_none]
  · next d h => rw [h, List.filterMap_nil, Option.toList_some]

/-- **A call makes its deposit, or changes nothing.**

**Proof sketch.** By the kinds of calls.  A batch is stored or the graph is left as it is; all others commit
nothing. -/
lemma contents_occur_of_isCall (events : List Event) {event : Event} (h : event.IsCall) :
    (event.occur (history events).2).2.state.contents =
      (history events).2.state.contents.putDeposits
        (if (event.occur (history events).2).1.succeeded then event.deposit? else none).toList := by
  have hidle : event.deposit? = none → (ledger (history events).1).commits event = [] →
      (event.occur (history events).2).2.state.contents = (history events).2.state.contents.putDeposits
        (if (event.occur (history events).2).1.succeeded then event.deposit? else none).toList := by
    intro hnone hcommits
    rw [contents_occur events (Or.inr hcommits), hnone, ite_self]
    rfl
  cases event with
  | failWrites path => rfl
  | step now action =>
    cases action with
    | schema =>
      rw [Event.occur, Session.perform, Session.act, Repository.ensureSchema_store]
      rfl
    | upsert path entities =>
      have hcases := Repository.upsertBatch_cases Memory.store_buffered now path entities
        (history events).2.state
      rw [Event.occur, Session.perform, Session.act]
      generalize Repository.upsertBatch Memory.store now path entities (history events).2.state = r
        at hcases ⊢
      rcases r with ⟨result, m⟩
      dsimp only at hcases ⊢
      rcases hcases with ⟨rfl, hgraph⟩ | ⟨⟨f, rfl⟩, hgraph⟩
      · rw [hgraph]
        rfl
      · rw [hgraph]
        rfl
    | find uid => exact hidle rfl rfl
    | uids path => exact hidle rfl rfl
    | stats => exact hidle rfl rfl
    | start _ => exact absurd h id
    | commit _ => exact absurd h id
    | rollback _ => exact absurd h id
    | abandon _ => exact absurd h id
    | query _ _ _ => exact absurd h id

/-- **Calls of the repository make the deposits that succeed**, and do nothing else. -/
theorem contents_history {events : List Event} (h : ∀ event ∈ events, event.IsCall) :
    (history events).2.state.contents = Contents.putDeposits {} (deposits (history events).1) := by
  induction events using List.reverseRecOn with
  | nil => rfl
  | append_singleton events event ih =>
    rw [List.forall_mem_append, List.forall_mem_singleton] at h
    rw [history_append, List.foldl_cons, List.foldl_nil, extend, deposits_append_singleton,
      Contents.putDeposits_append, ← ih h.1]
    exact contents_occur_of_isCall events h.2

/-! ## Looking up -/

namespace Repository

/-- A node that can be read is found. -/
lemma findEntity_of_get? {m : Memory} {uid : String} {node : Table Json} {record : Entity.Record}
    (hnode : m.contents.entities.get? uid = some node)
    (hread : Entity.Record.read (.obj node) = .ok record) :
    findEntity Memory.store uid m = (.ok (some record), m) := by
  rw [findEntity, fetchOne_findEntity, hnode]
  dsimp only [Option.map_some]
  rw [Row.get, Row.single, Table.get?, if_pos rfl]
  dsimp only
  rw [hread]
  rfl

/-- Where nothing is stored, nothing is found. -/
lemma findEntity_of_get?_eq_none {m : Memory} {uid : String} (h : m.contents.entities.get? uid = none) :
    findEntity Memory.store uid m = (.ok none, m) := by
  rw [findEntity, fetchOne_findEntity, h]
  rfl

section Stored

variable {m : Memory} {made : List Deposit} (hm : m.contents = Contents.putDeposits {} made)
include hm

/-- **What is found under an identity**: the last version, with the date of the first. -/
theorem findEntity_stored (hstorable : ∀ v ∈ versions made, v.Storable) {uid : String}
    (huid : ∃ v ∈ versions made, v.uid = uid) :
    ∃ first last, IsFirst uid first (versions made) ∧ IsLast uid last (versions made) ∧
      findEntity Memory.store uid m = (.ok (some (last.stored first.now)), m) := by
  obtain ⟨v, hv, rfl⟩ := huid
  obtain ⟨first, last, hfirst, hlast, hnode⟩ := (Contents.gains_putDeposits {} made).get?_eq_record hv
  have hcreated : Contents.createdOr {} v.uid (.str first.now) = .str first.now := rfl
  rw [← hm, hcreated] at hnode
  exact ⟨first, last, hfirst, hlast,
    findEntity_of_get? hnode (Version.read_record (hstorable last hlast.mem) first.now)⟩

/-- The identities that are stored are those of the versions.

**Proof sketch.** An identity without a version is as in the empty graph, where there is none; one with a version
has the record of its last version. -/
lemma mem_keys_entities_iff (uid : String) :
    uid ∈ m.contents.entities.keys ↔ ∃ v ∈ versions made, v.uid = uid := by
  have hgains := Contents.gains_putDeposits {} made
  rw [← hm] at hgains
  rw [← Table.contains_iff_mem_keys, Table.contains]
  constructor
  · intro hstored
    by_contra hnone
    have habsent : m.contents.entities.get? uid = none :=
      hgains.get?_eq_of_forall_ne fun v hv huid => hnone ⟨v, hv, huid⟩
    rw [habsent] at hstored
    cases hstored
  · rintro ⟨v, hv, rfl⟩
    obtain ⟨first, last, -, -, hnode⟩ := hgains.get?_eq_record hv
    rw [hnode, Option.isSome_some]

end Stored

/-- **What was written is read back.**  A graph is built by calls of the repository, in any order and
some of them failing, and every version that was deposited has lines that fit a word and a vector of
finite numbers.

Then looking up never fails.  Under a stored identity it finds the last version, with the date of the
first one, and under any other text it finds nothing.  After one more batch is stored, the last entity
of the batch with an identity is found with all that was written: its path, kind, name, language and
lines, its whole snippet and documentation, and its vector bit by bit, with the date on which something
was first stored under its identity.

**Proof sketch.** The graph holds what the successful deposits brought (`contents_history`), which is
the table of the last version under each identity (`Contents.gains_putDeposits`), and tables of versions
are read back (`Version.read_record`). -/
theorem findEntity_reads_back (events : List Event) (hcalls : ∀ event ∈ events, event.IsCall)
    (hstorable : ∀ v ∈ versions (deposits (history events).1), v.Storable) :
    let m := (history events).2.state
    let made := deposits (history events).1
    (∀ uid ∈ m.contents.entities.keys,
      ∃ first last, IsFirst uid first (versions made) ∧ IsLast uid last (versions made) ∧
        findEntity Memory.store uid m = (.ok (some (last.stored first.now)), m)) ∧
    (∀ uid, uid ∉ m.contents.entities.keys → findEntity Memory.store uid m = (.ok none, m)) ∧
    ∀ (batch : Deposit) (m' : Memory), (∀ v ∈ batch.versions, v.Storable) →
      upsertBatch Memory.store batch.now batch.path batch.entities m = (.ok (), m') →
      ∀ before e later, batch.entities = before ++ e :: later →
        (∀ e' ∈ later, e'.1.uid batch.path ≠ e.1.uid batch.path) →
        ∃ first, IsFirst (e.1.uid batch.path) first (versions (made ++ [batch])) ∧
          findEntity Memory.store (e.1.uid batch.path) m' =
            (.ok (some { uid := e.1.uid batch.path, path := batch.path, kind := e.1.kind,
                         name := e.1.name, language := e.1.language.id, startLine := e.1.startLine,
                         endLine := e.1.endLine, snippet := e.1.snippet, doc := e.1.doc,
                         embedding := e.2, created := first.now }), m') := by
  intro m made
  have hm : m.contents = Contents.putDeposits {} made := contents_history hcalls
  refine ⟨fun uid huid => ?_, fun uid huid => ?_, ?_⟩
  · exact findEntity_stored hm hstorable ((mem_keys_entities_iff hm uid).mp huid)
  · have hnone : m.contents.entities.get? uid = none := by
      rw [← Table.contains_iff_mem_keys, Table.contains, Bool.not_eq_true, Option.isSome_eq_false_iff,
        Option.isNone_iff_eq_none] at huid
      exact huid
    exact findEntity_of_get?_eq_none hnone
  · intro batch m' hbatch hupsert before e later hentities hlater
    have hversions : versions (made ++ [batch]) = versions made ++ batch.versions := by
      simp [versions]
    have hm' : m'.contents = Contents.putDeposits {} (made ++ [batch]) := by
      have hcases := upsertBatch_cases Memory.store_buffered batch.now batch.path batch.entities m
      rw [hupsert] at hcases
      rcases hcases with ⟨-, hgraph⟩ | ⟨⟨f, hf⟩, -⟩
      · rw [Contents.putDeposits_append, ← hm]
        exact hgraph
      · cases hf
    have hstorable' : ∀ v ∈ versions (made ++ [batch]), v.Storable := by
      rw [hversions, List.forall_mem_append]
      exact ⟨hstorable, hbatch⟩
    have hlast : IsLast (e.1.uid batch.path) ⟨batch.now, batch.path, e⟩ (versions (made ++ [batch])) := by
      refine ⟨rfl, versions made ++ before.map (Version.mk batch.now batch.path),
        later.map (Version.mk batch.now batch.path), ?_, ?_⟩
      · rw [hversions, Deposit.versions, hentities, List.map_append, List.map_cons, List.append_assoc]
      · rw [List.forall_mem_map]
        exact hlater
    obtain ⟨first, last, hfirst, hlast', hfind⟩ :=
      findEntity_stored hm' hstorable' ⟨_, hlast.mem, rfl⟩
    obtain rfl := hlast'.unique hlast
    exact ⟨first, hfirst, hfind⟩

/-- A function that is stored on Monday and again, with another text and vector, on Tuesday. -/
theorem findEntity_reads_back_second_version :
    let early : Embedded := (⟨.function, "f", .python, 1, 2, "def f(): pass", ""⟩, [⟨0x3F800000⟩])
    let late : Embedded := (⟨.function, "g", .python, 1, 2, "def g(): ...", "Idle."⟩, [⟨0x80000000⟩, ⟨1⟩])
    let m := (history [.step "Monday" (.upsert "a.py" [early]), .failWrites "b.py"]).2.state
    ∃ m', upsertBatch Memory.store "Tuesday" "a.py" [late] m = (.ok (), m') ∧
      findEntity Memory.store (late.1.uid "a.py") m' =
        (.ok (some { uid := late.1.uid "a.py", path := "a.py", kind := .function, name := "g",
                     language := "python", startLine := 1, endLine := 2, snippet := "def g(): ...",
                     doc := "Idle.", embedding := [⟨0x80000000⟩, ⟨1⟩], created := "Monday" }), m') := by
  intro early late m
  have hstored : (Event.step "Monday" (.upsert "a.py" [early])).occur { state := {} } =
      (.done, { state := { contents := Contents.putBatch {} "Monday" "a.py" [early] } }) := by
    rw [Event.occur, Session.perform, Session.act, upsertBatch_store rfl]
    rfl
  have hhistory : history [.step "Monday" (.upsert "a.py" [early]), .failWrites "b.py"] =
      ([(.step "Monday" (.upsert "a.py" [early]), .done), (.failWrites "b.py", .done)],
        { state := { contents := Contents.putBatch {} "Monday" "a.py" [early],
                     failing := ["b.py"] } }) := by
    rw [history, List.foldl_cons, extend, hstored]
    rfl
  have hmade : deposits (history [.step "Monday" (.upsert "a.py" [early]), .failWrites "b.py"]).1 =
      [⟨"Monday", "a.py", [early]⟩] := by
    rw [hhistory]
    rfl
  have hearly : (Version.mk "Monday" "a.py" early).Storable := by
    refine ⟨by decide, by decide, ?_⟩
    decide
  have hlate : (Version.mk "Tuesday" "a.py" late).Storable := by
    refine ⟨by decide, by decide, ?_⟩
    decide
  obtain ⟨-, -, hbatch⟩ := findEntity_reads_back
    [.step "Monday" (.upsert "a.py" [early]), .failWrites "b.py"]
    (by simp [Event.IsCall]) (by simpa [hmade, versions, Deposit.versions] using hearly)
  have hfailing : m.failing.contains "a.py" = false := by
    simp only [m, hhistory]
    decide
  refine ⟨_, upsertBatch_store hfailing "Tuesday" [late], ?_⟩
  obtain ⟨first, hfirst, hfind⟩ := hbatch ⟨"Tuesday", "a.py", [late]⟩ _
    (by simpa [Deposit.versions] using hlate) (upsertBatch_store hfailing "Tuesday" [late]) [] late []
    rfl (by simp)
  rw [hmade] at hfirst
  obtain rfl := hfirst.eq_of_cons rfl
  exact hfind

end Repository

end CodeAtlas.Graph
