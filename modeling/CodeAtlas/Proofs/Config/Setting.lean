import CodeAtlas.Proofs.Config.Slots

/-!
# All settings

The settings of a section are its slots, and the sections are the slots of all settings.  So all settings can be
looked at one by one: each takes what is found under its path, or its default.

## Main definitions

* `CodeAtlas.Config.Key` — all settings.
* `CodeAtlas.Config.Key.Takes` — what a setting takes.

## Main results

* `CodeAtlas.Config.GraphKey.slots`, `CodeAtlas.Config.EmbeddingKey.slots`, `CodeAtlas.Config.IngestKey.slots`,
  `CodeAtlas.Config.Section.slots` — the slots.
* `CodeAtlas.Config.Settings.ofValue_eq_ok_iff`, `CodeAtlas.Config.Settings.ofValue_eq_error` — all settings.
-/

namespace CodeAtlas.Config

/-! ## The slots of each section -/

/-- What is put into a section is what was read. -/
lemma bind_pure_eq_map {α β : Type} (r : Except Fault β) (f : β → α) :
    (r >>= fun x => pure (f x)) = r.map f := by
  cases r <;> rfl

/-- The settings of the graph store. -/
inductive GraphKey where
  | backend
  | uri
  | user
  | password

namespace GraphKey

/-- The key of a setting. -/
def name : GraphKey → String
  | .backend => "backend"
  | .uri => "uri"
  | .user => "user"
  | .password => "password"

/-- The kind of a setting. -/
def kind : GraphKey → Kind
  | .backend => .backend
  | .uri => .text
  | .user => .text
  | .password => .text

/-- What a setting holds, if anything. -/
def get : (k : GraphKey) → GraphSettings → Option k.kind.type
  | .backend, a => some a.backend
  | .uri, a => some a.uri
  | .user, a => some a.user
  | .password, a => a.password

/-- The section with a setting changed. -/
def put : (k : GraphKey) → k.kind.type → GraphSettings → GraphSettings
  | .backend, x, a => { a with backend := x }
  | .uri, x, a => { a with uri := x }
  | .user, x, a => { a with user := x }
  | .password, x, a => { a with password := some x }

/-- **The slots of the graph store.** -/
def slots : graphSchema.Slots GraphKey where
  Content k := k.kind.type
  name := name
  decode k := k.kind.decode "a string"
  get := get
  put := put
  name_inj j k h := by cases j <;> cases k <;> simp_all [name]
  set_name k v a := by cases k <;> exact bind_pure_eq_map _ _
  set_other key v a h := by
    unfold graphSchema
    dsimp only
    split
    · exact absurd rfl (h .backend)
    · exact absurd rfl (h .uri)
    · exact absurd rfl (h .user)
    · exact absurd rfl (h .password)
    · rfl
  get_put k x a := by cases k <;> rfl
  get_put_of_ne j k x a h := by cases j <;> cases k <;> trivial
  ext a b h := by
    have hbackend := Option.some.inj (h .backend)
    have huri := Option.some.inj (h .uri)
    have huser := Option.some.inj (h .user)
    have hpassword : a.password = b.password := h .password
    cases a
    cases b
    simp_all

end GraphKey

/-- The settings of the embeddings. -/
inductive EmbeddingKey where
  | apiKey
  | endpoint
  | model
  | dimensions
  | timeoutSeconds

namespace EmbeddingKey

/-- The key of a setting. -/
def name : EmbeddingKey → String
  | .apiKey => "api_key"
  | .endpoint => "endpoint"
  | .model => "model"
  | .dimensions => "dimensions"
  | .timeoutSeconds => "timeout_secs"

/-- The kind of a setting. -/
def kind : EmbeddingKey → Kind
  | .apiKey => .text
  | .endpoint => .text
  | .model => .text
  | .dimensions => .number
  | .timeoutSeconds => .number

/-- How messages describe a setting. -/
def expected : EmbeddingKey → String
  | .dimensions => "usize"
  | .timeoutSeconds => "u64"
  | _ => "a string"

/-- What a setting holds, if anything. -/
def get : (k : EmbeddingKey) → EmbeddingSettings → Option k.kind.type
  | .apiKey, a => a.apiKey
  | .endpoint, a => some a.endpoint
  | .model, a => some a.model
  | .dimensions, a => some a.dimensions
  | .timeoutSeconds, a => some a.timeoutSeconds

/-- The section with a setting changed. -/
def put : (k : EmbeddingKey) → k.kind.type → EmbeddingSettings → EmbeddingSettings
  | .apiKey, x, a => { a with apiKey := some x }
  | .endpoint, x, a => { a with endpoint := x }
  | .model, x, a => { a with model := x }
  | .dimensions, x, a => { a with dimensions := x }
  | .timeoutSeconds, x, a => { a with timeoutSeconds := x }

/-- **The slots of the embeddings.** -/
def slots : embeddingSchema.Slots EmbeddingKey where
  Content k := k.kind.type
  name := name
  decode k := k.kind.decode k.expected
  get := get
  put := put
  name_inj j k h := by cases j <;> cases k <;> simp_all [name]
  set_name k v a := by cases k <;> exact bind_pure_eq_map _ _
  set_other key v a h := by
    unfold embeddingSchema
    dsimp only
    split
    · exact absurd rfl (h .apiKey)
    · exact absurd rfl (h .endpoint)
    · exact absurd rfl (h .model)
    · exact absurd rfl (h .dimensions)
    · exact absurd rfl (h .timeoutSeconds)
    · rfl
  get_put k x a := by cases k <;> rfl
  get_put_of_ne j k x a h := by cases j <;> cases k <;> trivial
  ext a b h := by
    have hkey : a.apiKey = b.apiKey := h .apiKey
    have hendpoint := Option.some.inj (h .endpoint)
    have hmodel := Option.some.inj (h .model)
    have hdimensions := Option.some.inj (h .dimensions)
    have htimeout := Option.some.inj (h .timeoutSeconds)
    cases a
    cases b
    simp_all

end EmbeddingKey

/-- The settings of a run. -/
inductive IngestKey where
  | root
  | batchSize
  | concurrency
  | includes
  | excludes

namespace IngestKey

/-- The key of a setting. -/
def name : IngestKey → String
  | .root => "root"
  | .batchSize => "batch_size"
  | .concurrency => "concurrency"
  | .includes => "include"
  | .excludes => "exclude"

/-- The kind of a setting. -/
def kind : IngestKey → Kind
  | .root => .text
  | .batchSize => .number
  | .concurrency => .number
  | .includes => .texts
  | .excludes => .texts

/-- How messages describe a setting. -/
def expected : IngestKey → String
  | .root => "path string"
  | _ => "usize"

/-- What a setting holds, if anything. -/
def get : (k : IngestKey) → IngestSettings → Option k.kind.type
  | .root, a => some a.root
  | .batchSize, a => some a.batchSize
  | .concurrency, a => some a.concurrency
  | .includes, a => some a.includes
  | .excludes, a => some a.excludes

/-- The section with a setting changed. -/
def put : (k : IngestKey) → k.kind.type → IngestSettings → IngestSettings
  | .root, x, a => { a with root := x }
  | .batchSize, x, a => { a with batchSize := x }
  | .concurrency, x, a => { a with concurrency := x }
  | .includes, x, a => { a with includes := x }
  | .excludes, x, a => { a with excludes := x }

/-- **The slots of a run.** -/
def slots : ingestSchema.Slots IngestKey where
  Content k := k.kind.type
  name := name
  decode k := k.kind.decode k.expected
  get := get
  put := put
  name_inj j k h := by cases j <;> cases k <;> simp_all [name]
  set_name k v a := by cases k <;> exact bind_pure_eq_map _ _
  set_other key v a h := by
    unfold ingestSchema
    dsimp only
    split
    · exact absurd rfl (h .root)
    · exact absurd rfl (h .batchSize)
    · exact absurd rfl (h .concurrency)
    · exact absurd rfl (h .includes)
    · exact absurd rfl (h .excludes)
    · rfl
  get_put k x a := by cases k <;> rfl
  get_put_of_ne j k x a h := by cases j <;> cases k <;> trivial
  ext a b h := by
    have hroot := Option.some.inj (h .root)
    have hbatch := Option.some.inj (h .batchSize)
    have hconcurrency := Option.some.inj (h .concurrency)
    have hincludes := Option.some.inj (h .includes)
    have hexcludes := Option.some.inj (h .excludes)
    cases a
    cases b
    simp_all

end IngestKey

/-- The sections. -/
inductive Section where
  | graph
  | embedding
  | ingest

namespace Section

/-- The key of a section. -/
def name : Section → String
  | .graph => "graph"
  | .embedding => "embedding"
  | .ingest => "ingest"

/-- The settings of a section. -/
abbrev type : Section → Type
  | .graph => GraphSettings
  | .embedding => EmbeddingSettings
  | .ingest => IngestSettings

/-- The reader of a section. -/
def decode : (s : Section) → Decoder s.type
  | .graph => graphSchema.decode {}
  | .embedding => embeddingSchema.decode {}
  | .ingest => ingestSchema.decode {}

/-- The settings of a section, among all settings. -/
def get : (s : Section) → Settings → s.type
  | .graph, c => c.graph
  | .embedding, c => c.embedding
  | .ingest, c => c.ingest

/-- All settings, with a section changed. -/
def put : (s : Section) → s.type → Settings → Settings
  | .graph, x, c => { c with graph := x }
  | .embedding, x, c => { c with embedding := x }
  | .ingest, x, c => { c with ingest := x }

/-- **The sections as slots.** -/
def slots : settingsSchema.Slots Section where
  Content := type
  name := name
  decode := decode
  get s c := some (s.get c)
  put := put
  name_inj j k h := by cases j <;> cases k <;> simp_all [name]
  set_name s v c := by cases s <;> exact bind_pure_eq_map _ _
  set_other key v c h := by
    unfold settingsSchema
    dsimp only
    split
    · exact absurd rfl (h .graph)
    · exact absurd rfl (h .embedding)
    · exact absurd rfl (h .ingest)
    · rfl
  get_put s x c := by cases s <;> rfl
  get_put_of_ne j k x c h := by cases j <;> cases k <;> trivial
  ext a b h := by
    have hgraph := Option.some.inj (h .graph)
    have hembedding := Option.some.inj (h .embedding)
    have hingest := Option.some.inj (h .ingest)
    cases a
    cases b
    simp_all [get]

end Section

/-! ## All settings -/

/-- **All settings.** -/
inductive Key where
  | graph (k : GraphKey)
  | embedding (k : EmbeddingKey)
  | ingest (k : IngestKey)

namespace Key

/-- The section of a setting. -/
def owner : Key → Section
  | .graph _ => .graph
  | .embedding _ => .embedding
  | .ingest _ => .ingest

/-- The key of a setting in its section. -/
def name : Key → String
  | .graph k => k.name
  | .embedding k => k.name
  | .ingest k => k.name

/-- The path of a setting. -/
def path (k : Key) : List String := [k.owner.name, k.name]

/-- The kind of a setting. -/
def kind : Key → Kind
  | .graph k => k.kind
  | .embedding k => k.kind
  | .ingest k => k.kind

/-- What a setting holds, if anything. -/
def get : (k : Key) → Settings → Option k.kind.type
  | .graph k, c => k.get c.graph
  | .embedding k, c => k.get c.embedding
  | .ingest k, c => k.get c.ingest

/-- Settings have different paths. -/
lemma path_injective {j k : Key} (h : j.path = k.path) : j = k := by
  obtain ⟨howner, hname⟩ : j.owner.name = k.owner.name ∧ j.name = k.name := by simpa [path] using h
  have howner := Section.slots.name_inj _ _ howner
  cases j <;> cases k <;> try cases howner
  · exact congrArg _ (GraphKey.slots.name_inj _ _ hname)
  · exact congrArg _ (EmbeddingKey.slots.name_inj _ _ hname)
  · exact congrArg _ (IngestKey.slots.name_inj _ _ hname)

/-- **What a setting takes** when a value was found for it, or none: what the value denotes, or its default. -/
def Takes (k : Key) (found : Option Value) (c : Settings) : Prop :=
  match found with
  | none => k.get c = k.get {}
  | some v => ∃ x, Denotes k.kind v.form x ∧ k.get c = some x

/-- The reader of its kind reads a setting. -/
lemma takes_iff_decode (k : Key) (expected : String) (found : Option Value) (c : Settings) :
    (match found with
      | none => k.get c = k.get {}
      | some v => ∃ x, k.kind.decode expected v = .ok x ∧ k.get c = some x) ↔ k.Takes found c := by
  cases found with
  | none => rfl
  | some v => exact exists_congr fun x => and_congr_left fun _ => k.kind.decode_eq_ok_iff expected v x

end Key

namespace Section

/-- A section takes what was found for it by being read from it. -/
lemma takes_iff (s : Section) (found : Option Value) (c : Settings) :
    slots.Takes s found {} c ↔
      match s with
      | .graph => graphSchema.Reads {} found c.graph
      | .embedding => embeddingSchema.Reads {} found c.embedding
      | .ingest => ingestSchema.Reads {} found c.ingest := by
  cases found with
  | none => cases s <;> exact Option.some_inj.trans eq_comm
  | some w =>
    have hdecode : slots.Takes s (some w) {} c ↔ s.decode w = .ok (s.get c) :=
      ⟨fun ⟨_, hx, hget⟩ => Option.some.inj hget ▸ hx, fun h => ⟨s.get c, h, rfl⟩⟩
    cases s <;> exact hdecode

/-- The slots of a section, as settings.

**Proof sketch.** The slots of the section and the settings that it owns are the same, with the same names, so what
holds of each slot holds of each setting. -/
lemma reads_iff_forall {α κ : Type} {S : Schema α} (L : S.Slots κ) (toKey : κ → Key) {s : Section}
    (howner : ∀ k : Key, k.owner = s ↔ ∃ j, toKey j = k) (hname : ∀ j, (toKey j).name = L.name j) {a b : α}
    {c : Settings} (htakes : ∀ j found, L.Takes j found a b ↔ (toKey j).Takes found c) {found : Option Value}
    (hfound : ∀ w, found = some w → w.IsTable ∧ w.Ordered) :
    S.Reads a found b ↔ ∀ k : Key, k.owner = s → k.Takes (found.bind (·.get? [k.name])) c := by
  refine (L.reads_iff hfound a b).trans ?_
  constructor
  · intro h k hk
    obtain ⟨j, rfl⟩ := (howner k).mp hk
    rw [hname]
    exact (htakes j _).mp (h j)
  · intro h j
    rw [htakes, ← hname]
    exact h (toKey j) ((howner _).mpr ⟨j, rfl⟩)

/-- **A section takes what was found for it** exactly if each of its settings does.

**Proof sketch.** By sections.  In each one, the slots are its settings, and each slot takes what the table of the
section has under its name; which is what the whole has under the path of the setting. -/
lemma takes_iff_forall {v : Value} (hordered : v.Ordered) (s : Section) (hopens : v.Opens s.name)
    (c : Settings) :
    slots.Takes s (v.get? [s.name]) {} c ↔ ∀ k : Key, k.owner = s → k.Takes (v.get? k.path) c := by
  have hfound : ∀ w, v.get? [s.name] = some w → w.IsTable ∧ w.Ordered :=
    fun w hw => ⟨hopens.2 w hw, hordered.get? hw⟩
  have hsection : slots.Takes s (v.get? [s.name]) {} c ↔
      ∀ k : Key, k.owner = s → k.Takes ((v.get? [s.name]).bind (·.get? [k.name])) c := by
    rw [takes_iff]
    cases s with
    | graph =>
      exact reads_iff_forall GraphKey.slots .graph (by rintro (k | k | k) <;> simp [Key.owner])
        (fun _ => rfl) (fun j found => (Key.graph j).takes_iff_decode _ found c) hfound
    | embedding =>
      exact reads_iff_forall EmbeddingKey.slots .embedding (by rintro (k | k | k) <;> simp [Key.owner])
        (fun _ => rfl) (fun j found => (Key.embedding j).takes_iff_decode _ found c) hfound
    | ingest =>
      exact reads_iff_forall IngestKey.slots .ingest (by rintro (k | k | k) <;> simp [Key.owner])
        (fun _ => rfl) (fun j found => (Key.ingest j).takes_iff_decode _ found c) hfound
  refine hsection.trans (forall₂_congr fun k hk => ?_)
  rw [Key.path, hk, Value.get?_pair]

/-- A section is refused for one of its settings.

**Proof sketch.** The fault comes from a slot whose reader refuses what was found for it, and a reader refuses only
what denotes nothing. -/
lemma exists_of_decode_eq_error {s : Section} {w : Value} (htable : w.IsTable) (hordered : w.Ordered) {f : Fault}
    (h : s.decode w = .error f) :
    ∃ k : Key, k.owner = s ∧ ∃ (v : Value) (f' : Fault), w.get? [k.name] = some v ∧
      (∀ x, ¬ Denotes k.kind v.form x) ∧ f = f'.under k.name := by
  have hill : ∀ (kind : Kind) (expected : String) (v : Value) (f' : Fault),
      kind.decode expected v = .error f' → ∀ x, ¬ Denotes kind v.form x := by
    intro kind expected v f' hf' x hx
    rw [(kind.decode_eq_ok_iff expected v x).mpr hx] at hf'
    cases hf'
  cases s with
  | graph =>
    obtain ⟨k, v, f', hget, hf', rfl⟩ := GraphKey.slots.decode_eq_error htable hordered h
    exact ⟨.graph k, rfl, v, f', hget, hill _ _ _ _ hf', rfl⟩
  | embedding =>
    obtain ⟨k, v, f', hget, hf', rfl⟩ := EmbeddingKey.slots.decode_eq_error htable hordered h
    exact ⟨.embedding k, rfl, v, f', hget, hill _ _ _ _ hf', rfl⟩
  | ingest =>
    obtain ⟨k, v, f', hget, hf', rfl⟩ := IngestKey.slots.decode_eq_error htable hordered h
    exact ⟨.ingest k, rfl, v, f', hget, hill _ _ _ _ hf', rfl⟩

end Section

namespace Settings

variable {v : Value}

/-- **Settings are read one by one**: each takes what the value has under its path. -/
theorem ofValue_eq_ok_iff (hordered : v.Ordered) (hopens : ∀ s : Section, v.Opens s.name) (c : Settings) :
    ofValue v = .ok c ↔ ∀ k : Key, k.Takes (v.get? k.path) c := by
  have hfound : ∀ w, some v = some w → w.IsTable ∧ w.Ordered := by
    intro w hw
    rw [← Option.some.inj hw]
    exact ⟨(hopens .graph).1, hordered⟩
  refine (Section.slots.reads_iff hfound {} c).trans ⟨fun h k => ?_, fun h s => ?_⟩
  · exact (Section.takes_iff_forall hordered k.owner (hopens _) c).mp (h k.owner) k rfl
  · exact (Section.takes_iff_forall hordered s (hopens s) c).mpr fun k _ => h k

/-- **Settings are refused for one of them**: the refusal names a setting whose value denotes nothing. -/
theorem ofValue_eq_error (hordered : v.Ordered) (hopens : ∀ s : Section, v.Opens s.name) {f : Fault}
    (h : ofValue v = .error f) :
    ∃ (k : Key) (w : Value), v.get? k.path = some w ∧ (∀ x, ¬ Denotes k.kind w.form x) ∧
      k.path <+: f.key := by
  obtain ⟨s, w, f', hget, hf', rfl⟩ := Section.slots.decode_eq_error (hopens .graph).1 hordered h
  obtain ⟨k, rfl, u, f'', hu, hill, rfl⟩ :=
    Section.exists_of_decode_eq_error ((hopens s).2 w hget) (hordered.get? hget) hf'
  have hsection : v.get? [k.owner.name] = some w := hget
  refine ⟨k, u, ?_, hill, f''.key, rfl⟩
  rw [Key.path, Value.get?_pair, hsection]
  exact hu

end Settings

end CodeAtlas.Config
