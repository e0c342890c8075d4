import Mathlib.Data.List.Forall2
import CodeAtlas.Embedding.Remote

/-!
# What becomes of a text at a remote provider

A text makes one request at most, and nothing is ever sent twice.  The answer is a vector exactly if the reply
says success and its bytes list vectors of which the first has the right length; that vector is the answer.
Anything else ends in a failure to embed, which tells the reason that the provider gives for a refusal, or its
status where it gives none.

What a reply carries is said on the JSON document of its bytes: a record with one field is an object with that
field, among others that do not count, or a list of one item.  The bytes need not be UTF-8 where they do not count.

Nothing is assumed of the conversion of host names; it decides for which addresses there is a request at all.

## Main definitions

* `CodeAtlas.Embedding.Holds` — a record and the document in its only field.
* `CodeAtlas.Embedding.Reply.Carries` — the vectors that a reply lists.
* `CodeAtlas.Embedding.Reply.Explains` — the reason that a reply gives.
* `CodeAtlas.Embedding.Exchange.recorded` — the exchange that writes down what is sent.

## Main results

* `CodeAtlas.Embedding.Remote.vectors?_eq_some_iff`, `CodeAtlas.Embedding.Remote.reason?_eq_some_iff` — the two
  readers of replies.
* `CodeAtlas.Embedding.Remote.vector_eq_ok_iff` — the replies that give a vector.
* `CodeAtlas.Embedding.Remote.embed_recorded` — what is sent for a text.
* `CodeAtlas.Embedding.Remote.embed_sends_once_and_answers` — what becomes of a text.
-/

namespace CodeAtlas.Embedding

open CodeAtlas.Json (Document)

/-! ## Documents of replies -/

/-- **A record and the document in its only field**: an object in which one field has the name, while no other
field has it or a broken name, or a list of one item. -/
inductive Holds (name : String) : Document → Document → Prop
  /-- A list of one item. -/
  | item (d : Document) : Holds name (.array [d]) d
  /-- An object with the field. -/
  | field {before after : List (Option String × Document)} (d : Document)
      (hbefore : ∀ f ∈ before, ∃ key, f.1 = some key ∧ key ≠ name)
      (hafter : ∀ f ∈ after, ∃ key, f.1 = some key ∧ key ≠ name) :
      Holds name (.object (before ++ (some name, d) :: after)) d

/-- **A document that stands for a number**, which is rounded to the small format. -/
inductive Component : Document → Number.Binary32 → Prop
  /-- An integer. -/
  | int {n : Json.Numeral} {i : Int} (h : n.value = some (.int i)) : Component (.number n) (.ofInt i)
  /-- Any other number. -/
  | float {n : Json.Numeral} {x : Number.Binary64} (h : n.value = some (.float x)) :
      Component (.number n) (.ofBinary64 x)

/-- The document lists a vector. -/
def Item (d : Document) (v : Vector) : Prop :=
  ∃ components, Holds "embedding" d (.array components) ∧ List.Forall₂ Component components v

namespace Reply

/-- **The reply lists vectors.** -/
def Carries (r : Reply) (vs : List Vector) : Prop :=
  ∃ d items, Document.read r.content = some d ∧ Holds "data" d (.array items) ∧
    List.Forall₂ Item items vs

/-- **The reply gives a reason.** -/
def Explains (r : Reply) (reason : String) : Prop :=
  ∃ d details, Document.read r.content = some d ∧ Holds "error" d details ∧
    Holds "message" details (.string (some reason))

end Reply

/-! ## Readers of replies -/

namespace Remote

/-- A field that has another name than the wanted one. -/
lemma exists_key_ne_iff {name : String} (f : Option String × Document) :
    (∃ key, f.1 = some key ∧ key ≠ name) ↔ f.1 ≠ none ∧ f.1 ≠ some name := by
  obtain ⟨key | key, d⟩ := f
  · simp
  · simp

/-- **The only field of a record is found.**

**Proof sketch.** In a sequence the content is the first item.  In an object no key may be broken, and exactly one
of them is the name: the fields with this key are a single one, and those before and behind it have other keys. -/
theorem only?_eq_some_iff {name : String} {d content : Document} :
    only? name d = some content ↔ Holds name d content := by
  constructor
  · intro h
    unfold only? at h
    split at h
    · obtain rfl := Option.some.inj h
      exact .item _
    · split_ifs at h with hbroken
      split at h
      · rename_i key d' hfilter
        obtain rfl := Option.some.inj h
        rw [Bool.not_eq_true, List.any_eq_false] at hbroken
        obtain ⟨before, after, rfl, hbefore, hkey, hafter⟩ := List.filter_eq_cons_iff.mp hfilter
        obtain rfl : key = some name := of_decide_eq_true hkey
        refine .field d' ?_ ?_
        · intro f hf
          rw [exists_key_ne_iff]
          exact ⟨by simpa using hbroken f (by simp [hf]), by simpa using hbefore f hf⟩
        · intro f hf
          rw [exists_key_ne_iff]
          exact ⟨by simpa using hbroken f (by simp [hf]),
            by simpa using List.filter_eq_nil_iff.mp hafter f hf⟩
      · cases h
    · cases h
  · intro h
    cases h with
    | item => rfl
    | field d hbefore hafter =>
      rename_i before after
      have hbroken : ((before ++ (some name, content) :: after).any fun f => f.1.isNone) = false := by
        rw [List.any_eq_false]
        intro f hf
        rw [List.mem_append, List.mem_cons] at hf
        rcases hf with hf | rfl | hf
        · simp [((exists_key_ne_iff f).mp (hbefore f hf)).1]
        · simp
        · simp [((exists_key_ne_iff f).mp (hafter f hf)).1]
      have hnone : ∀ fields : List (Option String × Document),
          (∀ f ∈ fields, ∃ key, f.1 = some key ∧ key ≠ name) →
          fields.filter (fun f => f.1 = some name) = [] := by
        intro fields hfields
        rw [List.filter_eq_nil_iff]
        intro f hf
        simpa using ((exists_key_ne_iff f).mp (hfields f hf)).2
      unfold only?
      simp only [hbroken, Bool.false_eq_true, if_false]
      rw [List.filter_append, List.filter_cons_of_pos (by simp), hnone before hbefore,
        hnone after hafter]
      rfl

/-- Items are read one by one. -/
lemma mapM_eq_some_iff {α β : Type} {f : α → Option β} {R : α → β → Prop}
    (h : ∀ a b, f a = some b ↔ R a b) (as : List α) (bs : List β) :
    as.mapM f = some bs ↔ List.Forall₂ R as bs := by
  induction as generalizing bs with
  | nil => simp [eq_comm]
  | cons a rest ih =>
    rw [List.mapM_cons, List.forall₂_cons_left_iff]
    simp only [Option.bind_eq_bind, Option.bind_eq_some_iff, Option.pure_def, Option.some.injEq]
    constructor
    · rintro ⟨b, hb, bs', hbs', rfl⟩
      exact ⟨b, bs', (h a b).mp hb, (ih bs').mp hbs', rfl⟩
    · rintro ⟨b, bs', hb, hbs', rfl⟩
      exact ⟨b, (h a b).mpr hb, bs', (ih bs').mpr hbs', rfl⟩

/-- Numbers are read. -/
lemma single?_eq_some_iff (d : Document) (x : Number.Binary32) : single? d = some x ↔ Component d x := by
  constructor
  · intro h
    unfold single? at h
    split at h
    · rename_i n
      obtain ⟨v, hv, hread⟩ := Option.bind_eq_some_iff.mp h
      cases v with
      | int i =>
        obtain rfl := Option.some.inj hread
        exact .int hv
      | float y =>
        obtain rfl := Option.some.inj hread
        exact .float hv
      | null => cases hread
      | bool b => cases hread
      | str s => cases hread
      | arr items => cases hread
      | obj fields => cases hread
    · cases h
  · intro h
    cases h with
    | int hv => simp [single?, hv, Json.readSingle, Except.toOption]
    | float hv => simp [single?, hv, Json.readSingle, Except.toOption]

/-- Vectors are read. -/
lemma item?_eq_some_iff (d : Document) (v : Vector) : item? d = some v ↔ Item d v := by
  unfold item? Item
  simp only [← only?_eq_some_iff, ← mapM_eq_some_iff single?_eq_some_iff]
  constructor
  · intro h
    split at h
    · exact ⟨_, ‹_›, h⟩
    · cases h
  · rintro ⟨components, hd, hv⟩
    rw [hd]
    exact hv

/-- **The reader of vectors finds those that a reply lists.** -/
theorem vectors?_eq_some_iff (r : Reply) (vs : List Vector) :
    vectors? r.content = some vs ↔ r.Carries vs := by
  unfold vectors? Reply.Carries
  simp only [← only?_eq_some_iff, ← mapM_eq_some_iff item?_eq_some_iff]
  constructor
  · intro h
    split at h
    · rename_i items hitems
      obtain ⟨d, hd, hdata⟩ := Option.bind_eq_some_iff.mp hitems
      exact ⟨d, items, hd, hdata, h⟩
    · cases h
  · rintro ⟨d, items, hd, hdata, hvs⟩
    rw [hd, Option.bind_some, hdata]
    exact hvs

/-- **The reader of refusals finds the reason that a reply gives.** -/
theorem reason?_eq_some_iff (r : Reply) (reason : String) :
    reason? r.content = some reason ↔ r.Explains reason := by
  unfold reason? Reply.Explains
  simp only [← only?_eq_some_iff]
  constructor
  · intro h
    split at h
    · rename_i s hs
      obtain ⟨details, hdetails, hmessage⟩ := Option.bind_eq_some_iff.mp hs
      obtain ⟨d, hd, herror⟩ := Option.bind_eq_some_iff.mp hdetails
      exact ⟨d, details, hd, herror, h ▸ hmessage⟩
    · cases h
  · rintro ⟨d, details, hd, herror, hmessage⟩
    rw [hd, Option.bind_some, herror, Option.bind_some, hmessage]

/-! ## Answers -/

/-- **The replies that give a vector.**

**Proof sketch.** By what the reply is: whether its status is a success, whether vectors are read from it, and
whether the first of them has the right length.  Only one of these cases gives a vector, and it gives the first one. -/
theorem vector_eq_ok_iff (dimensions : Nat) (reply : Reply) (v : Vector) :
    vector dimensions reply = .ok v ↔
      Status.isSuccess reply.status = true ∧ (∃ others, reply.Carries (v :: others)) ∧
        v.length = dimensions := by
  unfold vector
  simp only [← vectors?_eq_some_iff]
  by_cases hsuccess : Status.isSuccess reply.status = true
  · rw [if_pos hsuccess]
    rcases hvectors : vectors? reply.content with _ | _ | ⟨w, others⟩
    · simp
    · simp
    · dsimp only
      split_ifs with hlength
      · simp only [Except.ok.injEq, Option.some.injEq, List.cons.injEq, hsuccess, true_and]
        constructor
        · rintro rfl
          exact ⟨⟨others, rfl, rfl⟩, hlength⟩
        · rintro ⟨⟨others', rfl, -⟩, -⟩
          rfl
      · simp only [Option.some.injEq, List.cons.injEq, false_iff]
        rintro ⟨-, ⟨others', rfl, -⟩, hlength'⟩
        exact hlength hlength'
  · rw [if_neg hsuccess]
    simp [hsuccess]

/-- A reply without a vector is a failure to embed. -/
lemma exists_embedding_of_vector_eq_error {dimensions : Nat} {reply : Reply} {f : Failure}
    (h : vector dimensions reply = .error f) : ∃ reason, f = .embedding reason := by
  unfold vector at h
  split at h
  · split at h
    · exact ⟨_, (Except.error.inj h).symm⟩
    · exact ⟨_, (Except.error.inj h).symm⟩
    · split at h
      · cases h
      · exact ⟨_, (Except.error.inj h).symm⟩
  · exact ⟨_, (Except.error.inj h).symm⟩

/-- **A refusal** tells the reason that the provider gives, or its status. -/
lemma vector_of_not_isSuccess (dimensions : Nat) {reply : Reply}
    (h : ¬ Status.isSuccess reply.status = true) :
    vector dimensions reply = .error (.embedding ("provider rejected request: " ++
      (reason? reply.content).getD ("HTTP " ++ Status.text reply.status))) := by
  unfold vector
  rw [if_neg h]
  rfl

/-! ## Requests -/

/-- A request that cannot be made is a failure to embed. -/
lemma exists_embedding_of_request_eq_error {r : Remote} {convert : Url.Host.Conversion} {text : String}
    {f : Failure} (h : r.request convert text = .error f) : ∃ reason, f = .embedding reason := by
  unfold request at h
  split at h
  · exact ⟨_, (Except.error.inj h).symm⟩
  · split_ifs at h
    · exact ⟨_, (Except.error.inj h).symm⟩
    · exact ⟨_, (Except.error.inj h).symm⟩
    · exact ⟨_, (Except.error.inj h).symm⟩

/-- **Slashes at the end of an address do not count.** -/
lemma ofSettings_append_slashes (settings : Config.EmbeddingSettings) (key : String) (n : Nat) :
    ofSettings { settings with
      endpoint := settings.endpoint ++ String.ofList (List.replicate n '/') } key =
      ofSettings settings key := by
  unfold ofSettings
  simp only [String.toList_append, String.toList_ofList, List.reverse_append, List.reverse_replicate]
  rw [List.dropWhile_append_of_pos]
  intro c hc
  simp [List.eq_of_mem_replicate hc]

end Remote

/-- The exchange that writes down the requests it is given. -/
def Exchange.recorded {σ : Type} (e : Exchange σ) : Exchange (σ × List Request) := fun request (s, log) =>
  let (reply, s) := e request s
  (reply, s, log ++ [request])

namespace Remote

variable {σ : Type} (convert : Url.Host.Conversion)

/-- The answer to a request, by its reply. -/
def answer (r : Remote) (request : Request) : Option Reply → Except Failure Vector
  | none => .error (notSent request)
  | some reply => vector r.dimensions reply

/-- **What is sent for a text**: its request, if one can be made, and nothing else. -/
theorem embed_recorded (r : Remote) (exchange : Exchange σ) (text : String) (s : σ) (log : List Request) :
    r.embed convert exchange.recorded text (s, log) =
      match r.request convert text with
      | .error f => (.error f, s, log)
      | .ok request =>
        (r.answer request (exchange request s).1, (exchange request s).2, log ++ [request]) := by
  unfold embed
  cases r.request convert text with
  | error f => rfl
  | ok request =>
    dsimp only [Exchange.recorded]
    rcases exchange request s with ⟨_ | reply, s'⟩ <;> rfl

/-- The answer to a request is a vector or a failure to embed. -/
lemma exists_embedding_of_answer_eq_error {r : Remote} {request : Request} {reply? : Option Reply} {f : Failure}
    (h : r.answer request reply? = .error f) : ∃ reason, f = .embedding reason := by
  cases reply? with
  | none => exact ⟨_, (Except.error.inj h).symm⟩
  | some reply => exact exists_embedding_of_vector_eq_error h

/-- **The answer is a vector** exactly if a reply gives it. -/
lemma answer_eq_ok_iff {r : Remote} {request : Request} {reply? : Option Reply} {v : Vector} :
    r.answer request reply? = .ok v ↔ ∃ reply others, reply? = some reply ∧
      (200 ≤ reply.status ∧ reply.status < 300) ∧ reply.Carries (v :: others) ∧ v.length = r.dimensions := by
  have hstatus : ∀ n, (200 ≤ n ∧ n < 300) ↔ Status.isSuccess n = true := by simp [Status.isSuccess]
  simp only [hstatus]
  constructor
  · intro hv
    cases reply? with
    | none => cases hv
    | some reply =>
      obtain ⟨hsuccess, ⟨others, hcarries⟩, hlength⟩ := (vector_eq_ok_iff _ _ _).mp hv
      exact ⟨reply, others, rfl, hsuccess, hcarries, hlength⟩
  · rintro ⟨reply, others, rfl, hsuccess, hcarries, hlength⟩
    exact (vector_eq_ok_iff _ _ _).mpr ⟨hsuccess, ⟨others, hcarries⟩, hlength⟩

/-- **The words of a refusal.**

**Proof sketch.** A refusal is worded by the reason that is read from the reply, which is the one that the reply
gives; if it gives none, nothing is read and the status is worded. -/
lemma message_of_not_success (dimensions : Nat) {reply : Reply}
    (h : ¬ (200 ≤ reply.status ∧ reply.status < 300)) :
    ∃ f, vector dimensions reply = .error f ∧
      (∀ reason, reply.Explains reason →
        f.message = "Embedding generation failed: provider rejected request: " ++ reason) ∧
      ((∀ reason, ¬ reply.Explains reason) → ∃ wording,
        f.message = "Embedding generation failed: provider rejected request: HTTP " ++
          toString reply.status ++ " " ++ wording) := by
  have hfailed : ¬ Status.isSuccess reply.status = true := by simpa [Status.isSuccess] using h
  refine ⟨_, vector_of_not_isSuccess _ hfailed, ?_, ?_⟩
  · intro reason hreason
    rw [(reason?_eq_some_iff reply reason).mpr hreason]
    rfl
  · intro hnone
    have hreason : reason? reply.content = none := by
      rw [Option.eq_none_iff_forall_ne_some]
      intro reason hreason
      exact hnone reason ((reason?_eq_some_iff reply reason).mp hreason)
    refine ⟨(Status.reasons.lookup reply.status).getD "<unknown status code>", ?_⟩
    rw [hreason]
    rfl

/-- **What becomes of a text.**  For every conversion of host names and every provider, also one that answers each
request in another way:

* At most one request is sent, and there is no second attempt after a failure.
* The answer is a vector exactly if a reply comes back with a status from 200 to 299 and bytes that list vectors, of
  which the first has the configured length; the answer is this vector.
* Any failure is one to embed.
* A reply with another status ends in a failure that tells the reason the provider gives, and the status if it
  gives none.
* Slashes at the end of the configured address change nothing.

**Proof sketch.** Either there is no request, and then nothing is sent and the failure says so, or there is one, and
the answer is read from what comes back for it.  A vector is read exactly from the replies that list it, since the
reader of documents follows the description of what a reply carries, and all other replies end in a failure whose
words are known.  Slashes are cut off before the address is looked at. -/
theorem embed_sends_once_and_answers (settings : Config.EmbeddingSettings) (key text : String)
    (exchange : Exchange σ) (s : σ) (log : List Request) :
    let r := ofSettings settings key
    let outcome := r.embed convert exchange.recorded text (s, log)
    ∃ sent : Option Request, (r.request convert text).toOption = sent ∧ outcome.2.2 = log ++ sent.toList ∧
      (∀ v, outcome.1 = .ok v ↔
        ∃ request reply others, sent = some request ∧ (exchange request s).1 = some reply ∧
          (200 ≤ reply.status ∧ reply.status < 300) ∧ reply.Carries (v :: others) ∧
          v.length = settings.dimensions) ∧
      (∀ f, outcome.1 = .error f → ∃ reason, f = .embedding reason) ∧
      (∀ request reply, sent = some request → (exchange request s).1 = some reply →
        ¬ (200 ≤ reply.status ∧ reply.status < 300) →
        ∃ f, outcome.1 = .error f ∧
          (∀ reason, reply.Explains reason →
            f.message = "Embedding generation failed: provider rejected request: " ++ reason) ∧
          ((∀ reason, ¬ reply.Explains reason) → ∃ wording,
            f.message = "Embedding generation failed: provider rejected request: HTTP " ++
              toString reply.status ++ " " ++ wording)) ∧
      ∀ n, (ofSettings { settings with
        endpoint := settings.endpoint ++ String.ofList (List.replicate n '/') } key).request convert text =
          r.request convert text := by
  intro r outcome
  have houtcome : outcome = _ := embed_recorded convert r exchange text s log
  refine ⟨(r.request convert text).toOption, rfl, ?_⟩
  have hslashes : ∀ n, (ofSettings { settings with
      endpoint := settings.endpoint ++ String.ofList (List.replicate n '/') } key).request convert text =
        r.request convert text := by
    intro n
    rw [ofSettings_append_slashes]
  cases hrequest : r.request convert text with
  | error f =>
    simp only [hrequest] at houtcome
    rw [houtcome]
    refine ⟨by simp [Except.toOption], ?_, ?_, ?_, hrequest ▸ hslashes⟩
    · simp [Except.toOption]
    · intro f' hf'
      obtain rfl : f = f' := Except.error.inj hf'
      exact exists_embedding_of_request_eq_error hrequest
    · simp [Except.toOption]
  | ok request =>
    simp only [hrequest] at houtcome
    rw [houtcome]
    refine ⟨rfl, ?_, ?_, ?_, hrequest ▸ hslashes⟩
    · intro v
      rw [answer_eq_ok_iff]
      constructor
      · rintro ⟨reply, others, hreply, hvector⟩
        exact ⟨request, reply, others, rfl, hreply, hvector⟩
      · rintro ⟨request', reply, others, hsent, hreply, hvector⟩
        obtain rfl : request = request' := Option.some.inj hsent
        exact ⟨reply, others, hreply, hvector⟩
    · intro f hf
      exact exists_embedding_of_answer_eq_error hf
    · intro request' reply hsent hreply hstatus
      obtain rfl : request = request' := Option.some.inj hsent
      rw [hreply]
      exact message_of_not_success r.dimensions hstatus

/-- A provider that is busy at first: one request is sent, and only another call finds it ready.  Its name is not in
ASCII, and its first reply is not UTF-8. -/
theorem embed_sends_once_and_answers_busy_at_first :
    let settings : Config.EmbeddingSettings := { endpoint := "http://bücher.example/v1/", dimensions := 2 }
    let convert : Url.Host.Conversion := fun bytes =>
      if bytes = Text.Utf8.encode "bücher.example" then some "xn--bcher-kva.example".toList else none
    let busy : Reply := ⟨503, Text.Utf8.encode "\x7b\"id\":\"" ++ 0xFF ::
      Text.Utf8.encode "\",\"error\":\x7b\"message\":\"busy\"\x7d\x7d"⟩
    let ready : Reply := ⟨200, Text.Utf8.encode "\x7b\"data\":[\x7b\"embedding\":[1,2]\x7d]\x7d"⟩
    let exchange : Exchange Bool := fun _ again => (some (if again then ready else busy), true)
    let r := ofSettings settings "sk"
    busy.Explains "busy" ∧ ready.Carries [[⟨0x3F800000⟩, ⟨0x40000000⟩]] ∧
      (∃ request f, request.url.host = some "xn--bcher-kva.example" ∧
        (r.embed convert exchange.recorded "text" (false, [])).1 = .error f ∧
        (r.embed convert exchange.recorded "text" (false, [])).2.2 = [request] ∧
        f.message = "Embedding generation failed: provider rejected request: " ++ "busy") ∧
      (r.embed convert exchange.recorded "text" (true, [])).1 = .ok [⟨0x3F800000⟩, ⟨0x40000000⟩] := by
  intro settings convert busy ready exchange r
  have hbusy : busy.Explains "busy" := (reason?_eq_some_iff busy "busy").mp (by decide +kernel)
  have hready : ready.Carries [[⟨0x3F800000⟩, ⟨0x40000000⟩]] :=
    (vectors?_eq_some_iff ready _).mp (by decide +kernel)
  have hhost : (r.request convert "text").toOption.map (fun request => request.url.host) =
      some (some "xn--bcher-kva.example") := by decide +kernel
  obtain ⟨request, hrequest, hname⟩ := Option.map_eq_some_iff.mp hhost
  obtain ⟨_, rfl, hlog, -, -, hrefused, -⟩ :=
    embed_sends_once_and_answers convert settings "sk" "text" exchange false []
  obtain ⟨_, rfl, -, hok, -⟩ := embed_sends_once_and_answers convert settings "sk" "text" exchange true []
  obtain ⟨f, hf, hmessage, -⟩ := hrefused request busy hrequest rfl (by decide)
  refine ⟨hbusy, hready, ⟨request, f, hname, hf, ?_, hmessage "busy" hbusy⟩, ?_⟩
  · rw [hlog, hrequest]
    rfl
  · exact (hok _).mpr ⟨request, ready, [], hrequest, rfl, by decide, hready, rfl⟩

end Remote

end CodeAtlas.Embedding
