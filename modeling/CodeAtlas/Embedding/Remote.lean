import CodeAtlas.Config.Settings
import CodeAtlas.Embedding.Basic
import CodeAtlas.Embedding.Status
import CodeAtlas.Json.Document
import CodeAtlas.Json.Text
import CodeAtlas.Json.Typed
import CodeAtlas.Url.Basic

/-!
# Vectors from a remote provider

A remote provider takes a text in a request and gives its vector in the reply.  Each text takes one
request; nothing is tried twice.

What travels between the program and the provider is data here, so that a provider is anything that
answers requests with replies.  It may change with each request that it gets.  How the names of hosts are
converted is given as a function.

## Main definitions

* `CodeAtlas.Embedding.Request`, `CodeAtlas.Embedding.Reply` — what travels.
* `CodeAtlas.Embedding.Exchange` — what delivers requests and brings replies.
* `CodeAtlas.Embedding.Remote` — a provider as the settings describe it.
* `CodeAtlas.Embedding.Remote.request` — the request for a text.
* `CodeAtlas.Embedding.Remote.vector` — the vector in a reply.
* `CodeAtlas.Embedding.Remote.embed` — the answer to a text.
* `CodeAtlas.Embedding.Provider` — where vectors come from.
-/

namespace CodeAtlas.Embedding

/-- A request to a provider. -/
structure Request where
  /-- The address it is sent to. -/
  url : Url
  /-- The credentials. -/
  authorization : String
  /-- The JSON text. -/
  body : String
  deriving DecidableEq, Repr

/-- The first line of a request. -/
def Request.line (r : Request) : String := s!"POST {r.url.target} HTTP/1.1"

/-- The kind of text that a request carries. -/
def Request.contentType : String := "application/json"

/-- How the program names itself in a request. -/
def Request.userAgent : String := "treeline/0.1.0"

/-- A reply of a provider. -/
structure Reply where
  /-- The status code. -/
  status : Nat
  /-- The bytes of the reply. -/
  body : List UInt8
  deriving DecidableEq, Repr

/-- The bytes that a reply really carries. -/
def Reply.content (r : Reply) : List UInt8 := if Status.hasBody r.status then r.body else []

/-- What delivers requests and brings replies, if anything listens.  Its state tells one request from the
next. -/
abbrev Exchange (σ : Type) := Request → σ → Option Reply × σ

/-- The exchange that answers equal requests equally. -/
def Exchange.constant (answer : Request → Option Reply) : Exchange Unit := fun request s =>
  (answer request, s)

/-- A provider as the settings describe it. -/
structure Remote where
  /-- The address of the service. -/
  address : String
  /-- The key. -/
  key : String
  /-- The model that is asked for. -/
  model : String
  /-- The number of components of a vector. -/
  dimensions : Nat
  deriving DecidableEq, Repr

namespace Remote

/-- The provider that the settings describe, with its key. -/
def ofSettings (s : Config.EmbeddingSettings) (key : String) : Remote where
  address := String.ofList (s.endpoint.toList.reverse.dropWhile (· = '/')).reverse ++ "/embeddings"
  key := key
  model := s.model
  dimensions := s.dimensions

/-! ## Requests -/

/-- The models that can be asked for a number of components. -/
def hasDimensions (model : String) : Bool := "text-embedding-3".toList.isPrefixOf model.toList

/-- The JSON text of the request for a text. -/
def body (r : Remote) (text : String) : String :=
  Json.objectText ([("model", Json.quote r.model), ("input", Json.quote text),
    ("encoding_format", Json.quote "float")]
      ++ if hasDimensions r.model then [("dimensions", toString r.dimensions)] else [])

/-- The character may stand in the credentials. -/
def isPrintable (c : Char) : Bool := c = '\t' || (0x20 ≤ c.toNat && c.toNat ≠ 0x7F)

/-- No request can be made. -/
def notBuilt (address : Option Url) : Failure :=
  .embedding ("builder error" ++
    match address with
    | some u => " for url (" ++ u.text ++ ")"
    | none => "")

/-- The request for a text, unless the address or the key is of no use. -/
def request (r : Remote) (convert : Url.Host.Conversion) (text : String) : Except Failure Request :=
  match Url.parse convert r.address with
  | .error _ => .error (notBuilt none)
  | .ok url =>
    if ¬ url.hasHost then .error (notBuilt (some url))
    else if ¬ r.key.toList.all isPrintable then .error (notBuilt none)
    else if url.scheme ≠ "http" ∧ url.scheme ≠ "https" then .error (notBuilt (some url))
    else .ok ⟨url, "Bearer " ++ r.key, r.body text⟩

/-- The request could not be delivered. -/
def notSent (r : Request) : Failure :=
  .embedding ("error sending request for url (" ++ r.url.text ++ ")")

/-! ## Replies -/

/-- The value of the only field of a record, which is also written as a list of one item.  Other fields
are passed over. -/
def only? (name : String) : Json.Document → Option Json.Document
  | .array [d] => some d
  | .object fields =>
    if fields.any fun f => f.1.isNone then none
    else
      match fields.filter fun f => f.1 = some name with
      | [(_, d)] => some d
      | _ => none
  | _ => none

/-- The number that a document stands for. -/
def single? : Json.Document → Option Number.Binary32
  | .number n => n.value.bind fun v => (Json.readSingle v).toOption
  | _ => none

/-- The vector of an item of a reply. -/
def item? (d : Json.Document) : Option Vector :=
  match only? "embedding" d with
  | some (.array components) => components.mapM single?
  | _ => none

/-- The vectors of a reply. -/
def vectors? (content : List UInt8) : Option (List Vector) :=
  match (Json.Document.read content).bind (only? "data") with
  | some (.array items) => items.mapM item?
  | _ => none

/-- The reason that a reply gives for a refusal. -/
def reason? (content : List UInt8) : Option String :=
  match ((Json.Document.read content).bind (only? "error")).bind (only? "message") with
  | some (.string s) => s
  | _ => none

/-- The vector in a reply, which must have the right number of components. -/
def vector (dimensions : Nat) (reply : Reply) : Except Failure Vector :=
  if Status.isSuccess reply.status then
    match vectors? reply.content with
    | none => .error (.embedding "error decoding response body")
    | some [] => .error (.embedding "response contained no embedding")
    | some (v :: _) =>
      if v.length = dimensions then .ok v
      else .error (.embedding
        s!"expected {dimensions} dimensions, provider returned {v.length}")
  else
    let reason := (reason? reply.content).getD ("HTTP " ++ Status.text reply.status)
    .error (.embedding s!"provider rejected request: {reason}")

/-- The answer to a text, when `exchange` delivers requests and brings replies. -/
def embed {σ : Type} (r : Remote) (convert : Url.Host.Conversion) (exchange : Exchange σ) (text : String)
    (s : σ) : Except Failure Vector × σ :=
  match r.request convert text with
  | .error f => (.error f, s)
  | .ok request =>
    match exchange request s with
    | (none, s) => (.error (notSent request), s)
    | (some reply, s) => (vector r.dimensions reply, s)

end Remote

/-- Where vectors come from. -/
inductive Provider where
  /-- A remote provider. -/
  | remote (r : Remote)
  /-- The texts themselves. -/
  | offline (dimensions : Nat)
  deriving DecidableEq, Repr

namespace Provider

/-- The provider that the settings describe: a remote one exactly if there is a key for it. -/
def ofSettings (s : Config.EmbeddingSettings) : Provider :=
  match s.credential with
  | some key => .remote (.ofSettings s key)
  | none => .offline s.dimensions

/-- The embedder of a provider. -/
def embedder (convert : Url.Host.Conversion) (answer : Request → Option Reply) : Provider → Embedder
  | .remote r =>
    { dimensions := r.dimensions
      embed := fun _ text => (r.embed convert (.constant answer) text ()).1 }
  | .offline dimensions => .offline dimensions

/-- The request that a provider makes for a text, if it makes one. -/
def request? (convert : Url.Host.Conversion) (text : String) : Provider → Option Request
  | .remote r => (r.request convert text).toOption
  | .offline _ => none

end Provider

end CodeAtlas.Embedding
