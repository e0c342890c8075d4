import CodeAtlas.Url.Host

/-!
# Addresses

An address in its normal form: the scheme and host in lower case, dots in the path resolved, and reserved
characters written in bytes.

## Main definitions

* `CodeAtlas.Url` — an address.
* `CodeAtlas.Url.parse` — the address that a text stands for.
* `CodeAtlas.Url.text` — its text.
* `CodeAtlas.Url.target` — what a request for it asks of the host.
-/

namespace CodeAtlas

/-- An address. -/
structure Url where
  /-- The scheme, in lower case. -/
  scheme : String
  /-- The host; none if the address has no such part. -/
  host : Option String
  /-- The number after the host, unless it is the usual one of the scheme. -/
  portNumber : Option Nat
  /-- The path. -/
  path : String
  /-- What follows a question mark. -/
  query : Option String
  /-- What follows a number sign. -/
  fragment : Option String
  deriving DecidableEq, Repr

namespace Url

/-- The schemes of the web, with their usual numbers. -/
def webPorts : List (String × Nat) :=
  [("http", 80), ("https", 443), ("ws", 80), ("wss", 443), ("ftp", 21)]

/-- The scheme is one of the web. -/
def isWeb (scheme : String) : Bool := (webPorts.lookup scheme).isSome

/-- The address names a host. -/
def hasHost (u : Url) : Bool := u.host.any (· ≠ "")

/-! ## Parts -/

/-- The scheme at the start of a text, in lower case, and what follows its colon. -/
def scanScheme (cs : List Char) : Option (String × List Char) :=
  let isPart (c : Char) : Bool := c.isAlphanum || c = '+' || c = '-' || c = '.'
  match cs with
  | c :: _ =>
    if c.isAlpha then
      match cs.dropWhile isPart with
      | ':' :: rest => some (String.ofList ((cs.takeWhile isPart).map Char.toLower), rest)
      | _ => none
    else none
  | [] => none

/-- A character that ends the part with the host. -/
def endsAuthority (web : Bool) (c : Char) : Bool :=
  c = '/' || c = '?' || c = '#' || (web && c = '\\')

/-- What follows the last `@`, which divides the user from the host. -/
def afterUser (cs : List Char) : List Char := (cs.reverse.takeWhile (· ≠ '@')).reverse

/-- The host and what follows it; a colon inside brackets does not end the host. -/
def splitHost (inside : Bool) (read : List Char) : List Char → List Char × List Char
  | [] => (read.reverse, [])
  | ':' :: rest => if inside then splitHost inside (':' :: read) rest else (read.reverse, ':' :: rest)
  | '[' :: rest => splitHost true ('[' :: read) rest
  | ']' :: rest => splitHost false (']' :: read) rest
  | c :: rest => splitHost inside (c :: read) rest

/-- The number after a colon; no digits are no number. -/
def portNumber? (cs : List Char) : Except Fault (Option Nat) :=
  if cs.isEmpty then .ok none
  else if cs.all Char.isDigit then
    let n := cs.foldl (fun n c => 10 * n + (c.toNat - 48)) 0
    if n < 65536 then .ok (some n) else .error .invalidPort
  else .error .invalidPort

/-- The host and its number in the part between two slashes and the path. -/
def authority (convert : Host.Conversion) (scheme : String) (cs : List Char) :
    Except Fault (String × Option Nat) :=
  let (host, rest) := splitHost false [] (afterUser cs)
  if host.isEmpty then
    if isWeb scheme ∨ ¬ rest.isEmpty then .error .emptyHost else .ok ("", none)
  else
    match (if isWeb scheme then Host.ofWeb convert host else Host.ofOther host) with
    | .error f => .error f
    | .ok name =>
      match portNumber? (rest.drop 1) with
      | .error f => .error f
      | .ok number => .ok (name, number.filter fun p => webPorts.lookup scheme ≠ some p)

/-! ## Paths -/

/-- The characters that are reserved in a path. -/
def pathReserved : List Char := [' ', '"', '<', '>', '\x60', '#', '?', '\x7b', '\x7d']

/-- The characters that are reserved in a query. -/
def queryReserved (web : Bool) : List Char :=
  [' ', '"', '#', '<', '>'] ++ (if web then ['\''] else [])

/-- The characters that are reserved in a fragment. -/
def fragmentReserved : List Char := [' ', '"', '<', '>', '\x60']

/-- The segment, with a dot for each dot that is written in bytes. -/
def plainDots : List Char → List Char
  | [] => []
  | '%' :: '2' :: 'e' :: rest => '.' :: plainDots rest
  | '%' :: '2' :: 'E' :: rest => '.' :: plainDots rest
  | c :: rest => c :: plainDots rest

/-- The segments of a path, after those of `read` (newest first).  A single dot is dropped, a double one
drops the segment before it; at the end both leave an empty segment. -/
def resolve (read : List (List Char)) : List (List Char) → List (List Char)
  | [] => read.reverse
  | s :: rest =>
    let dots := plainDots s
    if dots = ['.', '.'] then
      if rest.isEmpty then ([] :: read.tail).reverse else resolve read.tail rest
    else if dots = ['.'] then
      if rest.isEmpty then ([] :: read).reverse else resolve read rest
    else resolve (s :: read) rest

/-- A path that begins with a slash. -/
def pathText (web : Bool) (cs : List Char) : String :=
  let cs := if web then cs.map fun c => if c = '\\' then '/' else c else cs
  let segments := resolve [] (Files.Path.split '/' (cs.drop 1))
  String.join (segments.map fun s => "/" ++ encode pathReserved s)

/-- The path of an address with a host. -/
def hostPath (web : Bool) (cs : List Char) : String :=
  if cs.isEmpty then (if web then "/" else "") else pathText web cs

/-! ## Addresses -/

/-- The text before the first character `mark`, and what follows it if it is there. -/
def cut (mark : Char) (cs : List Char) : List Char × Option (List Char) :=
  match cs.dropWhile (· ≠ mark) with
  | [] => (cs, none)
  | _ :: rest => (cs.takeWhile (· ≠ mark), some rest)

/-- The characters that count: surrounding spaces and control characters do not, nor do tabs and line
breaks anywhere. -/
def significant (cs : List Char) : List Char :=
  let isEdge (c : Char) : Bool := c.toNat ≤ 0x20
  (((cs.dropWhile isEdge).reverse.dropWhile isEdge).reverse).filter fun c =>
    c ≠ '\t' ∧ c ≠ '\n' ∧ c ≠ '\r'

/-- The address of a scheme and what follows its colon. -/
def ofScheme (convert : Host.Conversion) (scheme : String) (cs : List Char) : Except Fault Url :=
  let web := isWeb scheme
  let (cs, fragment) := cut '#' cs
  let (cs, query) := cut '?' cs
  let query := query.map (encode (queryReserved web))
  let fragment := fragment.map (encode fragmentReserved)
  let withHost (cs : List Char) : Except Fault Url :=
    match authority convert scheme (cs.takeWhile fun c => !endsAuthority web c) with
    | .error f => .error f
    | .ok (host, number) =>
      .ok ⟨scheme, some host, number, hostPath web (cs.dropWhile fun c => !endsAuthority web c),
        query, fragment⟩
  if web then withHost (cs.dropWhile fun c => c = '/' || c = '\\')
  else
    match cs with
    | '/' :: '/' :: rest => withHost rest
    | '/' :: _ => .ok ⟨scheme, none, none, pathText false cs, query, fragment⟩
    | _ => .ok ⟨scheme, none, none, encode [] cs, query, fragment⟩

/-- The address that a text stands for, when names of hosts are converted by `convert`. -/
def parse (convert : Host.Conversion) (text : String) : Except Fault Url :=
  match scanScheme (significant text.toList) with
  | none => .error .relative
  | some (scheme, rest) => ofScheme convert scheme rest

/-- A part with the mark before it, if it is there. -/
def marked (mark : String) : Option String → String
  | some s => mark ++ s
  | none => ""

/-- What a request for the address asks of its host. -/
def target (u : Url) : String := u.path ++ marked "?" u.query

/-- The text of an address. -/
def text (u : Url) : String :=
  u.scheme ++ ":" ++ marked "//" u.host ++ marked ":" (u.portNumber.map toString) ++ u.target
    ++ marked "#" u.fragment

end Url

end CodeAtlas
