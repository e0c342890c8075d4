import CodeAtlas.Files.Path
import CodeAtlas.Number.Hex
import CodeAtlas.Text.Utf8

/-!
# Hosts

The host in an address is a name or a numeric address with 32 or 128 bits.  In the schemes of the web a
name is converted to ASCII, and one that ends in a number must be a numeric address; in other schemes a name
is taken as it is.

The conversion of names with characters beyond ASCII follows tables that are not part of this library.  It
is given as a function, so that what is said of addresses holds for every conversion.

## Main definitions

* `CodeAtlas.Url.Fault` — why an address is refused.
* `CodeAtlas.Url.Host.Conversion` — how names are converted to ASCII.
* `CodeAtlas.Url.Host.plainName` — the conversion of names that are in ASCII.
* `CodeAtlas.Url.Host.ofWeb`, `CodeAtlas.Url.Host.ofOther` — the text of a host in its normal form.
-/

namespace CodeAtlas.Url

/-- Why an address is refused. -/
inductive Fault where
  /-- It names no scheme. -/
  | relative
  /-- It names no host where one must be. -/
  | emptyHost
  /-- What follows the host and a colon is no number with 16 bits. -/
  | invalidPort
  /-- The host ends in a number but is no numeric address. -/
  | invalidAddress32
  /-- The host in brackets is no numeric address. -/
  | invalidAddress128
  /-- The host has a character that no host has. -/
  | invalidCharacter
  /-- The host is no name. -/
  | invalidName
  deriving DecidableEq, Repr

/-- The wording of a refusal. -/
def Fault.message : Fault → String
  | .relative => "relative URL without a base"
  | .emptyHost => "empty host"
  | .invalidPort => "invalid port number"
  | .invalidAddress32 => "invalid IPv4 address"
  | .invalidAddress128 => "invalid IPv6 address"
  | .invalidCharacter => "invalid domain character"
  | .invalidName => "invalid international domain name"

/-! ## Percent encoding -/

/-- A byte as a percent sign and two digits. -/
def encodeByte (b : UInt8) : List Char :=
  '%' :: (Number.Hex.render 2 b.toNat).toList.map Char.toUpper

/-- A character that is never written as it is. -/
def isControl (c : Char) : Bool := c.toNat < 0x20 || 0x7F ≤ c.toNat

/-- The text with every control character, and every character of `reserved`, written in bytes. -/
def encode (reserved : List Char) (cs : List Char) : String :=
  String.ofList (cs.flatMap fun c =>
    if isControl c || reserved.contains c then (Text.Utf8.encode c.toString).flatMap encodeByte
    else [c])

/-- The bytes of a text in which a percent sign and two digits stand for a byte. -/
def decodeBytes : List Char → List UInt8
  | [] => []
  | '%' :: a :: b :: rest =>
    match Number.Hex.value? a, Number.Hex.value? b with
    | some m, some n => (16 * m + n).toUInt8 :: decodeBytes rest
    | _, _ => (Text.Utf8.encode "%") ++ decodeBytes (a :: b :: rest)
  | c :: rest => Text.Utf8.encode c.toString ++ decodeBytes rest

namespace Host

/-! ## Addresses with 32 bits -/

/-- The number that a part of an address stands for: in base sixteen after `0x`, in base eight after
`0`, else in base ten. -/
def number? (cs : List Char) : Option Nat :=
  let (base, digits) : Nat × List Char :=
    match cs with
    | '0' :: 'x' :: rest => (16, rest)
    | '0' :: 'X' :: rest => (16, rest)
    | '0' :: c :: rest => (8, c :: rest)
    | _ => (10, cs)
  if cs.isEmpty then none
  else if digits.all fun c => (Number.Hex.value? c).any (· < base) then
    some (digits.foldl (fun n c => base * n + (Number.Hex.value? c).getD 0) 0)
  else none

/-- The parts of a name between dots; a dot at the end does not count. -/
def labels (cs : List Char) : List (List Char) :=
  let parts := Files.Path.split '.' cs
  if 1 < parts.length ∧ parts.getLast? = some [] then parts.dropLast else parts

/-- The last part of the name is a number. -/
def endsInNumber (cs : List Char) : Bool :=
  match (labels cs).getLast? with
  | none => false
  | some last => !last.isEmpty && (last.all Char.isDigit || (number? last).isSome)

/-- The address whose parts are given: all but the last are bytes, the last one fills the rest. -/
def address32? (parts : List (List Char)) : Option Nat :=
  if parts.isEmpty ∨ 4 < parts.length then none
  else
    match parts.mapM number? with
    | none => none
    | some numbers =>
      let bytes := numbers.dropLast
      let last := numbers.getLast?.getD 0
      if bytes.all (· < 256) ∧ last < Nat.pow 256 (5 - numbers.length) then
        some (bytes.foldl (fun n b => 256 * n + b) 0 * Nat.pow 256 (5 - numbers.length) + last)
      else none

/-- The four bytes of an address, with dots. -/
def address32Text (n : Nat) : String :=
  s!"{n / 16777216 % 256}.{n / 65536 % 256}.{n / 256 % 256}.{n % 256}"

/-! ## Addresses with 128 bits -/

/-- A group of at most four digits in base sixteen. -/
def group? (cs : List Char) : Option Nat :=
  if cs.length ≤ 4 then Number.Hex.read cs else none

/-- A byte in base ten, without needless zeros. -/
def byte? (cs : List Char) : Option Nat :=
  if cs.isEmpty ∨ 3 < cs.length ∨ ¬ cs.all Char.isDigit ∨ (cs.head? = some '0' ∧ 1 < cs.length) then none
  else (number? cs).filter (· < 256)

/-- The groups of one side of a double colon; the last one may be an address with 32 bits, which counts
for two. -/
def groups? (dotted : Bool) (cs : List Char) : Option (List Nat) :=
  if cs.isEmpty then some []
  else
    let parts := Files.Path.split ':' cs
    match parts.getLast? with
    | none => some []
    | some last =>
      if dotted ∧ last.contains '.' then
        match (Files.Path.split '.' last).mapM byte?, parts.dropLast.mapM group? with
        | some [a, b, c, d], some groups => some (groups ++ [256 * a + b, 256 * c + d])
        | _, _ => none
      else parts.mapM group?

/-- The text before and after the first double colon. -/
def splitDouble (read : List Char) : List Char → Option (List Char × List Char)
  | [] => none
  | ':' :: ':' :: rest => some (read.reverse, rest)
  | c :: rest => splitDouble (c :: read) rest

/-- The eight groups of an address; a double colon stands for one or more groups of zero. -/
def address128? (cs : List Char) : Option (List Nat) :=
  match splitDouble [] cs with
  | none => (groups? true cs).filter fun gs => gs.length = 8
  | some (front, back) =>
    match groups? false front, groups? true back with
    | some fs, some bs =>
      if fs.length + bs.length ≤ 7 then
        some (fs ++ List.replicate (8 - fs.length - bs.length) 0 ++ bs)
      else none
    | _, _ => none

/-- The length of the run of zeros at the start. -/
def zeros (groups : List Nat) : Nat := (groups.takeWhile (· = 0)).length

/-- Where the longest run of at least two zeros starts, and how long it is; the first one of several. -/
def longestRun (groups : List Nat) : Option (Nat × Nat) :=
  let runs := (List.range groups.length).map fun i => (i, zeros (groups.drop i))
  let best := runs.foldl (fun b r => if b.2 < r.2 then r else b) (0, 0)
  if 2 ≤ best.2 then some best else none

/-- The groups in base sixteen, with colons. -/
def groupsText (groups : List Nat) : String :=
  ":".intercalate (groups.map Number.Hex.renderShort)

/-- The eight groups of an address, with the longest run of zeros left out. -/
def address128Text (groups : List Nat) : String :=
  match longestRun groups with
  | none => groupsText groups
  | some (start, length) =>
    groupsText (groups.take start) ++ "::" ++ groupsText (groups.drop (start + length))

/-! ## Hosts -/

/-- The host between brackets. -/
def ofBrackets (cs : List Char) : Except Fault String :=
  if cs.getLast? = some ']' then
    match address128? cs.dropLast with
    | some groups => .ok ("[" ++ address128Text groups ++ "]")
    | none => .error .invalidAddress128
  else .error .invalidAddress128

/-- How the bytes of a name are converted to the characters of its form in ASCII, if they are a name. -/
abbrev Conversion := List UInt8 → Option (List Char)

/-- A character of ASCII that no name has in the schemes of the web. -/
def isForbidden (c : Char) : Bool :=
  c.toNat ≤ 0x20 || c.toNat = 0x7F
    || ['#', '/', ':', '<', '>', '?', '@', '[', '\\', ']', '^', '|', '%'].contains c

/-- The conversion of names in ASCII, which change to lower case.  It knows no other name, and takes a part
that stands for other characters as it is. -/
def plainName : Conversion := fun bytes =>
  let name := bytes.map fun b => (Char.ofNat b.toNat).toLower
  if bytes.all (· < 0x80) ∧ ¬ name.any isForbidden then some name else none

/-- The host of an address in a scheme of the web. -/
def ofWeb (convert : Conversion) (cs : List Char) : Except Fault String :=
  match cs with
  | '[' :: rest => ofBrackets rest
  | _ =>
    match convert (decodeBytes cs) with
    | none => .error .invalidName
    | some name =>
      if name.isEmpty then .error .emptyHost
      else if endsInNumber name then
        match address32? (labels name) with
        | some n => .ok (address32Text n)
        | none => .error .invalidAddress32
      else .ok (String.ofList name)

/-- A character that no host has in any scheme. -/
def isInvalid (c : Char) : Bool :=
  ['\x00', '\t', '\n', '\r', ' ', '#', '/', ':', '<', '>', '?', '@', '[', '\\', ']', '^', '|'].contains c

/-- The host of an address in any other scheme. -/
def ofOther (cs : List Char) : Except Fault String :=
  match cs with
  | '[' :: rest => ofBrackets rest
  | _ => if cs.any isInvalid then .error .invalidCharacter else .ok (encode [] cs)

end Host

end CodeAtlas.Url
