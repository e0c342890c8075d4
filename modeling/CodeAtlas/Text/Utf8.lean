/-!
# Reading bytes as UTF-8

`decode` reads bytes as Unicode scalar values and refuses at the first sequence that is not well
formed.  A refusal says where the bad sequence starts, and whether it is wrong or merely cut short
by the end of the input.

## Main definitions

* `CodeAtlas.Text.Utf8.Fault` — why and where bytes are refused.
* `CodeAtlas.Text.Utf8.decode` — the scalar values of well-formed bytes.
* `CodeAtlas.Text.Utf8.encode` — the bytes of a text.
-/

namespace CodeAtlas.Text.Utf8

/-- Why bytes are not UTF-8. -/
inductive Fault where
  /-- The `length` bytes from `index` on begin no well-formed sequence. -/
  | invalid (length index : Nat)
  /-- The input ends inside the sequence that starts at `index`. -/
  | incomplete (index : Nat)
  deriving DecidableEq, Repr

/-- The wording of a refusal. -/
def Fault.message : Fault → String
  | .invalid length index => s!"invalid utf-8 sequence of {length} bytes from index {index}"
  | .incomplete index => s!"incomplete utf-8 byte sequence from index {index}"

/-- A continuation byte. -/
def isContinuation (b : UInt8) : Bool := 0x80 ≤ b && b ≤ 0xBF

/-- The second bytes that may follow the lead byte `lead` of a sequence of three: no surrogate and
no value that a shorter sequence encodes. -/
def isSecondOfThree (lead b : UInt8) : Bool :=
  if lead == 0xE0 then 0xA0 ≤ b && b ≤ 0xBF
  else if lead == 0xED then 0x80 ≤ b && b ≤ 0x9F
  else isContinuation b

/-- The second bytes that may follow the lead byte `lead` of a sequence of four: no value past
`U+10FFFF` and none that a shorter sequence encodes. -/
def isSecondOfFour (lead b : UInt8) : Bool :=
  if lead == 0xF0 then 0x90 ≤ b && b ≤ 0xBF
  else if lead == 0xF4 then 0x80 ≤ b && b ≤ 0x8F
  else isContinuation b

/-- The six low bits that a continuation byte carries. -/
def payload (b : UInt8) : Nat := b.toNat % 64

/-- The scalar values of `bytes`, after those of `read` (newest first); `index` counts the bytes
already read. -/
def decodeFrom (index : Nat) (read : List Char) : List UInt8 → Except Fault (List Char)
  | [] => .ok read.reverse
  | a :: r =>
    if a < 0x80 then decodeFrom (index + 1) (Char.ofNat a.toNat :: read) r
    else if 0xC2 ≤ a && a ≤ 0xDF then
      match r with
      | [] => .error (.incomplete index)
      | b :: r =>
        if isContinuation b then
          decodeFrom (index + 2) (Char.ofNat (a.toNat % 32 * 64 + payload b) :: read) r
        else .error (.invalid 1 index)
    else if 0xE0 ≤ a && a ≤ 0xEF then
      match r with
      | [] => .error (.incomplete index)
      | b :: r =>
        if isSecondOfThree a b then
          match r with
          | [] => .error (.incomplete index)
          | c :: r =>
            if isContinuation c then
              decodeFrom (index + 3)
                (Char.ofNat (a.toNat % 16 * 4096 + payload b * 64 + payload c) :: read) r
            else .error (.invalid 2 index)
        else .error (.invalid 1 index)
    else if 0xF0 ≤ a && a ≤ 0xF4 then
      match r with
      | [] => .error (.incomplete index)
      | b :: r =>
        if isSecondOfFour a b then
          match r with
          | [] => .error (.incomplete index)
          | c :: r =>
            if isContinuation c then
              match r with
              | [] => .error (.incomplete index)
              | d :: r =>
                if isContinuation d then
                  decodeFrom (index + 4)
                    (Char.ofNat (a.toNat % 8 * 262144 + payload b * 4096 + payload c * 64
                      + payload d) :: read) r
                else .error (.invalid 3 index)
            else .error (.invalid 2 index)
        else .error (.invalid 1 index)
    else .error (.invalid 1 index)

/-- The scalar values that the bytes encode. -/
def decode (bytes : List UInt8) : Except Fault (List Char) := decodeFrom 0 [] bytes

/-- The bytes of a text. -/
def encode (s : String) : List UInt8 := s.toUTF8.toList

end CodeAtlas.Text.Utf8
