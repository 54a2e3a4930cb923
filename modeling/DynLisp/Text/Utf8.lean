import DynLisp.Text.Quoted

/-!
# Script text from bytes

`Utf8.decode` reads bytes as UTF-8 and refuses the first sequence that is not well formed, saying
which bytes it covers.  `unifyNewlines` makes one newline out of every line end.
-/

namespace DynLisp

namespace Utf8

/-- Why bytes are no text. -/
inductive Reason where
  | badStart
  | badContinuation
  | endOfData
deriving DecidableEq, Repr

/-- A malformed sequence: its first byte, where it starts, and how many bytes it has. -/
structure Malformed where
  byte : Nat
  start : Nat
  length : Nat
  reason : Reason
deriving DecidableEq, Repr

/-- The wording of a reason. -/
def Reason.text : Reason → String
  | .badStart => "invalid start byte"
  | .badContinuation => "invalid continuation byte"
  | .endOfData => "unexpected end of data"

/-- The message for a malformed sequence. -/
def Malformed.message (m : Malformed) : String :=
  let place :=
    if m.length ≤ 1 then
      "byte 0x" ++ String.ofList (Text.hexFixed 2 m.byte) ++ " in position " ++ toString m.start
    else
      "bytes in position " ++ toString m.start ++ "-" ++ toString (m.start + m.length - 1)
  "'utf-8' codec can't decode " ++ place ++ ": " ++ m.reason.text

/-- What a first byte announces: its own bits, and the range that each further byte must lie in. -/
def lead? (b : Nat) : Option (Nat × List (Nat × Nat)) :=
  let any := (0x80, 0xBF)
  if b < 0x80 then some (b, [])
  else if b < 0xC2 then none
  else if b < 0xE0 then some (b - 0xC0, [any])
  else if b = 0xE0 then some (0, [(0xA0, 0xBF), any])
  else if b = 0xED then some (0xD, [(0x80, 0x9F), any])
  else if b < 0xF0 then some (b - 0xE0, [any, any])
  else if b = 0xF0 then some (0, [(0x90, 0xBF), any, any])
  else if b = 0xF4 then some (4, [(0x80, 0x8F), any, any])
  else if b < 0xF4 then some (b - 0xF0, [any, any, any])
  else none

/-- Where the decoder stands: before a character, or inside one with the bits and bytes so far. -/
inductive Position where
  | between
  | inside (first : Nat) (length : Nat) (bits : Nat) (next : Nat × Nat) (later : List (Nat × Nat))

/-- Decodes bytes from a position on; `offset` is the number of the first of them. -/
def decodeFrom (offset : Nat) : Position → List UInt8 → Except Malformed (List Char)
  | .between, [] => .ok []
  | .inside first length _ _ _, [] => .error ⟨first, offset - length, length, .endOfData⟩
  | .between, byte :: rest =>
    match lead? byte.toNat with
    | none => .error ⟨byte.toNat, offset, 1, .badStart⟩
    | some (bits, []) => (decodeFrom (offset + 1) .between rest).map (Char.ofNat bits :: ·)
    | some (bits, next :: later) =>
      decodeFrom (offset + 1) (.inside byte.toNat 1 bits next later) rest
  | .inside first length bits next later, byte :: rest =>
    let b := byte.toNat
    if next.1 ≤ b ∧ b ≤ next.2 then
      let bits := bits * 64 + (b - 0x80)
      match later with
      | [] => (decodeFrom (offset + 1) .between rest).map (Char.ofNat bits :: ·)
      | next :: later => decodeFrom (offset + 1) (.inside first (length + 1) bits next later) rest
    else .error ⟨first, offset - length, length, .badContinuation⟩

/-- The text that the bytes are. -/
def decode (bytes : List UInt8) : Except Malformed (List Char) :=
  decodeFrom 0 .between bytes

end Utf8

namespace Text

/-- One newline for every line end: a carriage return, alone or before a newline, becomes a
newline. -/
def unifyNewlines : List Char → List Char
  | [] => []
  | '\r' :: '\n' :: rest => '\n' :: unifyNewlines rest
  | c :: rest => (if c = '\r' then '\n' else c) :: unifyNewlines rest

end Text

end DynLisp
