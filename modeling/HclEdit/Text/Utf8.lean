import HclEdit.Text.Basic

/-!
UTF-8: the bytes of a text, and the reading of bytes that need not be well formed. Reading runs a
machine over the bytes that knows how many continuation bytes are still due and the range the next
one must lie in. A sequence cut short is given up as one unit, and the byte that cut it is read
afresh.
-/

namespace HclEdit

abbrev Bytes := List UInt8

namespace Text

def encode (text : Text) : Bytes :=
  text.flatMap String.utf8EncodeChar

inductive Utf8State where
  | between
  | within (due low high value : Nat)

namespace Utf8State

/-- Reads a byte that starts a character. A character or a failure (`none`) may come out of it. -/
def enter (byte : Nat) : List (Option Char) × Utf8State :=
  if byte < 0x80 then ([some (Char.ofNat byte)], between)
  else if byte < 0xC2 then ([none], between)
  else if byte < 0xE0 then ([], within 1 0x80 0xBF (byte - 0xC0))
  else if byte = 0xE0 then ([], within 2 0xA0 0xBF 0)
  else if byte = 0xED then ([], within 2 0x80 0x9F 0xD)
  else if byte < 0xF0 then ([], within 2 0x80 0xBF (byte - 0xE0))
  else if byte = 0xF0 then ([], within 3 0x90 0xBF 0)
  else if byte < 0xF4 then ([], within 3 0x80 0xBF (byte - 0xF0))
  else if byte = 0xF4 then ([], within 3 0x80 0x8F 4)
  else ([none], between)

def step : Utf8State → Nat → List (Option Char) × Utf8State
  | between, byte => enter byte
  | within due low high value, byte =>
      if low ≤ byte ∧ byte ≤ high then
        let extended := value * 64 + (byte - 0x80)
        if due ≤ 1 then ([some (Char.ofNat extended)], between)
        else ([], within (due - 1) 0x80 0xBF extended)
      else
        let (read, next) := enter byte
        (none :: read, next)

def run : Utf8State → Bytes → List (Option Char)
  | between, [] => []
  | within .., [] => [none]
  | state, byte :: rest =>
      let (read, next) := state.step byte.toNat
      read ++ run next rest

end Utf8State

/-- The characters of a byte sequence, with `none` for each maximal part that is not UTF-8. -/
def readUtf8 (bytes : Bytes) : List (Option Char) :=
  Utf8State.between.run bytes

def decode? (bytes : Bytes) : Option Text :=
  (readUtf8 bytes).mapM id

/-- Reads bytes as UTF-8, with U+FFFD in place of each part that is not. -/
def decodeLossy (bytes : Bytes) : Text :=
  (readUtf8 bytes).map (·.getD '\uFFFD')

end Text

end HclEdit
