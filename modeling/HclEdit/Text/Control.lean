import HclEdit.Text.Basic

/-!
Terminal control sequences, and texts without them. A machine over the characters knows whether it
is inside a sequence. Whatever can be printed ends a sequence that it does not belong to.
-/

namespace HclEdit.Text

inductive ControlState where
  | ground
  | escape
  | intermediate
  | parameters
  | string (endsAtBell : Bool)
deriving DecidableEq

namespace ControlState

/-- White space among the control characters is printed. -/
def isPrintedControl (c : Char) : Bool :=
  c == '\t' || c == '\n' || c == '\x0C' || c == '\r'

/-- The state after a character that follows the escape character. -/
def afterEscape (code : Nat) : ControlState :=
  if code < 0x30 then intermediate
  else if code = 0x5B then parameters
  else if code = 0x5D then string true
  else if code = 0x50 ∨ code = 0x58 ∨ code = 0x5E ∨ code = 0x5F then string false
  else ground

/-- The state after an ASCII character that is neither printed nor a control character. -/
def within : ControlState → Nat → ControlState
  | ground, _ => ground
  | escape, code => afterEscape code
  | intermediate, code => if code < 0x30 then intermediate else ground
  | parameters, code => if code < 0x40 then parameters else ground
  | string endsAtBell, _ => string endsAtBell

/-- What a character prints, and the state after it. Of a character outside ASCII a sequence
swallows the first byte only. -/
def step (state : ControlState) (c : Char) : Text × ControlState :=
  let code := c.toNat
  if code = 0x1B then ([], escape)
  else if code = 0x18 ∨ code = 0x1A then ([], ground)
  else if 0x80 ≤ code then
    (if state = ground then [c] else List.replicate (c.utf8Size - 1) '\uFFFD', ground)
  else
    match state with
    | string endsAtBell => ([], if endsAtBell && code == 7 then ground else state)
    | _ =>
        if isPrintedControl c then ([c], ground)
        else if code < 0x20 ∨ code = 0x7F then ([], state)
        else if state = ground then ([c], ground)
        else ([], state.within code)

def run : ControlState → Text → Text
  | _, [] => []
  | state, c :: rest =>
      let (printed, next) := state.step c
      printed ++ run next rest

end ControlState

/-- A text as it looks without the control sequences in it. -/
def withoutControls (text : Text) : Text :=
  ControlState.ground.run text

end HclEdit.Text
