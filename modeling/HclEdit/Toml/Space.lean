import HclEdit.Text.Basic

/-!
What stands between the values of a TOML text: blanks, comments and line ends. A carriage return is
part of a line end or a mistake.
-/

namespace HclEdit.Toml

def isSpace (c : Char) : Bool :=
  c == ' ' || c == '\t'

def skipSpace (text : Text) : Text :=
  text.dropWhile isSpace

def isControl (c : Char) : Bool :=
  (c.toNat < 0x20 && c != '\t') || c.toNat == 0x7F

/-- Skips a comment up to the end of its line, if one starts here. -/
def skipComment? : Text → Option Text
  | '#' :: rest =>
      let after := rest.dropWhile (! isControl ·)
      match after with
      | [] | '\n' :: _ | '\r' :: '\n' :: _ => some after
      | _ => none
  | text => some text

def takeNewline? : Text → Option Text
  | '\n' :: rest => some rest
  | '\r' :: '\n' :: rest => some rest
  | _ => none

/-- Skips to the next line; nothing but blanks and a comment may be left on this one. -/
def endLine? (text : Text) : Option Text := do
  match ← skipComment? (skipSpace text) with
  | [] => some []
  | rest => takeNewline? rest

/-- Skips blanks, comments and line ends. -/
def skipLines? : Nat → Text → Option Text
  | 0, text => some text
  | fuel + 1, text => do
      let after ← skipComment? (skipSpace text)
      match takeNewline? after with
      | some rest => skipLines? fuel rest
      | none => some after

/-- Skips blanks and line ends, but no comments. -/
def skipBlankLines : Nat → Text → Text
  | 0, text => text
  | fuel + 1, text =>
      match takeNewline? (skipSpace text) with
      | some rest => skipBlankLines fuel rest
      | none => skipSpace text

end HclEdit.Toml
