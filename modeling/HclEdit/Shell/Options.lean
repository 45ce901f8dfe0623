import HclEdit.Shell.Command

/-!
Options of commands: letters after a dash, which may take a value, in front of the other arguments.
-/

namespace HclEdit.Shell

structure OptionLetters where
  plain : List Char
  valued : List Char

namespace OptionLetters

/-- The letters of one argument, up to one that takes a value, with what follows that letter. -/
def readLetters (letters : OptionLetters) :
    Octets → Except Octets (List Char × Option (Char × Octets))
  | [] => .ok ([], none)
  | c :: rest =>
      if letters.valued.contains c then .ok ([], some (c, rest))
      else if letters.plain.contains c then do
        let (found, value) ← letters.readLetters rest
        return (c :: found, value)
      else
        .error ("Illegal option -".toList ++ [c])

/-- Reads options with their values, and tells what is left. -/
def read (letters : OptionLetters) :
    List Octets → Except Octets (List (Char × Octets) × List Octets)
  | [] => .ok ([], [])
  | word :: rest =>
      match word with
      | ['-', '-'] => .ok ([], rest)
      | '-' :: c :: more => do
          let (found, value) ← letters.readLetters (c :: more)
          let plain := found.map fun c => (c, ([] : Octets))
          match value with
          | some (c, []) =>
              match rest with
              | [] => throw ("No arg for -".toList ++ c :: " option".toList)
              | value :: rest =>
                  let (options, left) ← letters.read rest
                  return (plain ++ (c, value) :: options, left)
          | valued =>
              let (options, left) ← letters.read rest
              return (plain ++ valued.toList ++ options, left)
      | _ => .ok ([], word :: rest)

end OptionLetters

end HclEdit.Shell
