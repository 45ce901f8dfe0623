import HclEdit.Config.Flags
import Mathlib.Data.List.Induction

/-!
# Flags in front of a command

Every list of arguments is flags that have their values, followed by a command or by one flag at the
very end whose value is missing. The split follows this form, so it takes as many arguments as flags
can account for.
-/

namespace HclEdit

namespace ConfigFlag

/-- The argument for a flag, with a value attached to it or not. -/
def argument (flag : ConfigFlag) : Option Text → Text
  | none => flag.name
  | some value => flag.name ++ '=' :: value

def IsFlag (text : Text) : Prop :=
  ∃ (flag : ConfigFlag) (value : Option Text), text = flag.argument value

/-- Flags one after the other, each with a value. A value of its own can be anything. -/
inductive WithValues : List Text → Prop where
  | nil : WithValues []
  | attached (flag : ConfigFlag) (value : Text) {rest : List Text} (hrest : WithValues rest) :
      WithValues (flag.argument (some value) :: rest)
  | apart (flag : ConfigFlag) (value : Text) {rest : List Text} (hrest : WithValues rest) :
      WithValues (flag.argument none :: value :: rest)

/-- Flags of which the last one lacks its value. -/
def LacksValue (front : List Text) : Prop :=
  ∃ (flags : List Text) (flag : ConfigFlag), WithValues flags ∧
    front = flags ++ [flag.argument none]

/-- A command does not start with a flag for a setting. -/
def IsCommand (arguments : List Text) : Prop :=
  ∀ first ∈ arguments.head?, ¬ IsFlag first

/-! ### One argument -/

theorem splitAtEquals_of_not_mem {text : Text} (htext : '=' ∉ text) :
    splitAtEquals text = (text, none) := by
  induction text with
  | nil => rfl
  | cons c rest ih =>
      rw [List.mem_cons, not_or] at htext
      rw [splitAtEquals.eq_3 c rest (Ne.symm htext.1), ih htext.2]

theorem splitAtEquals_append {front : Text} (hfront : '=' ∉ front) (value : Text) :
    splitAtEquals (front ++ '=' :: value) = (front, some value) := by
  induction front with
  | nil => rfl
  | cons c rest ih =>
      rw [List.mem_cons, not_or] at hfront
      rw [List.cons_append, splitAtEquals.eq_3 c _ (Ne.symm hfront.1), ih hfront.2]

theorem eq_of_splitAtEquals {text front : Text} {value : Option Text}
    (hsplit : splitAtEquals text = (front, value)) :
    text = front ++ value.elim [] ('=' :: ·) := by
  fun_induction splitAtEquals text generalizing front with
  | case1 =>
      cases hsplit
      rfl
  | case2 rest =>
      cases hsplit
      rfl
  | case3 c rest hc others attached hrest ih =>
      cases hsplit
      rw [List.cons_append, ← ih hrest]

theorem equals_not_mem_name (flag : ConfigFlag) : '=' ∉ flag.name := by
  cases flag <;> decide

theorem find?_name (flag : ConfigFlag) : all.find? (·.name == flag.name) = some flag := by
  cases flag <;> decide

theorem read?_argument (flag : ConfigFlag) (value : Option Text) :
    read? (flag.argument value) = some (flag, value) := by
  have hname := equals_not_mem_name flag
  cases value with
  | none => simp [read?, argument, splitAtEquals_of_not_mem hname, find?_name]
  | some value => simp [read?, argument, splitAtEquals_append hname, find?_name]

theorem eq_argument_of_read? {text : Text} {flag : ConfigFlag} {value : Option Text}
    (hread : read? text = some (flag, value)) : text = flag.argument value := by
  obtain ⟨found, hfind, hpair⟩ := Option.map_eq_some_iff.1 hread
  obtain ⟨rfl, hvalue⟩ := Prod.mk.inj hpair
  have hname : found.name = (splitAtEquals text).1 := by simpa using List.find?_some hfind
  have htext : text = found.name ++ value.elim [] ('=' :: ·) := by
    rw [hname, ← hvalue]
    exact eq_of_splitAtEquals rfl
  cases value with
  | none => rw [htext, Option.elim_none, List.append_nil, argument]
  | some value => exact htext

theorem isFlag_iff {text : Text} : IsFlag text ↔ (read? text).isSome := by
  constructor
  · rintro ⟨flag, value, rfl⟩
    rw [read?_argument]
    rfl
  · intro hsome
    obtain ⟨⟨flag, value⟩, hread⟩ := Option.isSome_iff_exists.1 hsome
    exact ⟨flag, value, eq_argument_of_read? hread⟩

instance (text : Text) : Decidable (IsFlag text) :=
  decidable_of_iff _ isFlag_iff.symm

instance (arguments : List Text) : Decidable (IsCommand arguments) :=
  inferInstanceAs (Decidable (∀ first ∈ arguments.head?, ¬ IsFlag first))

/-! ### Splitting them all -/

theorem append_splitFront (expectsValue : Bool) (arguments : List Text) :
    (splitFront expectsValue arguments).1 ++ (splitFront expectsValue arguments).2 = arguments := by
  fun_induction splitFront expectsValue arguments with
  | case1 => rfl
  | case2 => simp_all
  | case3 => rfl
  | case4 => simp_all

theorem take_length_splitFront (arguments : List Text) :
    arguments.take (splitFront false arguments).1.length = (splitFront false arguments).1 :=
  calc arguments.take (splitFront false arguments).1.length
      = ((splitFront false arguments).1 ++ (splitFront false arguments).2).take
          (splitFront false arguments).1.length := by rw [append_splitFront]
    _ = (splitFront false arguments).1 := List.take_left

theorem drop_length_splitFront (arguments : List Text) :
    arguments.drop (splitFront false arguments).1.length = (splitFront false arguments).2 :=
  calc arguments.drop (splitFront false arguments).1.length
      = ((splitFront false arguments).1 ++ (splitFront false arguments).2).drop
          (splitFront false arguments).1.length := by rw [append_splitFront]
    _ = (splitFront false arguments).2 := List.drop_left

theorem length_splitFront_le (arguments : List Text) :
    (splitFront false arguments).1.length ≤ arguments.length := by
  have hlength := congrArg List.length (append_splitFront false arguments)
  rw [List.length_append] at hlength
  exact Nat.le.intro hlength

theorem splitFront_attached (flag : ConfigFlag) (value : Text) (rest : List Text) :
    splitFront false (flag.argument (some value) :: rest) =
      (flag.argument (some value) :: (splitFront false rest).1, (splitFront false rest).2) := by
  rw [splitFront, read?_argument]
  rfl

theorem splitFront_apart (flag : ConfigFlag) (value : Text) (rest : List Text) :
    splitFront false (flag.argument none :: value :: rest) =
      (flag.argument none :: value :: (splitFront false rest).1, (splitFront false rest).2) := by
  rw [splitFront, read?_argument]
  rfl

theorem splitFront_bare (flag : ConfigFlag) :
    splitFront false [flag.argument none] = ([flag.argument none], []) := by
  rw [splitFront, read?_argument]
  rfl

theorem splitFront_of_isCommand {command : List Text} (hcommand : IsCommand command) :
    splitFront false command = ([], command) := by
  cases command with
  | nil => rfl
  | cons first rest =>
      have hfirst : read? first = none := by
        rw [← Option.not_isSome_iff_eq_none, ← isFlag_iff]
        exact hcommand first rfl
      rw [splitFront, hfirst]
      rfl

theorem WithValues.splitFront_append {flags : List Text} (hflags : WithValues flags)
    (rest : List Text) : splitFront false (flags ++ rest) =
      (flags ++ (splitFront false rest).1, (splitFront false rest).2) := by
  induction hflags with
  | nil => rfl
  | attached flag value _ ih => rw [List.cons_append, splitFront_attached, ih, List.cons_append]
  | apart flag value _ ih =>
      rw [List.cons_append, List.cons_append, splitFront_apart, ih, List.cons_append,
        List.cons_append]

theorem isCommand_cons {first : Text} (hfirst : ¬ IsFlag first) (rest : List Text) :
    IsCommand (first :: rest) := by
  intro other hother
  rwa [← Option.some.inj hother]

/-- Arguments are flags that have their values and a command, or a flag with nothing behind it. -/
theorem exists_withValues (arguments : List Text) :
    ∃ flags rest, arguments = flags ++ rest ∧ WithValues flags ∧
      (IsCommand rest ∨ ∃ flag : ConfigFlag, rest = [flag.argument none]) := by
  induction arguments using List.twoStepInduction with
  | nil => exact ⟨[], [], rfl, .nil, .inl nofun⟩
  | singleton first =>
      by_cases hfirst : IsFlag first
      · obtain ⟨flag, value, rfl⟩ := hfirst
        cases value with
        | none => exact ⟨[], _, rfl, .nil, .inr ⟨flag, rfl⟩⟩
        | some value => exact ⟨_, [], rfl, .attached flag value .nil, .inl nofun⟩
      · exact ⟨[], _, rfl, .nil, .inl (isCommand_cons hfirst [])⟩
  | cons_cons first second others ihOthers ihSecond =>
      by_cases hfirst : IsFlag first
      · obtain ⟨flag, value, rfl⟩ := hfirst
        cases value with
        -- The second argument is the value, whatever it looks like.
        | none =>
            obtain ⟨flags, rest, rfl, hflags, hrest⟩ := ihOthers
            exact ⟨_, rest, rfl, .apart flag second hflags, hrest⟩
        | some value =>
            obtain ⟨flags, rest, hsplit, hflags, hrest⟩ := ihSecond second
            exact ⟨_, rest, congrArg _ hsplit, .attached flag value hflags, hrest⟩
      · exact ⟨[], _, rfl, .nil, .inl (isCommand_cons hfirst _)⟩

/-- What is split off are flags with their values, or all arguments with the last value missing. -/
theorem splitFront_cases (arguments : List Text) :
    WithValues (splitFront false arguments).1 ∧ IsCommand (splitFront false arguments).2 ∨
      LacksValue arguments ∧ splitFront false arguments = (arguments, []) := by
  obtain ⟨flags, rest, rfl, hflags, hcommand | ⟨flag, rfl⟩⟩ := exists_withValues arguments
  · rw [hflags.splitFront_append, splitFront_of_isCommand hcommand, List.append_nil]
    exact .inl ⟨hflags, hcommand⟩
  · rw [hflags.splitFront_append, splitFront_bare]
    exact .inr ⟨⟨flags, flag, hflags, rfl⟩, rfl⟩

theorem length_le_splitFront {front arguments : List Text} (hfront : front <+: arguments)
    (hflags : WithValues front ∨ LacksValue front) :
    front.length ≤ (splitFront false arguments).1.length := by
  obtain ⟨back, rfl⟩ := hfront
  rcases hflags with hflags | ⟨flags, flag, hflags, rfl⟩
  · rw [hflags.splitFront_append, List.length_append]
    exact Nat.le_add_right _ _
  -- The split does not stop in front of the last flag, and takes what follows it as its value.
  · have hlast : 0 < (splitFront false (flag.argument none :: back)).1.length := by
      rw [splitFront, read?_argument]
      exact Nat.succ_pos _
    rw [List.append_assoc, List.singleton_append, hflags.splitFront_append, List.length_append,
      List.length_append]
    exact Nat.add_le_add_left hlast _

end ConfigFlag

namespace ArgumentSplit

open ConfigFlag

/-- **Splitting off the flags loses and invents nothing.** What is split off behind the name of the
program is the longest beginning that consists of flags, each with its value unless it is the last
of all arguments. The command is what follows, and does not start with a flag. Flags that have their
values and a command behind them are told apart as they were put together. -/
theorem splits_longest_flags (program : Text) (rest : List Text) :
    let arguments := program :: rest
    let split := ArgumentSplit.of arguments
    split.settings = arguments.take split.boundary ∧
      split.command arguments = program :: arguments.drop split.boundary ∧
      1 ≤ split.boundary ∧ split.boundary ≤ arguments.length ∧
      (WithValues (split.settings.drop 1) ∨
        LacksValue (split.settings.drop 1) ∧ split.settings = arguments) ∧
      (∀ front, front <+: rest → WithValues front ∨ LacksValue front →
        front.length ≤ (split.settings.drop 1).length) ∧
      IsCommand (arguments.drop split.boundary) ∧
      ∀ flags command, WithValues flags → IsCommand command → rest = flags ++ command →
        split.settings = program :: flags ∧ split.command arguments = program :: command := by
  intro arguments split
  have htaken : arguments.take split.boundary = program :: (splitFront false rest).1 :=
    congrArg (program :: ·) (take_length_splitFront rest)
  have hcommand : arguments.drop split.boundary = (splitFront false rest).2 :=
    drop_length_splitFront rest
  refine ⟨htaken.symm, rfl, Nat.le_add_left _ _, Nat.succ_le_succ (length_splitFront_le rest),
    ?flags, ?longest, ?command, ?back⟩
  case flags =>
    rcases splitFront_cases rest with ⟨hflags, -⟩ | ⟨hlacks, hsplit⟩
    · exact .inl hflags
    · have hall : (splitFront false rest).1 = rest := congrArg Prod.fst hsplit
      rw [← hall] at hlacks
      exact .inr ⟨hlacks, congrArg (program :: ·) hall⟩
  case longest => exact fun front hfront hflags => length_le_splitFront hfront hflags
  case command =>
    rw [hcommand]
    rcases splitFront_cases rest with ⟨-, hstart⟩ | ⟨-, hsplit⟩
    · exact hstart
    · rw [hsplit]
      exact nofun
  case back =>
    intro flags command hflags hstart hrest
    have hsplit : splitFront false rest = (flags, command) := by
      rw [hrest, hflags.splitFront_append, splitFront_of_isCommand hstart, List.append_nil]
    constructor
    · exact congrArg (program :: ·) (congrArg Prod.fst hsplit)
    · exact congrArg (program :: ·) (hcommand.trans (congrArg Prod.snd hsplit))

/-- Flags with a flag as a value, and with a second equals sign. -/
def shadowedFlags : List Text :=
  ["--log-filter".toList, "--indent-width".toList, "--indent-width=4=5".toList]

theorem splits_shadowedFlags :
    let command := ["check".toList, "--log-format".toList]
    let arguments := "terrain".toList :: (shadowedFlags ++ command)
    let split := ArgumentSplit.of arguments
    WithValues shadowedFlags ∧ IsCommand command ∧
      split.settings = "terrain".toList :: shadowedFlags ∧
      split.command arguments = "terrain".toList :: command ∧
      LacksValue (shadowedFlags.take 1) ∧
      (shadowedFlags.take 1).length ≤ (split.settings.drop 1).length := by
  intro command arguments split
  have hflags : WithValues shadowedFlags :=
    .apart .logFilter "--indent-width".toList (.attached .indentWidth "4=5".toList .nil)
  have hcommand : IsCommand command := by decide
  have hlacks : LacksValue (shadowedFlags.take 1) := ⟨[], .logFilter, .nil, rfl⟩
  obtain ⟨-, -, -, -, -, hlongest, -, hback⟩ :=
    splits_longest_flags "terrain".toList (shadowedFlags ++ command)
  obtain ⟨hsettings, hrest⟩ := hback shadowedFlags command hflags hcommand rfl
  have hfront : shadowedFlags.take 1 <+: shadowedFlags ++ command :=
    (List.take_prefix 1 shadowedFlags).trans (List.prefix_append shadowedFlags command)
  exact ⟨hflags, hcommand, hsettings, hrest, hlacks, hlongest _ hfront (.inr hlacks)⟩

end ArgumentSplit

end HclEdit
