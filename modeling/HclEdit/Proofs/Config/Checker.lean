import HclEdit.Cli.Run
import HclEdit.Proofs.Text.Trim
import HclEdit.Proofs.Text.Words

/-!
# Checker commands

A command whose parts are words is read back from its line, and every command that is read has this
form. A line has no words just when trimming leaves nothing of it, so the check of the settings
turns away the lines that cannot be read, and no others.
-/

namespace HclEdit

open Text

namespace CommandLine

/-- A command as a line without quoting can give it. -/
def IsPlain (command : CommandLine) : Prop :=
  ∀ word ∈ command.program :: command.arguments, word.IsWord

instance (command : CommandLine) : Decidable command.IsPlain :=
  inferInstanceAs (Decidable (∀ word ∈ command.program :: command.arguments, word.IsWord))

/-- The line as it is shown after it has been read. -/
def normalized (line : Text) : Except StartError Text :=
  (parse line).map render

theorem parse_eq_ok_iff {line : Text} {command : CommandLine} :
    parse line = .ok command ↔ line.words = command.program :: command.arguments := by
  unfold parse
  split
  · next hwords => simp [hwords]
  · next program arguments hwords =>
      rw [hwords, Except.ok.injEq, List.cons.injEq, ← CommandLine.mk.injEq]

theorem parse_eq_error_iff {line : Text} :
    parse line = .error .blankCommand ↔ isBlankText line = true := by
  rw [← words_eq_nil_iff]
  unfold parse
  split
  · next hwords => simp [hwords]
  · next hwords => simp [hwords]

theorem exists_parse_eq_ok_iff {line : Text} :
    (∃ command, parse line = .ok command) ↔ isBlankText line = false := by
  rw [← Bool.not_eq_true, ← words_eq_nil_iff]
  constructor
  · rintro ⟨command, hparse⟩
    rw [parse_eq_ok_iff.1 hparse]
    exact List.cons_ne_nil _ _
  · intro hwords
    obtain ⟨program, arguments, hcons⟩ := List.exists_cons_of_ne_nil hwords
    exact ⟨⟨program, arguments⟩, parse_eq_ok_iff.2 hcons⟩

theorem isPlain_of_parse {line : Text} {command : CommandLine}
    (hparse : parse line = .ok command) : command.IsPlain := by
  intro word hword
  rw [← parse_eq_ok_iff.1 hparse] at hword
  exact isWord_of_mem_words hword

theorem IsPlain.parse_render {command : CommandLine} (hplain : command.IsPlain) :
    parse command.render = .ok command :=
  parse_eq_ok_iff.2 (words_join hplain)

theorem normalized_normalized {line text : Text} (hline : normalized line = .ok text) :
    normalized text = .ok text := by
  unfold normalized at hline
  cases hparse : parse line with
  | error error =>
      rw [hparse] at hline
      exact absurd hline nofun
  | ok command =>
      rw [hparse] at hline
      obtain rfl : command.render = text := Except.ok.inj hline
      rw [normalized, (isPlain_of_parse hparse).parse_render]
      rfl

end CommandLine

namespace Config

theorem validate_of_width {config : Config} (hlow : 1 ≤ config.indentWidth)
    (hhigh : config.indentWidth ≤ 16) :
    config.validate =
      if isBlankText config.checkerCommand = true then .error .blankChecker else .ok () := by
  have hwidth : ¬ (config.indentWidth < 1 ∨ maxIndentWidth < config.indentWidth) :=
    not_or.2 ⟨UInt16.not_lt.2 hlow, UInt16.not_lt.2 hhigh⟩
  rw [validate, if_neg hwidth]
  simp only [trim_eq_nil_iff]

theorem width_of_validate {config : Config} (hvalid : config.validate = .ok ()) :
    1 ≤ config.indentWidth ∧ config.indentWidth ≤ 16 := by
  unfold validate at hvalid
  split at hvalid
  · exact absurd hvalid nofun
  · next hwidth =>
      obtain ⟨hlow, hhigh⟩ := not_or.1 hwidth
      exact ⟨UInt16.not_lt.1 hlow, UInt16.not_lt.1 hhigh⟩

/-- Settings are valid when their width is in range and their checker command can be read. -/
theorem validate_eq_ok_iff {config : Config} :
    config.validate = .ok () ↔ 1 ≤ config.indentWidth ∧ config.indentWidth ≤ 16 ∧
      ∃ command, CommandLine.parse config.checkerCommand = .ok command := by
  rw [CommandLine.exists_parse_eq_ok_iff]
  constructor
  · intro hvalid
    obtain ⟨hlow, hhigh⟩ := width_of_validate hvalid
    rw [validate_of_width hlow hhigh] at hvalid
    refine ⟨hlow, hhigh, Bool.eq_false_iff.2 fun hblank => ?_⟩
    rw [if_pos hblank] at hvalid
    exact absurd hvalid nofun
  · rintro ⟨hlow, hhigh, hblank⟩
    rw [validate_of_width hlow hhigh, hblank]
    rfl

end Config

theorem Cli.Runner.validate_of_loadConfig {runner : Cli.Runner} {arguments : List Text}
    {config : Config} (hload : runner.loadConfig arguments = .ok config) :
    config.validate = .ok () := by
  unfold loadConfig at hload
  split at hload
  · exact absurd hload nofun
  · split at hload
    · exact absurd hload nofun
    · next hvalid =>
        rw [← Except.ok.inj hload]
        exact hvalid

/-- **Checker commands are read back, and the check of the settings agrees with the reader.** What
is shown of a command that consists of words is read as that command. Every command that is read
consists of words, so showing it once more changes nothing. With a width in range the settings are
turned away for their checker just when its line cannot be read. Whatever settings a run loads,
their width is in range and their checker can be read. -/
theorem CommandLine.parse_inverts_render :
    (∀ command : CommandLine, command.IsPlain → parse command.render = .ok command) ∧
    (∀ line command, parse line = .ok command → command.IsPlain) ∧
    (∀ line text, normalized line = .ok text → normalized text = .ok text) ∧
    (∀ config : Config, 1 ≤ config.indentWidth → config.indentWidth ≤ 16 →
      (parse config.checkerCommand = .error .blankCommand ↔
        config.validate = .error .blankChecker)) ∧
    (∀ config : Config, config.validate = .ok () ↔ 1 ≤ config.indentWidth ∧
      config.indentWidth ≤ 16 ∧ ∃ command, parse config.checkerCommand = .ok command) ∧
    ∀ (runner : Cli.Runner) (arguments : List Text) (config : Config),
      runner.loadConfig arguments = .ok config → 1 ≤ config.indentWidth ∧
        config.indentWidth ≤ 16 ∧ ∃ command, parse config.checkerCommand = .ok command := by
  refine ⟨fun _ hplain => hplain.parse_render, fun _ _ => isPlain_of_parse,
    fun _ _ => normalized_normalized, ?blank, fun _ => Config.validate_eq_ok_iff, ?load⟩
  case blank =>
    intro config hlow hhigh
    rw [parse_eq_error_iff, Config.validate_of_width hlow hhigh]
    simp
  case load =>
    intro runner arguments config hload
    exact Config.validate_eq_ok_iff.1 (Cli.Runner.validate_of_loadConfig hload)

/-- No files, no variables, and nothing that can be run. -/
def Cli.bareHost : Cli.Host where
  files := ⟨[], []⟩
  environment := []
  parser := fun _ _ => .error (.unparsable "parsing failed")
  execute := fun _ _ => .error "not found".toList

theorem CommandLine.parse_inverts_render_spread :
    let line := "\u2003tflint\u00a0 --format=default\t".toList
    let command : CommandLine := ⟨"tflint".toList, ["--format=default".toList]⟩
    let blank : Config :=
      { Config.standard with indentWidth := 16, checkerCommand := " \u3000".toList }
    let arguments := ["terrain".toList, "--checker-command".toList, " tflint".toList]
    let loaded : Config := { Config.standard with checkerCommand := " tflint".toList }
    (parse line = .ok command ∧ command.IsPlain ∧ parse command.render = .ok command) ∧
      (normalized line = .ok command.render ∧ normalized command.render = .ok command.render) ∧
      (parse blank.checkerCommand = .error .blankCommand ∧
        blank.validate = .error .blankChecker) ∧
      Cli.bareHost.runner.loadConfig arguments = .ok loaded ∧
        ∃ command, parse loaded.checkerCommand = .ok command := by
  intro line command blank arguments loaded
  obtain ⟨hrender, hplain, hnormalized, hblank, -, hload⟩ := parse_inverts_render
  have hline : parse line = .ok command := rfl
  have hwords : command.IsPlain := hplain line command hline
  have hshown : normalized line = .ok command.render := by rw [normalized, hline]; rfl
  have hempty : parse blank.checkerCommand = .error .blankCommand := rfl
  have hwide : 1 ≤ blank.indentWidth ∧ blank.indentWidth ≤ 16 := by decide
  have hloaded : Cli.bareHost.runner.loadConfig arguments = .ok loaded := rfl
  exact ⟨⟨hline, hwords, hrender command hwords⟩,
    ⟨hshown, hnormalized line command.render hshown⟩,
    ⟨hempty, (hblank blank hwide.1 hwide.2).1 hempty⟩,
    hloaded, (hload Cli.bareHost.runner arguments loaded hloaded).2.2⟩

end HclEdit
