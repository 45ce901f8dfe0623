import HclEdit.Config.Json
import HclEdit.Proofs.Json.Members
import HclEdit.Proofs.Json.Printed

/-!
# Settings and their JSON values

An object gives each setting under its name, an array gives the first ones in a fixed order. Both
are read setting by setting: one that is not given takes its default whatever the others are. So
both forms come to the same settings, and settings that have been written are read back.
-/

namespace HclEdit

namespace Json

/-! ### Members in any order -/

theorem valuesOf_perm {members others : List (String × Json)} (hperm : members.Perm others)
    (key : String) : (valuesOf key members).Perm (valuesOf key others) :=
  (hperm.filter _).map _

/-- With no name given twice, the values under a name are the one that is looked up. -/
theorem valuesOf_eq_toList_lookup {members : List (String × Json)}
    (hnodup : (members.map (·.1)).Nodup) (key : String) :
    valuesOf key members = (members.lookup key).toList := by
  induction members with
  | nil => rfl
  | cons member rest ih =>
      obtain ⟨name, value⟩ := member
      rw [List.map_cons, List.nodup_cons] at hnodup
      rw [valuesOf_cons, List.lookup_cons]
      by_cases hname : name = key
      · subst hname
        have hrest : valuesOf name rest = [] := by
          refine List.eq_nil_iff_forall_not_mem.2 fun other hother => hnodup.1 ?_
          exact List.mem_map.2 ⟨_, exists_of_mem_valuesOf hother, rfl⟩
        simp [hrest]
      · rw [if_neg (by simpa using hname), ih hnodup.2, beq_false_of_ne (Ne.symm hname)]

/-- Members under other names make no difference. -/
theorem valuesOf_filter_mem {names : List String} {key : String} (hkey : key ∈ names)
    (members : List (String × Json)) :
    valuesOf key (members.filter (·.1 ∈ names)) = valuesOf key members := by
  unfold valuesOf
  rw [List.filter_filter]
  congr 1
  apply List.filter_congr
  intro member _
  by_cases hmember : member.1 = key
  · simp [hmember, hkey]
  · simp [hmember]

/-! ### Fields that may be left out -/

theorem constructor?_eq_some_iff {json : Json} {name : String} :
    json.constructor? = some name ↔ json = .string name ∨ json = .object [(name, .null)] := by
  unfold constructor?
  split <;> simp_all

theorem natural?_eq_some_iff {json : Json} {n : Nat} :
    json.natural? = some n ↔ json = .natural n := by
  unfold natural? natural
  split
  · rw [Option.some.injEq, Json.integer.injEq]
    exact Int.ofNat_inj.symm
  · next hnatural =>
      simp only [reduceCtorEq, false_iff]
      exact fun hjson => hnatural n hjson

/-- The value of a field is what it is given, and the default if it is not given. -/
def Takes {α : Type} (fallback : α) (spells : α → Json → Prop) : Option Json → α → Prop
  | none, value => value = fallback
  | some json, value => spells value json

section Field

variable {α : Type} {decode : Json → Option α} {spells : α → Json → Prop} {fallback value : α}
  (hdecode : ∀ {json value}, decode json = some value ↔ spells value json)

theorem foldlM_meetField?_some {met : α} {later : Option α} {values : List Json} :
    values.foldlM (meetField? decode) (some met) = some later ↔
      values = [] ∧ later = some met := by
  cases values with
  | nil => simp [eq_comm]
  | cons value rest => simp [meetField?]

include hdecode

/-- A field that is read where it is met may be met once, and is left to its default otherwise. -/
theorem exists_foldlM_meetField?_iff {values : List Json} :
    (∃ later, values.foldlM (meetField? decode) none = some later ∧
        later.getD fallback = value) ↔
      values.length ≤ 1 ∧ Takes fallback spells values.head? value := by
  cases values with
  | nil => simp [Takes, eq_comm]
  | cons json rest =>
      simp [meetField?, foldlM_meetField?_some, Option.bind_eq_some_iff, Takes, ← hdecode,
        and_comm]

theorem nextField?_eq_some_iff {items rest : List Json} :
    nextField? decode fallback items = some (value, rest) ↔
      Takes fallback spells items.head? value ∧ rest = items.tail := by
  cases items with
  | nil => simp [nextField?, Takes, eq_comm]
  | cons item items =>
      simp [nextField?, Takes, ← hdecode, eq_comm (a := rest)]

end Field

end Json

namespace Config

/-! ### One setting -/

def SpellsText (text : Text) (json : Json) : Prop :=
  json = .text text

def SpellsFormat (format : LogFormat) (json : Json) : Prop :=
  json = .string format.name ∨ json = .object [(format.name, .null)]

def SpellsWidth (width : UInt16) (json : Json) : Prop :=
  json = .natural width.toNat

theorem textOfJson?_eq_some_iff {json : Json} {text : Text} :
    textOfJson? json = some text ↔ SpellsText text json := by
  unfold textOfJson? SpellsText Json.text
  cases json with
  | string value =>
      simp only [Json.string?, Option.map_some, Option.some.injEq, Json.string.injEq]
      constructor
      · rintro rfl
        exact String.ofList_toList.symm
      · rintro rfl
        exact String.toList_ofList
  | _ => simp [Json.string?]

theorem ofName?_eq_some_iff {name : String} {format : LogFormat} :
    LogFormat.ofName? name = some format ↔ name = format.name := by
  constructor
  · intro hname
    unfold LogFormat.ofName? at hname
    split at hname <;> cases hname <;> rfl
  · rintro rfl
    cases format <;> rfl

theorem formatOfJson?_eq_some_iff {json : Json} {format : LogFormat} :
    formatOfJson? json = some format ↔ SpellsFormat format json := by
  rw [formatOfJson?, Option.bind_eq_some_iff]
  simp only [ofName?_eq_some_iff, exists_eq_right]
  exact Json.constructor?_eq_some_iff

theorem widthOfJson?_eq_some_iff {json : Json} {width : UInt16} :
    widthOfJson? json = some width ↔ SpellsWidth width json := by
  rw [widthOfJson?, Option.map_eq_some_iff]
  simp only [Option.filter_eq_some_iff, Json.natural?_eq_some_iff, decide_eq_true_eq]
  constructor
  · rintro ⟨n, ⟨rfl, hn⟩, rfl⟩
    rw [SpellsWidth, UInt16.toNat_ofNat_of_lt' hn]
  · rintro rfl
    exact ⟨width.toNat, ⟨rfl, width.toNat_lt_size⟩, UInt16.ofNat_toNat⟩

/-! ### All settings -/

/-- The names of the settings, in the order in which an array gives their values. -/
def names : List String :=
  ["log_filter", "log_format", "indent_width", "checker_command"]

/-- The settings that come of what is given under their names, each of its own. -/
structure Settled (given : String → Option Json) (config : Config) : Prop where
  logFilter : Json.Takes standard.logFilter SpellsText (given "log_filter") config.logFilter
  logFormat : Json.Takes standard.logFormat SpellsFormat (given "log_format") config.logFormat
  indentWidth :
    Json.Takes standard.indentWidth SpellsWidth (given "indent_width") config.indentWidth
  checkerCommand :
    Json.Takes standard.checkerCommand SpellsText (given "checker_command") config.checkerCommand

theorem settled_congr {given others : String → Option Json} {config : Config}
    (hsame : ∀ name ∈ names, given name = others name) :
    Settled given config ↔ Settled others config := by
  simp only [names, List.forall_mem_cons] at hsame
  obtain ⟨hfilter, hformat, hwidth, hcommand, -⟩ := hsame
  constructor
  · rintro ⟨hfilters, hformats, hwidths, hcommands⟩
    exact ⟨hfilter ▸ hfilters, hformat ▸ hformats, hwidth ▸ hwidths, hcommand ▸ hcommands⟩
  · rintro ⟨hfilters, hformats, hwidths, hcommands⟩
    exact ⟨hfilter ▸ hfilters, hformat ▸ hformats, hwidth ▸ hwidths, hcommand ▸ hcommands⟩

/-! ### Members one after the other -/

theorem foldlM_valuesOf_cons {α : Type} (step : α → Json → Option α) (met : α) (key : String)
    (member : String × Json) (rest : List (String × Json)) :
    (Json.valuesOf key (member :: rest)).foldlM step met =
      (if member.1 = key then step met member.2 else some met).bind
        ((Json.valuesOf key rest).foldlM step) := by
  rw [Json.valuesOf_cons]
  by_cases hkey : member.1 = key
  · rw [if_pos (beq_iff_eq.2 hkey), if_pos hkey]
    rfl
  · rw [if_neg (by simpa using hkey), if_neg hkey]
    rfl

/-- A member is read as the setting that it names, and leaves the others as they are. -/
theorem member?_eq_some_iff {met later : Met} {member : String × Json} :
    met.member? member = some later ↔
      (if member.1 = "log_filter" then Json.meetField? textOfJson? met.logFilter member.2
          else some met.logFilter) = some later.logFilter ∧
        (if member.1 = "log_format" then Json.meetField? formatOfJson? met.logFormat member.2
          else some met.logFormat) = some later.logFormat ∧
        (if member.1 = "indent_width" then Json.meetField? widthOfJson? met.indentWidth member.2
          else some met.indentWidth) = some later.indentWidth ∧
        (if member.1 = "checker_command" then
            Json.meetField? textOfJson? met.checkerCommand member.2
          else some met.checkerCommand) = some later.checkerCommand := by
  obtain ⟨name, value⟩ := member
  obtain ⟨filter, format, width, command⟩ := met
  obtain ⟨filter', format', width', command'⟩ := later
  unfold Met.member?
  dsimp only
  split
  · simp [Option.bind_eq_some_iff]
  · simp [Option.bind_eq_some_iff, and_left_comm]
  · simp [Option.bind_eq_some_iff, and_left_comm]
  · simp [Option.bind_eq_some_iff, and_assoc, and_left_comm, and_comm]
  · next hfilter hformat hwidth hcommand =>
      rw [if_neg hfilter, if_neg hformat, if_neg hwidth, if_neg hcommand]
      simp

/-- Reading the members is reading those of each name. -/
theorem foldlM_member?_eq_some_iff {members : List (String × Json)} {met later : Met} :
    members.foldlM Met.member? met = some later ↔
      (Json.valuesOf "log_filter" members).foldlM (Json.meetField? textOfJson?) met.logFilter =
          some later.logFilter ∧
        (Json.valuesOf "log_format" members).foldlM (Json.meetField? formatOfJson?) met.logFormat =
          some later.logFormat ∧
        (Json.valuesOf "indent_width" members).foldlM (Json.meetField? widthOfJson?)
          met.indentWidth = some later.indentWidth ∧
        (Json.valuesOf "checker_command" members).foldlM (Json.meetField? textOfJson?)
          met.checkerCommand = some later.checkerCommand := by
  induction members generalizing met with
  | nil =>
      obtain ⟨filter, format, width, command⟩ := met
      obtain ⟨filter', format', width', command'⟩ := later
      simp [Json.valuesOf]
  | cons member rest ih =>
      simp only [List.foldlM_cons, foldlM_valuesOf_cons, bind, Option.bind_eq_some_iff, ih,
        member?_eq_some_iff]
      constructor
      · rintro ⟨next, ⟨hfilter, hformat, hwidth, hcommand⟩, hfilters, hformats, hwidths, hcommands⟩
        exact ⟨⟨_, hfilter, hfilters⟩, ⟨_, hformat, hformats⟩, ⟨_, hwidth, hwidths⟩,
          ⟨_, hcommand, hcommands⟩⟩
      · rintro ⟨⟨filter, hfilter, hfilters⟩, ⟨format, hformat, hformats⟩, ⟨width, hwidth, hwidths⟩,
          ⟨command, hcommand, hcommands⟩⟩
        exact ⟨⟨filter, format, width, command⟩, ⟨hfilter, hformat, hwidth, hcommand⟩, hfilters,
          hformats, hwidths, hcommands⟩

theorem ofMembers?_eq_some_iff {members : List (String × Json)} {config : Config} :
    ofMembers? members = some config ↔
      (∀ name ∈ names, (Json.valuesOf name members).length ≤ 1) ∧
        Settled (Json.object members).get? config := by
  have hread : ofMembers? members = some config ↔
      (∃ later, (Json.valuesOf "log_filter" members).foldlM (Json.meetField? textOfJson?) none =
          some later ∧ later.getD standard.logFilter = config.logFilter) ∧
        (∃ later, (Json.valuesOf "log_format" members).foldlM (Json.meetField? formatOfJson?) none =
          some later ∧ later.getD standard.logFormat = config.logFormat) ∧
        (∃ later, (Json.valuesOf "indent_width" members).foldlM (Json.meetField? widthOfJson?)
          none = some later ∧ later.getD standard.indentWidth = config.indentWidth) ∧
        ∃ later, (Json.valuesOf "checker_command" members).foldlM (Json.meetField? textOfJson?)
          none = some later ∧ later.getD standard.checkerCommand = config.checkerCommand := by
    simp only [ofMembers?, bind, Option.bind_eq_some_iff, foldlM_member?_eq_some_iff,
      Option.some.injEq]
    constructor
    · rintro ⟨met, ⟨hfilter, hformat, hwidth, hcommand⟩, rfl⟩
      exact ⟨⟨_, hfilter, rfl⟩, ⟨_, hformat, rfl⟩, ⟨_, hwidth, rfl⟩, ⟨_, hcommand, rfl⟩⟩
    · rintro ⟨⟨filter, hfilters, hfilter⟩, ⟨format, hformats, hformat⟩, ⟨width, hwidths, hwidth⟩,
        ⟨command, hcommands, hcommand⟩⟩
      refine ⟨⟨filter, format, width, command⟩, ⟨hfilters, hformats, hwidths, hcommands⟩, ?_⟩
      rw [hfilter, hformat, hwidth, hcommand]
  rw [hread, Json.exists_foldlM_meetField?_iff textOfJson?_eq_some_iff,
    Json.exists_foldlM_meetField?_iff formatOfJson?_eq_some_iff,
    Json.exists_foldlM_meetField?_iff widthOfJson?_eq_some_iff,
    Json.exists_foldlM_meetField?_iff textOfJson?_eq_some_iff]
  simp only [names, List.forall_mem_cons]
  constructor
  · rintro ⟨⟨hfilters, hfilter⟩, ⟨hformats, hformat⟩, ⟨hwidths, hwidth⟩, hcommands, hcommand⟩
    exact ⟨⟨hfilters, hformats, hwidths, hcommands, nofun⟩, hfilter, hformat, hwidth, hcommand⟩
  · rintro ⟨⟨hfilters, hformats, hwidths, hcommands, -⟩, hfilter, hformat, hwidth, hcommand⟩
    exact ⟨⟨hfilters, hfilter⟩, ⟨hformats, hformat⟩, ⟨hwidths, hwidth⟩, hcommands, hcommand⟩

/-! ### Items in their order -/

theorem settled_items_iff {items : List Json} {config : Config} :
    Settled (fun name => (names.zip items).lookup name) config ↔
      Json.Takes standard.logFilter SpellsText items.head? config.logFilter ∧
        Json.Takes standard.logFormat SpellsFormat items.tail.head? config.logFormat ∧
        Json.Takes standard.indentWidth SpellsWidth items.tail.tail.head? config.indentWidth ∧
        Json.Takes standard.checkerCommand SpellsText items.tail.tail.tail.head?
          config.checkerCommand := by
  match items with
  | [] | [_] | [_, _] | [_, _, _] | _ :: _ :: _ :: _ :: _ =>
      exact ⟨fun ⟨hfilter, hformat, hwidth, hcommand⟩ => ⟨hfilter, hformat, hwidth, hcommand⟩,
        fun ⟨hfilter, hformat, hwidth, hcommand⟩ => ⟨hfilter, hformat, hwidth, hcommand⟩⟩

theorem ofItems?_eq_some_iff {items : List Json} {config : Config} :
    ofItems? items = some config ↔
      items.length ≤ names.length ∧ Settled (fun name => (names.zip items).lookup name) config := by
  have hlength : items.tail.tail.tail.tail.isEmpty = true ↔ items.length ≤ names.length := by
    match items with
    | [] | [_] | [_, _] | [_, _, _] | [_, _, _, _] => simp [names]
    | _ :: _ :: _ :: _ :: _ :: _ => simp [names]
  rw [← hlength, settled_items_iff]
  simp only [ofItems?, bind, Option.bind_eq_some_iff, Prod.exists,
    Json.nextField?_eq_some_iff textOfJson?_eq_some_iff,
    Json.nextField?_eq_some_iff formatOfJson?_eq_some_iff,
    Json.nextField?_eq_some_iff widthOfJson?_eq_some_iff, Option.ite_none_right_eq_some,
    Option.some.injEq]
  constructor
  · rintro ⟨filter, _, ⟨hfilter, rfl⟩, format, _, ⟨hformat, rfl⟩, width, _, ⟨hwidth, rfl⟩, command,
      _, ⟨hcommand, rfl⟩, hempty, rfl⟩
    exact ⟨hempty, hfilter, hformat, hwidth, hcommand⟩
  · rintro ⟨hempty, hfilter, hformat, hwidth, hcommand⟩
    exact ⟨_, _, ⟨hfilter, rfl⟩, _, _, ⟨hformat, rfl⟩, _, _, ⟨hwidth, rfl⟩, _, _, ⟨hcommand, rfl⟩,
      hempty, rfl⟩

/-- The members that name settings give the first ones, each the value at its place. -/
def GivesFirst (members : List (String × Json)) (values : List Json) : Prop :=
  values.length ≤ names.length ∧ (members.filter (·.1 ∈ names)).Perm (names.zip values)

section GivesFirst

variable {members : List (String × Json)} {values : List Json} (hgives : GivesFirst members values)
include hgives

/-- Under each name stands the value that the array gives, or none. -/
theorem GivesFirst.valuesOf_eq {name : String} (hname : name ∈ names) :
    Json.valuesOf name members = ((names.zip values).lookup name).toList := by
  have hnodup : ((names.zip values).map (·.1)).Nodup := by
    match values with
    | [] | [_] | [_, _] | [_, _, _] | _ :: _ :: _ :: _ :: _ => simp [names]
  have hperm := Json.valuesOf_perm hgives.2 name
  rw [Json.valuesOf_filter_mem hname, Json.valuesOf_eq_toList_lookup hnodup] at hperm
  cases hlookup : (names.zip values).lookup name with
  | none =>
      rw [hlookup] at hperm
      exact hperm.eq_nil
  | some value =>
      rw [hlookup] at hperm
      exact List.perm_singleton.1 hperm

theorem GivesFirst.ofJson?_eq : ofJson? (.object members) = ofJson? (.array values) := by
  have honce : ∀ name ∈ names, (Json.valuesOf name members).length ≤ 1 := by
    intro name hname
    rw [hgives.valuesOf_eq hname]
    cases (names.zip values).lookup name <;> simp
  have hgiven : ∀ name ∈ names,
      (Json.object members).get? name = (names.zip values).lookup name := by
    intro name hname
    rw [Json.get?, hgives.valuesOf_eq hname]
    cases (names.zip values).lookup name <;> rfl
  refine Option.ext fun config => ?_
  calc ofMembers? members = some config
      ↔ Settled (Json.object members).get? config :=
        ofMembers?_eq_some_iff.trans (and_iff_right honce)
    _ ↔ Settled (fun name => (names.zip values).lookup name) config := settled_congr hgiven
    _ ↔ ofItems? values = some config :=
        (ofItems?_eq_some_iff.trans (and_iff_right hgives.1)).symm

end GivesFirst

/-! ### Written settings -/

theorem ofJson?_toJson (config : Config) : ofJson? config.toJson = some config :=
  ofMembers?_eq_some_iff.2
    ⟨by simp [names, Json.valuesOf], rfl, .inl rfl, rfl, rfl⟩

theorem printable_toJson (config : Config) : config.toJson.Printable := by
  have hwidth : Json.FitsInteger config.indentWidth.toNat := by
    have hlt := config.indentWidth.toNat_lt
    simp only [Json.FitsInteger, Int64.size, UInt64.size]
    omega
  refine .object ?_
  simp only [List.forall_mem_cons]
  exact ⟨.string _, .string _, .integer hwidth, .string _, nofun⟩

/-- **Settings survive their JSON form, and both forms of it agree.** What is written for some
settings, as a value or as a text, is read back as those. Members that give the first settings come
to what the array of the same values comes to, whatever their order and the other members, and fail
if it fails. Either form is read setting by setting: each is what its own value spells, or its
default if it is not given. -/
theorem json_forms_agree :
    (∀ config : Config, ofJson? config.toJson = some config ∧
      (Json.read? config.toJson.compact).bind ofJson? = some config) ∧
    (∀ members values, GivesFirst members values →
      ofJson? (.object members) = ofJson? (.array values)) ∧
    (∀ members config, ofJson? (.object members) = some config ↔
      (∀ name ∈ names, (Json.valuesOf name members).length ≤ 1) ∧
        Settled (Json.object members).get? config) ∧
    ∀ values config, ofJson? (.array values) = some config ↔
      values.length ≤ names.length ∧
        Settled (fun name => (names.zip values).lookup name) config := by
  refine ⟨fun config => ⟨ofJson?_toJson config, ?text⟩, fun members values => GivesFirst.ofJson?_eq,
    fun members config => ofMembers?_eq_some_iff, fun values config => ofItems?_eq_some_iff⟩
  case text =>
    rw [Json.read?_compact (printable_toJson config)]
    exact ofJson?_toJson config

/-- Three settings in another order than that of their values, with members of other names. -/
def looseMembers (width : Json) : List (String × Json) :=
  [("indent_width", width), ("Log_Filter", .null), ("log_format", .object [("json", .null)]),
    ("Log_Filter", .undecodable), ("log_filter", .text "é\n".toList)]

def firstValues (width : Json) : List Json :=
  [.text "é\n".toList, .object [("json", .null)], width]

theorem json_forms_agree_loose :
    (∀ width, GivesFirst (looseMembers width) (firstValues width)) ∧
      ofJson? (.array (firstValues (.natural 65535))) =
        some ⟨"é\n".toList, .json, 65535, standard.checkerCommand⟩ ∧
      ofJson? (.object (looseMembers (.natural 65535))) =
        some ⟨"é\n".toList, .json, 65535, standard.checkerCommand⟩ ∧
      ofJson? (.array (firstValues (.natural 65536))) = none ∧
      ofJson? (.object (looseMembers (.natural 65536))) = none := by
  have hgives : ∀ width, GivesFirst (looseMembers width) (firstValues width) := by
    intro width
    have hfilter : (looseMembers width).filter (·.1 ∈ names) =
        (names.zip (firstValues width)).reverse := rfl
    refine ⟨by simp [firstValues, names], ?_⟩
    rw [hfilter]
    exact List.reverse_perm _
  obtain ⟨-, hagree, -, harray⟩ := json_forms_agree
  have hread : ofJson? (.array (firstValues (.natural 65535))) =
      some ⟨"é\n".toList, .json, 65535, standard.checkerCommand⟩ :=
    (harray _ _).2 ⟨by simp [firstValues, names], rfl, .inr rfl, rfl, rfl⟩
  have hfails : ofJson? (.array (firstValues (.natural 65536))) = none := by
    refine Option.eq_none_iff_forall_ne_some.2 fun config hconfig => ?_
    have hwidth : Json.natural 65536 = .natural config.indentWidth.toNat :=
      ((harray _ _).1 hconfig).2.indentWidth
    have hlt := config.indentWidth.toNat_lt
    rw [← Int.ofNat_inj.1 (Json.integer.inj hwidth)] at hlt
    exact absurd hlt (by decide)
  exact ⟨hgives, hread, (hagree _ _ (hgives _)).trans hread, hfails,
    (hagree _ _ (hgives _)).trans hfails⟩

end Config

end HclEdit
