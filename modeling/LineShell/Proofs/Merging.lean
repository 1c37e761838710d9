import LineShell.CommandLine
import LineShell.Proofs.Decoding
import LineShell.Proofs.Tabulating

namespace LineShell

/-! Configurations merged with what a user states.

Of the names that were there, those not removed stay in their order, and the first of each kind of
the added ones that are not among them follow. What comes out may be stated as it is: merged once
more with what was there, it stays the same, as long as nothing that was there is removed. That is
why a configuration that was dumped may serve as the user's file.
-/

namespace ListChange

variable {change : ListChange} {names : List Text}

/-- The names that stay. -/
def kept (change : ListChange) (names : List Text) : List Text :=
  names.filter (· ∉ change.remove)

theorem apply_replace (change : ListChange) (names : List Text) :
    change.apply true names = change.add := rfl

theorem apply_eq_extend (change : ListChange) (names : List Text) :
    change.apply false names = Distinct.extend (change.kept names) change.add := by
  simp [ListChange.apply, kept]

/-- What the names become that a change without replacement is made to. -/
structure Merges (change : ListChange) (names merged : List Text) : Prop where
  listed : merged =
    change.kept names ++ (change.add.filter (· ∉ change.kept names)).eraseDups
  mem_iff : ∀ name, name ∈ merged ↔ name ∈ change.add ∨ name ∈ names ∧ name ∉ change.remove
  nodup : names.Nodup → merged.Nodup

theorem merges_apply (change : ListChange) (names : List Text) :
    change.Merges names (change.apply false names) := by
  rw [apply_eq_extend]
  refine ⟨Distinct.extend_eq_append_eraseDups _ _, fun name => ?_, fun distinct => ?_⟩
  · rw [Distinct.mem_extend, kept, List.mem_filter, decide_eq_true_eq]
    exact or_comm
  · exact Distinct.nodup_extend (distinct.filter _)

theorem kept_of_keeps (keeps : ∀ name ∈ change.remove, name ∉ names) :
    change.kept names = names := by
  rw [kept, List.filter_eq_self]
  exact fun name member => decide_eq_true fun removed => keeps name removed member

/-- Names that were merged and are added as they are change no more. -/
theorem apply_apply (keeps : ∀ name ∈ change.remove, name ∉ names) :
    ListChange.apply ⟨change.apply false names, []⟩ false names = change.apply false names := by
  have all : ListChange.kept ⟨change.apply false names, []⟩ names = names :=
    kept_of_keeps (List.forall_mem_nil _)
  rw [apply_eq_extend, all, apply_eq_extend, kept_of_keeps keeps]
  exact Distinct.extend_extend names change.add

end ListChange

/-- A setting that is a single text. -/
inductive Setting where
  | git
  | logLevel
  | logFile

/-- A setting that is a list of names. -/
inductive NameList where
  | fallback
  | extra

namespace Config

def setting (config : Config) : Setting → Text
  | .git => config.git
  | .logLevel => config.logLevel
  | .logFile => config.logFile

def names (config : Config) : NameList → List Text
  | .fallback => config.fallbackCommands
  | .extra => config.extraCommands

/-- Configurations are told apart by their settings. -/
theorem eq_of_settings {config other : Config}
    (settings : ∀ setting, config.setting setting = other.setting setting)
    (lists : ∀ list, config.names list = other.names list) : config = other := by
  obtain ⟨git, logLevel, logFile, fallback, extra⟩ := config
  obtain ⟨git', logLevel', logFile', fallback', extra'⟩ := other
  obtain rfl : git = git' := settings .git
  obtain rfl : logLevel = logLevel' := settings .logLevel
  obtain rfl : logFile = logFile' := settings .logFile
  obtain rfl : fallback = fallback' := lists .fallback
  obtain rfl : extra = extra' := lists .extra
  rfl

end Config

namespace Overlay

variable {overlay : Overlay} {config : Config}

def setting? (overlay : Overlay) : Setting → Option Text
  | .git => overlay.git
  | .logLevel => overlay.logLevel
  | .logFile => overlay.logFile

def change (overlay : Overlay) : NameList → ListChange
  | .fallback => overlay.fallbackCommands
  | .extra => overlay.extraCommands

theorem setting_apply (overlay : Overlay) (config : Config) (setting : Setting) :
    (overlay.apply config).setting setting =
      (overlay.setting? setting).getD (config.setting setting) := by
  cases setting <;> rfl

/-- What a configuration becomes that an overlay is applied to. -/
structure Merges (overlay : Overlay) (config merged : Config) : Prop where
  settings : ∀ setting,
    merged.setting setting = (overlay.setting? setting).getD (config.setting setting)
  replaced : overlay.replace = true → ∀ list, merged.names list = (overlay.change list).add
  merged : overlay.replace = false → ∀ list,
    (overlay.change list).Merges (config.names list) (merged.names list)

theorem names_apply (overlay : Overlay) (config : Config) (list : NameList) :
    (overlay.apply config).names list =
      (overlay.change list).apply overlay.replace (config.names list) := by
  cases list <;> rfl

theorem merges_apply (overlay : Overlay) (config : Config) :
    overlay.Merges config (overlay.apply config) where
  settings := overlay.setting_apply config
  replaced replacing list := by rw [names_apply, replacing, ListChange.apply_replace]
  merged merging list := by
    rw [names_apply, merging]
    exact ListChange.merges_apply _ _

/-- Names are merged, and none of the configuration is removed. -/
def Keeps (overlay : Overlay) (config : Config) : Prop :=
  overlay.replace = false ∧
    ∀ list, ∀ name ∈ (overlay.change list).remove, name ∉ config.names list

/-- All of a configuration is stated, to be added to what is there. -/
def stating (config : Config) : Overlay where
  git := some config.git
  logLevel := some config.logLevel
  logFile := some config.logFile
  replace := false
  fallbackCommands := ⟨config.fallbackCommands, []⟩
  extraCommands := ⟨config.extraCommands, []⟩

theorem setting?_stating (config : Config) (setting : Setting) :
    (stating config).setting? setting = some (config.setting setting) := by
  cases setting <;> rfl

theorem change_stating (config : Config) (list : NameList) :
    (stating config).change list = ⟨config.names list, []⟩ := by
  cases list <;> rfl

/-- What was merged is stable: stated as it is, it changes no more. -/
theorem apply_stating_apply (keeps : overlay.Keeps config) :
    (stating (overlay.apply config)).apply config = overlay.apply config := by
  obtain ⟨merging, keeps⟩ := keeps
  apply Config.eq_of_settings
  · intro setting
    rw [setting_apply, setting?_stating, Option.getD_some]
  · intro list
    rw [names_apply, change_stating, names_apply, merging]
    exact ListChange.apply_apply (keeps list)

end Overlay

/-! What is dumped. -/

namespace Config

open Toml

def settingsTable (config : Config) : Table where
  name := "settings".toList
  lines := [.string "git".toList rfl config.git,
    .string "log_level".toList rfl config.logLevel,
    .string "log_file".toList rfl config.logFile]
  gap := 1
  bare := rfl
  distinct := show ["git".toList, "log_level".toList, "log_file".toList].Nodup by decide

def gitTable (config : Config) : Table where
  name := "git".toList
  lines := [.strings "fallback_commands".toList rfl config.fallbackCommands,
    .strings "extra_commands".toList rfl config.extraCommands]
  gap := 0
  bare := rfl
  distinct := show ["fallback_commands".toList, "extra_commands".toList].Nodup by decide

theorem render_eq (config : Config) :
    config.render = [config.settingsTable, config.gitTable].flatMap Table.text := by
  have last : config.gitTable.text = writeTable "git".toList
      [("fallback_commands".toList, writeStrings config.fallbackCommands),
        ("extra_commands".toList, writeStrings config.extraCommands)] := List.append_nil _
  rw [List.flatMap_cons, List.flatMap_cons, List.flatMap_nil, List.append_nil, last]
  rfl

theorem read?_render (config : Config) : Toml.read? config.render =
    some [("settings".toList, .table .header config.settingsTable.entries),
      ("git".toList, .table .header config.gitTable.entries)] := by
  rw [render_eq]
  exact read?_tables _ (show ["settings".toList, "git".toList].Nodup by decide)

end Config

namespace Overlay

theorem texts?_strings (texts : List Text) :
    texts? (.array (texts.map Toml.Value.string)) = some texts := by
  rw [texts?]
  induction texts with
  | nil => rfl
  | cons text texts ih => rw [List.map_cons, List.mapM_cons, ih]; rfl

theorem settings?_settingsTable (overlay : Overlay) (config : Config) :
    settings? overlay (.table .header config.settingsTable.entries) =
      some { overlay with
        git := some config.git
        logLevel := some config.logLevel
        logFile := some config.logFile } := rfl

theorem lists?_gitTable (overlay : Overlay) (config : Config) :
    lists? overlay (.table .header config.gitTable.entries) =
      some { overlay with
        replace := false
        fallbackCommands := ⟨config.fallbackCommands, []⟩
        extraCommands := ⟨config.extraCommands, []⟩ } := by
  have group : group? ["replace".toList, "fallback_commands".toList, "extra_commands".toList,
      "remove_fallback_commands".toList, "remove_extra_commands".toList]
      (.table .header config.gitTable.entries) =
        some [none, some (.array (config.fallbackCommands.map .string)),
          some (.array (config.extraCommands.map .string)), none, none] := rfl
  simp [lists?, readOr, group, texts?_strings, -String.reduceToList]

/-- A configuration that was dumped is read as stating all of it. -/
theorem read?_render (config : Config) : read? config.render = some (stating config) := by
  have groups : read? config.render =
      (settings? silent (.table .header config.settingsTable.entries)).bind fun overlay =>
        lists? overlay (.table .header config.gitTable.entries) := by
    rw [read?, config.read?_render]
    rfl
  rw [groups, settings?_settingsTable, Option.bind_some, lists?_gitTable]
  rfl

end Overlay

namespace CommandLine

/-- The user's file, as it is found, states an overlay. -/
def States (file : Option Bytes) (overlay : Overlay) : Prop :=
  ∃ document, file.bind Utf8.decode? = some document ∧ Overlay.read? document = some overlay

theorem configure_of_states {file : Option Bytes} {overlay : Overlay}
    (states : States file overlay) (objection : Text → Text) (journal : Journal) :
    configure objection file journal = (overlay.apply .standard, journal) := by
  obtain ⟨document, decoded, read⟩ := states
  simp only [configure, decoded, read]

theorem states_encode {document : Text} {overlay : Overlay}
    (read : Overlay.read? document = some overlay) :
    States (some (Utf8.encode document)) overlay :=
  ⟨document, Utf8.decode?_eq_some_iff.mpr rfl, read⟩

/-- A configuration that was dumped states all of itself. -/
theorem states_render (config : Config) :
    States (some (Utf8.encode config.render)) (.stating config) :=
  states_encode (Overlay.read?_render config)

/-- What is printed when the configuration is asked for. -/
def dumped (surroundings : Surroundings) : Bytes :=
  (run .dumpConfig surroundings).journal.streams.out.written

theorem dumped_of_states {surroundings : Surroundings} {overlay : Overlay}
    (states : States surroundings.overlay overlay) :
    dumped surroundings = Utf8.encode (overlay.apply .standard).render := by
  simp only [dumped, run, configure_of_states states]
  rfl

end CommandLine

namespace Overlay

open CommandLine

/-- An overlay changes a configuration as it states. If it only adds to the usual one, what comes
out may be dumped and be the user's file from then on. -/
theorem overlays_merge_as_stated (overlay : Overlay) (config : Config) :
    overlay.Merges config (overlay.apply config) ∧
      (overlay.Keeps config →
        (Overlay.stating (overlay.apply config)).apply config = overlay.apply config) ∧
      (overlay.Keeps .standard →
        ∀ surroundings : Surroundings, States surroundings.overlay overlay →
          ∀ objection journal,
            configure objection (some (dumped surroundings)) journal =
              (overlay.apply .standard, journal)) := by
  refine ⟨overlay.merges_apply config, Overlay.apply_stating_apply, ?_⟩
  intro keeps surroundings states objection journal
  have stable := Overlay.apply_stating_apply keeps
  rw [dumped_of_states states, configure_of_states (states_render _), stable]

/-- A name that is both removed and added twice is there once, and one that was there already keeps
its place. -/
theorem added_name_outlasts_its_removal :
    let document := "settings.log_level = 'debug'\n[git]\n".toList ++
      "fallback_commands = ['lg', \"status\", 'lg']\nremove_fallback_commands = ['lg']".toList
    let overlay : Overlay :=
      { Overlay.silent with
        logLevel := some "debug".toList
        fallbackCommands := ⟨["lg", "status", "lg"].map String.toList, ["lg".toList]⟩ }
    let surroundings : Surroundings :=
      ⟨[], some (Utf8.encode document), fun _ => [], false, [], fun _ => none⟩
    overlay.replace = false ∧ overlay.Keeps .standard ∧ States surroundings.overlay overlay ∧
      (overlay.apply .standard).names .fallback =
        Config.standard.fallbackCommands ++ ["lg".toList] ∧
      ({ overlay with replace := true }.apply .standard).names .fallback =
        ["lg", "status", "lg"].map String.toList ∧
      (Overlay.stating (overlay.apply .standard)).apply .standard = overlay.apply .standard ∧
      ∀ objection journal,
        configure objection (some (dumped surroundings)) journal =
          (overlay.apply .standard, journal) := by
  intro document overlay surroundings
  have merging : overlay.replace = false := rfl
  have keeps : overlay.Keeps .standard := ⟨rfl, by rintro (_ | _) <;> decide +kernel⟩
  have states : States surroundings.overlay overlay := states_encode (by decide +kernel)
  obtain ⟨merges, stable, dump⟩ := overlays_merge_as_stated overlay .standard
  obtain ⟨replaces, -⟩ := overlays_merge_as_stated { overlay with replace := true } .standard
  refine ⟨merging, keeps, states, ?_, replaces.replaced rfl .fallback, stable keeps,
    dump keeps surroundings states⟩
  rw [(merges.merged merging .fallback).listed]
  decide +kernel

end Overlay

end LineShell
