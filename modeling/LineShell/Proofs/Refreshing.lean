import LineShell.Proofs.Cutting
import LineShell.Proofs.Offering

namespace LineShell

/-! Refreshing the names that a shell knows.

A refresh takes the names that git lists, or those to fall back on, in place of all that it
took before. Two things stay from the load of the catalog: the names of the built-ins and
the extra names. The latter stay even if the configuration has others by then, so that a
refresh and a new load may differ.
-/

namespace NameSet

variable {names names' : List Text}

theorem ext_of_mem {left right : NameSet}
    (same : ∀ name, name ∈ left.toList ↔ name ∈ right.toList) : left = right := by
  obtain ⟨names, ascending⟩ := left
  obtain ⟨names', ascending'⟩ := right
  have once {list : List Text} (ascending : list.Pairwise (· < ·)) : list.Nodup := by
    apply ascending.imp
    rintro name _ less rfl
    exact List.lt_irrefl name less
  have perm := (List.perm_ext_iff_of_nodup (once ascending) (once ascending')).mpr same
  have asymmetric (left right : Text) (_ : left ∈ names) (_ : right ∈ names')
      (less : left < right) (greater : right < left) : left = right :=
    absurd greater (List.lt_asymm less)
  obtain rfl := perm.eq_of_pairwise asymmetric ascending ascending'
  rfl

theorem ofList_congr (same : ∀ name, name ∈ names ↔ name ∈ names') :
    ofList names = ofList names' := by
  apply ext_of_mem
  intro name
  rw [mem_toList_ofList, mem_toList_ofList, same]

end NameSet

/-- What git answers when it is asked for its commands. -/
def Git.Backend.listing (git : Git.Backend) (journal : Journal) : Except Text Text :=
  git.capture journal.calls Git.listArguments

namespace Catalog

variable {registry : Registry} {extra : List Text} {catalog : Catalog} {name : Text}

/-- A name that git lists in its answer. -/
def Lists (answer : Except Text Text) (name : Text) : Prop :=
  ∃ listing, answer = .ok listing ∧ name.Trimmed ∧ Git.Listed name listing

theorem lists_ok (listing name : Text) :
    Lists (.ok listing) name ↔ name ∈ Git.namesOfListing listing := by
  simp [Lists, Git.mem_namesOfListing]

/-- A name to take from an answer: one that git lists, or one to fall back on if git lists
none or could not be asked. -/
def Takes (answer : Except Text Text) (fallback : List Text) (name : Text) : Prop :=
  Lists answer name ∨ (∀ other, ¬ Lists answer other) ∧ name ∈ fallback

theorem mem_gitNames_iff (answer : Except Text Text) (fallback extra : List Text) (name : Text) :
    name ∈ gitNames fallback extra (answer.map Git.namesOfListing) ↔
      Takes answer fallback name ∨ name ∈ extra := by
  cases answer with
  | error reason => simp [gitNames, Except.map, Takes, Lists]
  | ok listing =>
      simp only [Takes, lists_ok, Except.map]
      cases Git.namesOfListing listing with
      | nil => simp [gitNames]
      | cons first names =>
          have given : ¬ ∀ other, other ∉ first :: names := fun none => none first (.head _)
          rw [gitNames, List.mem_append]
          simp only [given, false_and, or_false]

/-- A refresh puts other names in the place of git's, and does nothing else to a catalog. -/
theorem refresh_eq (git : Git.Backend) (fallback : List Text) (catalog : Catalog)
    (journal : Journal) :
    (refresh git fallback catalog journal).1 =
      { catalog with
        git := .ofList (gitNames fallback catalog.extra
          ((git.listing journal).map Git.namesOfListing)) } := by
  rw [← chooseNames_append fallback catalog.extra _ (git.listCommands journal).2]
  rfl

theorem isGit_refresh_iff (git : Git.Backend) (fallback : List Text) (catalog : Catalog)
    (journal : Journal) (name : Text) :
    (refresh git fallback catalog journal).1.isGit name = true ↔
      Takes (git.listing journal) fallback name ∨ name ∈ catalog.extra := by
  rw [isGit_refresh, List.contains_iff_mem]
  exact mem_gitNames_iff _ _ _ _

/-- The catalogs that come of one load for some built-ins and extra names, by any number
of refreshes from whatever git and names to fall back on there are at the time. -/
inductive History (registry : Registry) (extra : List Text) : Catalog → Prop where
  | loaded (git : Git.Backend) (fallback : List Text) (journal : Journal) :
      History registry extra (load git registry fallback extra journal).1
  | refreshed {catalog : Catalog} (earlier : History registry extra catalog) (git : Git.Backend)
      (fallback : List Text) (journal : Journal) :
      History registry extra (refresh git fallback catalog journal).1

theorem History.keeps (history : History registry extra catalog) :
    catalog.builtin = .ofList registry.names ∧ catalog.extra = extra := by
  induction history with
  | loaded git fallback journal =>
      rw [load, refresh_eq]
      exact ⟨rfl, rfl⟩
  | refreshed earlier git fallback journal ih =>
      rw [refresh_eq]
      exact ih

theorem History.isCommand_iff (history : History registry extra catalog) (git : Git.Backend)
    (fallback : List Text) (journal : Journal) (name : Text) :
    (refresh git fallback catalog journal).1.isCommand name = true ↔
      name ∈ registry.names ∨ Takes (git.listing journal) fallback name ∨ name ∈ extra := by
  obtain ⟨builtin, -⟩ := (history.refreshed git fallback journal).keeps
  rw [isCommand, Bool.or_eq_true, isGit_refresh_iff, history.keeps.2, isBuiltin, builtin,
    NameSet.contains_ofList, List.contains_iff_mem]

/-- Nothing of what came before a refresh is in the catalog after it. -/
theorem History.refresh_eq_refresh {catalog' : Catalog} (history : History registry extra catalog)
    (history' : History registry extra catalog') {git git' : Git.Backend}
    {fallback fallback' : List Text} {journal journal' : Journal}
    (same : ∀ name, Takes (git.listing journal) fallback name ↔
      Takes (git'.listing journal') fallback' name) :
    (refresh git fallback catalog journal).1 = (refresh git' fallback' catalog' journal').1 := by
  obtain ⟨builtin, extra_eq⟩ := history.keeps
  obtain ⟨builtin', extra_eq'⟩ := history'.keeps
  have names : NameSet.ofList (gitNames fallback extra
        ((git.listing journal).map Git.namesOfListing)) =
      .ofList (gitNames fallback' extra ((git'.listing journal').map Git.namesOfListing)) := by
    apply NameSet.ofList_congr
    intro name
    rw [mem_gitNames_iff, mem_gitNames_iff, same]
  rw [refresh_eq, refresh_eq, builtin, builtin', extra_eq, extra_eq', names]

theorem takes_congr {answer answer' : Except Text Text} {fallback fallback' : List Text}
    (same : (∃ name, Lists answer name) ∧ (∀ name, Lists answer name ↔ Lists answer' name) ∨
      (∀ name, ¬ Lists answer name) ∧ (∀ name, ¬ Lists answer' name) ∧
        ∀ name, name ∈ fallback ↔ name ∈ fallback') (name : Text) :
    Takes answer fallback name ↔ Takes answer' fallback' name := by
  rcases same with ⟨⟨first, listed⟩, same⟩ | ⟨none, none', same⟩
  · have given : ¬ ∀ other, ¬ Lists answer' other := fun none => none first ((same first).mp listed)
    simp only [Takes, same, given, false_and, or_false]
  · simp [Takes, none, none', same]

/-- Whatever two catalogs have been through, they know the same names after refreshes for
which git lists the same, or lists nothing and there are the same names to fall back on. -/
theorem refresh_forgets_earlier_listings {catalog' : Catalog}
    (history : History registry extra catalog) (history' : History registry extra catalog')
    (git git' : Git.Backend) (fallback fallback' : List Text) (journal journal' : Journal)
    (same : (∃ name, Lists (git.listing journal) name) ∧
        (∀ name, Lists (git.listing journal) name ↔ Lists (git'.listing journal') name) ∨
      (∀ name, ¬ Lists (git.listing journal) name) ∧
        (∀ name, ¬ Lists (git'.listing journal') name) ∧
        ∀ name, name ∈ fallback ↔ name ∈ fallback') :
    let last := (refresh git fallback catalog journal).1
    let last' := (refresh git' fallback' catalog' journal').1
    (∀ name, last.isGit name = last'.isGit name ∧ last.isBuiltin name = last'.isBuiltin name ∧
      last.isCommand name = last'.isCommand name) ∧
    last.names = last'.names ∧
    ∀ name, last.isCommand name = true ↔
      name ∈ registry.names ∨ Takes (git.listing journal) fallback name ∨ name ∈ extra := by
  intro last last'
  have equal : last = last' := history.refresh_eq_refresh history' (takes_congr same)
  refine ⟨?_, congrArg names equal, history.isCommand_iff git fallback journal⟩
  intro name
  rw [equal]
  exact ⟨rfl, rfl, rfl⟩

theorem padding_and_order_of_a_listing_do_not_matter :
    let git (listing : Text) : Git.Backend :=
      ⟨none, fun _ _ => ⟨.ok 0, [], []⟩, fun _ _ => .ok listing⟩
    let start := Journal.start .unbounded
    let one := (load (git ['o']) .standard [] [] start).1
    let other := (load (.missing [] []) .standard [['z']] [] start).1
    (refresh (git ['b', '\r', '\n', ' ', 'a', '\n', '\n', 'b', '\n']) [] one start).1.names =
      (refresh (git ['a', '\n', 'b']) [] other start).1.names := by
  intro git start one other
  have padded : Git.namesOfListing ['b', '\r', '\n', ' ', 'a', '\n', '\n', 'b', '\n'] =
      [['b'], ['a'], ['b']] := by decide
  have plain : Git.namesOfListing ['a', '\n', 'b'] = [['a'], ['b']] := by decide
  have members (name : Text) : name ∈ [['b'], ['a'], ['b']] ↔ name ∈ [['a'], ['b']] := by grind
  refine (refresh_forgets_earlier_listings (.loaded (git ['o']) [] start)
    (.loaded (.missing [] []) [['z']] start) (git _) (git _) [] [] start start
    (.inl ⟨⟨['a'], ?_⟩, fun name => ?_⟩)).2.1
  · exact (lists_ok _ _).mpr (by simp [padded])
  · exact (lists_ok _ _).trans (.trans (by rw [padded, plain, members]) (lists_ok _ _).symm)

end Catalog

namespace Shell

/-- One thing that is done with a shell, and the journal after it. -/
inductive Step : Shell × Journal → Shell × Journal → Prop where
  | ran (shell : Shell) (journal : Journal) (line : Text) (streams : Streams) :
      Step (shell, journal) (shell, (shell.runLine line { journal with streams }).2)
  | completed (shell : Shell) (journal : Journal) (lines : List Text) (pages : Completion.Pages) :
      Step (shell, journal) (shell, (shell.completeEach lines pages journal).2.2)
  | changed (shell : Shell) (journal : Journal) (git : Git.Backend) :
      Step (shell, journal) ({ shell with git }, journal)
  | configured (shell : Shell) (journal : Journal) (config : Config) :
      Step (shell, journal) ({ shell with config }, journal)
  | refreshed (shell : Shell) (journal : Journal) : Step (shell, journal) (shell.refresh journal)

/-- What may become of a shell after it was loaded. -/
inductive Reached (config : Config) (git : Git.Backend) (start : Journal) :
    Shell × Journal → Prop where
  | loaded : Reached config git start (Shell.load config git start)
  | step {used after : Shell × Journal} (earlier : Reached config git start used)
      (step : Step used after) : Reached config git start after

variable {config : Config} {git : Git.Backend} {start : Journal} {used after : Shell × Journal}

theorem Step.history {registry : Registry} {extra : List Text} (step : Step used after)
    (history : Catalog.History registry extra used.1.catalog) :
    Catalog.History registry extra after.1.catalog := by
  cases step with
  | ran | completed | changed | configured => exact history
  | refreshed shell journal => exact history.refreshed _ _ _

theorem Reached.history (reached : Reached config git start used) :
    Catalog.History .standard config.extraCommands used.1.catalog := by
  induction reached with
  | loaded => exact .loaded git config.fallbackCommands start
  | step earlier step ih => exact step.history ih

/-- A refresh takes the names that git lists by then or those of the configuration by then
to fall back on, as a new load would. The extra names are those of the configuration of
the load, so that the two agree only on the names that both or neither have in addition. -/
theorem refresh_keeps_the_extra_names_of_the_load {shell : Shell} {journal : Journal}
    (reached : Reached config git start (shell, journal)) :
    let refreshed := (shell.refresh journal).1.catalog
    let fresh := (Shell.load shell.config shell.git journal).1.catalog
    let taken := Catalog.Takes (shell.git.listing journal) shell.config.fallbackCommands
    (∀ name, refreshed.isGit name = true ↔ taken name ∨ name ∈ config.extraCommands) ∧
    (∀ name, fresh.isGit name = true ↔ taken name ∨ name ∈ shell.config.extraCommands) ∧
    (refreshed.git = fresh.git ↔ ∀ name, ¬ taken name →
      (name ∈ config.extraCommands ↔ name ∈ shell.config.extraCommands)) := by
  intro refreshed fresh taken
  have refreshed_iff (name : Text) :
      refreshed.isGit name = true ↔ taken name ∨ name ∈ config.extraCommands := by
    rw [← reached.history.keeps.2]
    exact Catalog.isGit_refresh_iff _ _ _ _ name
  have fresh_iff (name : Text) :
      fresh.isGit name = true ↔ taken name ∨ name ∈ shell.config.extraCommands :=
    Catalog.isGit_refresh_iff _ _ _ _ name
  have git_eq_iff : refreshed.git = fresh.git ↔
      ∀ name, refreshed.isGit name = true ↔ fresh.isGit name = true := by
    constructor
    · intro equal name
      rw [Catalog.isGit, Catalog.isGit, equal]
    · intro same
      apply NameSet.ext_of_mem
      intro name
      rw [← Catalog.isGit_iff, ← Catalog.isGit_iff, same]
  refine ⟨refreshed_iff, fresh_iff, git_eq_iff.trans ?_⟩
  simp only [refreshed_iff, fresh_iff]
  constructor
  · intro same name other
    simpa [other] using same name
  · intro same name
    by_cases known : taken name
    · simp [known]
    · simp [known, same name known]

theorem extra_name_stays_that_was_taken_out :
    let config := { Config.standard with fallbackCommands := [], extraCommands := [['x']] }
    let loaded := Shell.load config (.missing [] []) (.start .unbounded)
    let shell := { loaded.1 with config := { config with extraCommands := [] } }
    (shell.refresh loaded.2).1.catalog.isGit ['x'] = true := by
  intro config loaded shell
  have reached : Reached config (.missing [] []) (.start .unbounded) (shell, loaded.2) :=
    .step .loaded (.configured _ _ _)
  exact ((refresh_keeps_the_extra_names_of_the_load reached).1 ['x']).mpr (.inr (.head _))

theorem extra_name_is_missing_that_was_put_in :
    let config := { Config.standard with fallbackCommands := [] }
    let outputs := [("--list-cmds=main,nohelpers".toList, "status\n".toList)]
    let git := Git.Script.backend ⟨[], [], outputs, []⟩
    let loaded := Shell.load config git (.start .unbounded)
    let shell := { loaded.1 with config := { config with extraCommands := ["lg".toList] } }
    Reached config git (.start .unbounded) (shell, loaded.2) ∧
    (shell.refresh loaded.2).1.catalog.git.toList = ["status".toList] ∧
    (Shell.load shell.config shell.git loaded.2).1.catalog.git.toList =
      ["lg".toList, "status".toList] :=
  ⟨.step .loaded (.configured _ _ _), by decide +kernel, by decide +kernel⟩

end Shell

end LineShell
