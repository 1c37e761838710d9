import LineShell.Git.Script
import LineShell.Proofs.Completing
import LineShell.Shell

namespace LineShell

/-! Whose options are offered.

A name that is typed is run as a built-in if one is registered by that name, and by git
otherwise. The options that are offered for it come from git's help page as soon as the
name is one of git's. The two agree for every name but those that a built-in and git have
in common, which the extra names of a configuration may bring about.
-/

open Completion (dropRepeats matching precedes)
open Git.HelpPage (longOptions)

namespace Catalog

/-- The names that count as git's, given what it listed. -/
def gitNames (fallback extra : List Text) (listed : Except Text (List Text)) : List Text :=
  match listed with
  | .ok (name :: names) => name :: names ++ extra
  | _ => fallback ++ extra

theorem chooseNames_append (fallback extra : List Text) (listed : Except Text (List Text))
    (journal : Journal) :
    (chooseNames fallback listed journal).1 ++ extra = gitNames fallback extra listed := by
  cases listed with
  | error reason => rfl
  | ok names => cases names <;> rfl

theorem isGit_refresh (git : Git.Backend) (fallback : List Text) (catalog : Catalog)
    (journal : Journal) (name : Text) :
    (refresh git fallback catalog journal).1.isGit name =
      (gitNames fallback catalog.extra (git.listCommands journal).1).contains name := by
  rw [← chooseNames_append fallback catalog.extra _ (git.listCommands journal).2]
  exact NameSet.contains_ofList _ name

end Catalog

theorem Shell.isGit_load (config : Config) (git : Git.Backend) (journal : Journal) (name : Text) :
    (Shell.load config git journal).1.catalog.isGit name = true ↔
      name ∈ Catalog.gitNames config.fallbackCommands config.extraCommands
        (git.listCommands journal).1 := by
  rw [← List.contains_iff_mem]
  exact Bool.eq_iff_iff.mp (Catalog.isGit_refresh git _ _ journal name)

/-- In a shell that was just loaded, the options offered for a command are those of the
built-in that would run, without a question to git, or those on git's help page. The page
is chosen exactly if git would run or the name is one of git's. -/
theorem options_follow_the_names_of_git {config : Config} {git : Git.Backend}
    {start opened journal : Journal} {shell : Shell} {earlier : List Text}
    {pages : Completion.Pages} {line name : Text} {cursor : Cursor} {candidates : List Text}
    (loaded : (Shell.load config git start).1 = shell)
    (used : (shell.completeEach earlier [] opened).2 = (pages, journal))
    (ends : EndsInOption line cursor name)
    (offered : (shell.complete line pages journal).1 = some candidates) :
    let names := Catalog.gitNames config.fallbackCommands config.extraCommands
      (git.listCommands start).1
    (∀ builtin, shell.registry.get? name = some builtin → name ∉ names →
      candidates = matching cursor.token.raw builtin.optionNames ∧
        (shell.complete line pages journal).2.2 = journal) ∧
    (shell.registry.get? name = none ∨ name ∈ names →
      ∃ page made, (shell.complete line pages journal).2.2.calls = opened.calls ++ made ∧
        .capture [name, "-h".toList] (.ok page) ∈ made ∧
        candidates = matching cursor.token.raw (longOptions page)) := by
  intro names
  have gitHas : shell.catalog.isGit name = true ↔ name ∈ names := by
    rw [← loaded]
    exact Shell.isGit_load config git start name
  have other (foreign : name ∉ names) : shell.catalog.isGit name = false := by
    rw [← Bool.not_eq_true, gitHas]
    exact foreign
  constructor
  · intro builtin registered foreign
    obtain ⟨found, registered', completed⟩ := Tools.exists_builtin ends (other foreign) offered
    obtain rfl : builtin = found := by simpa [registered] using registered'
    rw [completed] at offered ⊢
    exact ⟨(Option.some.inj offered).symm, rfl⟩
  · intro run
    have known : name ∈ names := by
      by_cases foreign : name ∈ names
      · exact foreign
      · obtain ⟨found, registered, -⟩ := Tools.exists_builtin ends (other foreign) offered
        simp [registered, foreign] at run
    obtain ⟨inquiries, memory, -⟩ := shell.exists_memory earlier opened
    rw [used] at memory
    exact memory.exists_page ends (gitHas.mpr known) offered

theorem exit_is_offered_its_own_options :
    ∃ shell, (Shell.load { Config.standard with fallbackCommands := [] } (.missing [] [])
        (.start .unbounded)).1 = shell ∧
      (shell.completeEach [] [] (.start .unbounded)).2 = ([], .start .unbounded) ∧
      EndsInOption ":exit --".toList
        ⟨[⟨.word, ":exit".toList, ":exit".toList, none, true, ⟨0, 5⟩⟩],
          ⟨.word, "--".toList, "--".toList, none, true, ⟨6, 8⟩⟩, []⟩ ":exit".toList ∧
      (shell.complete ":exit --".toList [] (.start .unbounded)).1 = some ["--help".toList] ∧
      (shell.complete ":exit --".toList [] (.start .unbounded)).2.2 = .start .unbounded := by
  obtain ⟨shell, loaded⟩ : ∃ shell, (Shell.load { Config.standard with fallbackCommands := [] }
      (.missing [] []) (.start .unbounded)).1 = shell := ⟨_, rfl⟩
  have used : (shell.completeEach [] [] (.start .unbounded)).2 = ([], .start .unbounded) := rfl
  have ends : EndsInOption ":exit --".toList
      ⟨[⟨.word, ":exit".toList, ":exit".toList, none, true, ⟨0, 5⟩⟩],
        ⟨.word, "--".toList, "--".toList, none, true, ⟨6, 8⟩⟩, []⟩ ":exit".toList :=
    ⟨by decide +kernel, by decide, by decide, by decide⟩
  have offered : (shell.complete ":exit --".toList [] (.start .unbounded)).1 =
      some ["--help".toList] := by
    rw [← loaded]
    decide +kernel
  have registered : shell.registry.get? ":exit".toList = some Builtin.exit := by
    rw [← loaded]
    rfl
  have own := (options_follow_the_names_of_git loaded used ends offered).1 Builtin.exit registered
    (by decide +kernel)
  exact ⟨shell, loaded, used, ends, offered, own.2⟩

/-- A configuration with `:help` among the names of git. -/
theorem built_in_that_git_has_too_offers_the_options_of_git :
    ∃ shell journal builtin cursor,
      Shell.load { Config.standard with fallbackCommands := [], extraCommands := [":help".toList] }
        (Git.Script.backend ⟨[], [], [(":help -h".toList, "  --foo".toList)], []⟩)
        (.start .unbounded) = (shell, journal) ∧
      EndsInOption ":help --".toList cursor ":help".toList ∧
      shell.registry.get? ":help".toList = some builtin ∧
      matching cursor.token.raw builtin.optionNames = ["--all".toList, "--help".toList] ∧
      (shell.complete ":help --".toList [] journal).1 = some ["--foo".toList] ∧
      (shell.complete ":help --".toList [] journal).2.2.calls.filterMap
        Git.Call.captureArguments? = [Git.listArguments, [":help".toList, "-h".toList]] := by
  refine ⟨_, _, Builtin.help,
    ⟨[⟨.word, ":help".toList, ":help".toList, none, true, ⟨0, 5⟩⟩],
      ⟨.word, "--".toList, "--".toList, none, true, ⟨6, 8⟩⟩, []⟩, rfl, ?_, rfl, ?_, ?_, ?_⟩
  · exact ⟨by decide +kernel, by decide, by decide, by decide⟩
  · have ordered : List.mergeSort ["--all".toList, "--help".toList] precedes =
        ["--all".toList, "--help".toList] := List.mergeSort_of_pairwise (by decide)
    change dropRepeats (List.mergeSort ["--all".toList, "--help".toList] precedes) = _
    rw [ordered]
    rfl
  · decide +kernel
  · decide +kernel

end LineShell
