import LineShell.Completion

namespace LineShell

/-! Completing lines, one after the other.

Only an option of a git command takes a help page. A completer remembers the answers to
its inquiries, also that there is no page, and makes a new one only for the first line that
needs it. As long as git answers a question in the same way each time, the completions do
not tell what is remembered.
-/

open Completion (Pages matching)
open Git.HelpPage (isLong longOptions)

theorem Cursor.isCommand_eq_false_of_isOption {cursor : Cursor} (option : cursor.isOption = true) :
    cursor.isCommand = false := by
  simp only [isOption, Bool.and_eq_true, Bool.not_eq_true'] at option
  exact option.1.2

/-- The line ends, where the cursor stands, in a long option of the command `name`. -/
structure EndsInOption (line : Text) (cursor : Cursor) (name : Text) : Prop where
  target : Tools.target? line = some cursor
  option : cursor.isOption = true
  long : isLong cursor.token.raw = true
  owner : cursor.owner?.map (·.token.content) = some name

namespace EndsInOption

variable {line name name' : Text} {cursor cursor' : Cursor}

theorem isCommand_eq_false (ends : EndsInOption line cursor name) : cursor.isCommand = false :=
  Cursor.isCommand_eq_false_of_isOption ends.option

theorem exists_owner (ends : EndsInOption line cursor name) :
    ∃ owner, cursor.owner? = some owner := by
  obtain ⟨owner, owned, -⟩ := Option.map_eq_some_iff.mp ends.owner
  exact ⟨owner, owned⟩

theorem cursor_unique (ends : EndsInOption line cursor name)
    (target : Tools.target? line = some cursor') : cursor = cursor' := by
  simpa [target] using ends.target.symm

theorem name_unique (ends : EndsInOption line cursor name)
    (ends' : EndsInOption line cursor' name') : name = name' := by
  obtain rfl := ends.cursor_unique ends'.target
  simpa [ends'.owner] using ends.owner.symm

end EndsInOption

/-- A help page that was asked for, with the answer of git. -/
structure Inquiry where
  name : Text
  answer : Except Text Text

namespace Inquiry

def call (inquiry : Inquiry) : Git.Call :=
  .capture [inquiry.name, "-h".toList] inquiry.answer

/-- The options on the page, if there is one. -/
def options (inquiry : Inquiry) : Option (List Text) :=
  inquiry.answer.toOption.map longOptions

/-- What is remembered of the inquiries, the latest first. -/
def pages (inquiries : List Inquiry) : Pages :=
  (inquiries.map fun inquiry => (inquiry.name, inquiry.options)).reverse

theorem pages_concat (inquiries : List Inquiry) (inquiry : Inquiry) :
    pages (inquiries ++ [inquiry]) = (inquiry.name, inquiry.options) :: pages inquiries := by
  simp [pages]

theorem not_mem_of_lookup {inquiries : List Inquiry} {name : Text}
    (unknown : (pages inquiries).lookup name = none) : name ∉ inquiries.map Inquiry.name := by
  intro member
  obtain ⟨inquiry, among, rfl⟩ := List.mem_map.mp member
  have remembered : (inquiry.name, inquiry.options) ∈ pages inquiries :=
    List.mem_reverse.mpr (List.mem_map.mpr ⟨inquiry, among, rfl⟩)
  simpa using List.lookup_eq_none_iff.mp unknown _ remembered

theorem exists_of_lookup {inquiries : List Inquiry} {name : Text} {options : Option (List Text)}
    (found : (pages inquiries).lookup name = some options) :
    ∃ inquiry ∈ inquiries, inquiry.name = name ∧ inquiry.options = options := by
  obtain ⟨newer, older, split, -⟩ := List.lookup_eq_some_iff.mp found
  have remembered : (name, options) ∈ pages inquiries := by simp [split]
  obtain ⟨inquiry, among, same⟩ := List.mem_map.mp (List.mem_reverse.mp remembered)
  obtain ⟨rfl, rfl⟩ := Prod.mk.inj same
  exact ⟨inquiry, among, rfl, rfl⟩

end Inquiry

namespace Tools

variable {tools : Tools} {start journal : Journal} {inquiries : List Inquiry} {pages : Pages}
  {line name : Text} {cursor : Cursor}

theorem complete_of_option (ends : EndsInOption line cursor name) :
    tools.complete line pages journal =
      ((tools.commandOptions name pages journal).1.map (matching cursor.token.raw),
        (tools.commandOptions name pages journal).2) := by
  obtain ⟨owner, owned, rfl⟩ := Option.map_eq_some_iff.mp ends.owner
  simp [complete, ends.target, completeAt, ends.isCommand_eq_false, ends.option, ends.long, owned]

/-- The ways in which a line can be completed. -/
inductive Completed (tools : Tools) (line : Text) (pages : Pages) (journal : Journal) :
    Option (List Text) × Pages × Journal → Prop where
  | command {cursor : Cursor} (target : target? line = some cursor)
      (command : cursor.isCommand = true) :
      Completed tools line pages journal
        (some (matching cursor.token.raw tools.catalog.names), pages, journal)
  | page {cursor : Cursor} {name : Text} (ends : EndsInOption line cursor name)
      (known : tools.catalog.isGit name = true) :
      Completed tools line pages journal
        ((tools.recalledOptions name pages journal).1.map (matching cursor.token.raw),
          (tools.recalledOptions name pages journal).2)
  | manual {cursor : Cursor} {name : Text} {builtin : Builtin}
      (ends : EndsInOption line cursor name) (other : tools.catalog.isGit name = false)
      (known : tools.catalog.isBuiltin name = true)
      (registered : tools.registry.get? name = some builtin) :
      Completed tools line pages journal
        (some (matching cursor.token.raw builtin.optionNames), pages, journal)
  | nothing (noCommand : ∀ cursor, target? line = some cursor → cursor.isCommand = false)
      (noOption : ∀ cursor name, EndsInOption line cursor name →
        tools.catalog.isGit name = false ∧
          (tools.catalog.isBuiltin name = true → tools.registry.get? name = none)) :
      Completed tools line pages journal (none, pages, journal)

theorem completed (tools : Tools) (line : Text) (pages : Pages) (journal : Journal) :
    Completed tools line pages journal (tools.complete line pages journal) := by
  by_cases option : ∃ cursor name, EndsInOption line cursor name
  · obtain ⟨cursor, name, ends⟩ := option
    have noCommand : ∀ other, target? line = some other → other.isCommand = false := by
      intro other target
      rw [← ends.cursor_unique target, ends.isCommand_eq_false]
    rw [complete_of_option ends, commandOptions]
    by_cases git : tools.catalog.isGit name = true
    · rw [if_pos git]
      exact .page ends git
    rw [if_neg git]
    rw [Bool.not_eq_true] at git
    by_cases builtin : tools.catalog.isBuiltin name = true
    · rw [if_pos builtin]
      cases registered : tools.registry.get? name with
      | some found => exact .manual ends git builtin registered
      | none =>
          refine .nothing noCommand ?_
          intro other name' ends'
          obtain rfl := ends.name_unique ends'
          exact ⟨git, fun _ => registered⟩
    · rw [if_neg builtin]
      refine .nothing noCommand ?_
      intro other name' ends'
      obtain rfl := ends.name_unique ends'
      exact ⟨git, fun known => absurd known builtin⟩
  · have noOption : ∀ cursor name, ¬ EndsInOption line cursor name :=
      fun cursor name ends => option ⟨cursor, name, ends⟩
    unfold complete
    cases target : target? line with
    | none => exact .nothing (by simp [target]) fun cursor name ends => absurd ends (noOption _ _)
    | some cursor =>
        simp only [completeAt]
        by_cases command : cursor.isCommand = true
        · rw [if_pos command]
          exact .command target command
        have noCommand : ∀ other, target? line = some other → other.isCommand = false := by
          simpa [target] using command
        rw [if_neg command]
        split
        · next option =>
            rw [Bool.and_eq_true] at option
            cases owner : cursor.owner? with
            | none => exact .nothing noCommand fun _ _ ends => absurd ends (noOption _ _)
            | some owner' =>
                have ends : EndsInOption line cursor owner'.token.content :=
                  ⟨target, option.1, option.2, by simp [owner]⟩
                exact absurd ends (noOption _ _)
        · exact .nothing noCommand fun _ _ ends => absurd ends (noOption _ _)

/-- The line needs the help page of a git command. -/
def Wants (tools : Tools) (line name : Text) : Prop :=
  (∃ cursor, EndsInOption line cursor name) ∧ tools.catalog.isGit name = true

theorem Wants.name_unique {other : Text} (wants : tools.Wants line name)
    (wants' : tools.Wants line other) : name = other := by
  obtain ⟨⟨_, ends⟩, -⟩ := wants
  obtain ⟨⟨_, ends'⟩, -⟩ := wants'
  exact ends.name_unique ends'

/-- The inquiry that is made at some point. -/
def inquiry (tools : Tools) (name : Text) (journal : Journal) : Inquiry :=
  ⟨name, tools.git.capture journal.calls [name, "-h".toList]⟩

theorem helpOptions_fst (tools : Tools) (name : Text) (journal : Journal) :
    (tools.helpOptions name journal).1 = (tools.inquiry name journal).options := by
  unfold helpOptions Journal.capture inquiry
  cases answer : tools.git.capture journal.calls [name, "-h".toList] with
  | ok page => rfl
  | error reason => rfl

theorem helpOptions_calls (tools : Tools) (name : Text) (journal : Journal) :
    (tools.helpOptions name journal).2.calls =
      journal.calls ++ [(tools.inquiry name journal).call] := by
  unfold helpOptions Journal.capture inquiry
  cases answer : tools.git.capture journal.calls [name, "-h".toList] with
  | ok page => rfl
  | error reason => rfl

/-- The inquiries of a completer since `start`, and what it remembers of them. -/
structure Memory (tools : Tools) (start : Journal) (inquiries : List Inquiry) (pages : Pages)
    (journal : Journal) : Prop where
  pages : pages = Inquiry.pages inquiries
  calls : journal.calls = start.calls ++ inquiries.map Inquiry.call
  known : ∀ inquiry ∈ inquiries, tools.catalog.isGit inquiry.name = true
  answered : ∀ inquiry ∈ inquiries, ∃ calls,
    inquiry.answer = tools.git.capture calls [inquiry.name, "-h".toList]
  once : (inquiries.map Inquiry.name).Nodup

theorem Memory.fresh (tools : Tools) (start : Journal) : tools.Memory start [] [] start where
  pages := rfl
  calls := by simp
  known := by simp
  answered := by simp
  once := .nil

theorem Memory.inquire (memory : tools.Memory start inquiries pages journal)
    (known : tools.catalog.isGit name = true) (first : name ∉ inquiries.map Inquiry.name) :
    tools.Memory start (inquiries ++ [tools.inquiry name journal])
      ((name, (tools.inquiry name journal).options) :: pages)
      (tools.helpOptions name journal).2 where
  pages := by rw [Inquiry.pages_concat, ← memory.pages, inquiry]
  calls := by
    rw [helpOptions_calls, memory.calls, List.map_append, List.append_assoc]
    rfl
  known := by
    intro inquiry member
    rcases List.mem_append.mp member with old | new
    · exact memory.known inquiry old
    · obtain rfl := List.mem_singleton.mp new
      exact known
  answered := by
    intro inquiry member
    rcases List.mem_append.mp member with old | new
    · exact memory.answered inquiry old
    · obtain rfl := List.mem_singleton.mp new
      exact ⟨journal.calls, rfl⟩
  once := by
    rw [List.map_append, List.nodup_append]
    refine ⟨memory.once, by simp, ?_⟩
    intro old member new fresh
    obtain rfl := List.mem_singleton.mp fresh
    rintro rfl
    exact first member

/-- A page is remembered, or it is asked for and remembered from then on. -/
theorem Memory.recall (memory : tools.Memory start inquiries pages journal)
    (known : tools.catalog.isGit name = true) :
    ∃ new, tools.Memory start (inquiries ++ new) (tools.recalledOptions name pages journal).2.1
        (tools.recalledOptions name pages journal).2.2 ∧
      (∃ inquiry ∈ inquiries ++ new, inquiry.name = name ∧
        (tools.recalledOptions name pages journal).1 = inquiry.options) ∧
      ((new = [] ∧ name ∈ inquiries.map Inquiry.name) ∨
        ∃ inquiry, new = [inquiry] ∧ inquiry.name = name ∧ name ∉ inquiries.map Inquiry.name) := by
  unfold recalledOptions
  cases found : pages.lookup name with
  | some options =>
      rw [memory.pages] at found
      obtain ⟨inquiry, member, named, same⟩ := Inquiry.exists_of_lookup found
      refine ⟨[], by simpa using memory, ?_, .inl ⟨rfl, ?_⟩⟩
      · exact ⟨inquiry, by simpa using member, named, same.symm⟩
      · exact List.mem_map.mpr ⟨inquiry, member, named⟩
  | none =>
      rw [memory.pages] at found
      have first := Inquiry.not_mem_of_lookup found
      have options := tools.helpOptions_fst name journal
      refine ⟨[tools.inquiry name journal], ?_, ?_, .inr ⟨_, rfl, rfl, first⟩⟩
      · simpa [options] using memory.inquire known first
      · exact ⟨tools.inquiry name journal, by simp, rfl, options⟩

/-- What a line adds to the inquiries: one if it is the first to need a page. -/
def Adds (tools : Tools) (inquiries : List Inquiry) (line : Text) (new : List Inquiry) : Prop :=
  (new = [] ∧ ∀ name, tools.Wants line name → name ∈ inquiries.map Inquiry.name) ∨
    ∃ inquiry, new = [inquiry] ∧ tools.Wants line inquiry.name ∧
      inquiry.name ∉ inquiries.map Inquiry.name

theorem adds_nothing (unwanted : ∀ name, ¬ tools.Wants line name) :
    tools.Adds inquiries line [] :=
  .inl ⟨rfl, fun name wants => absurd wants (unwanted name)⟩

theorem Adds.mem_names_iff {new : List Inquiry} (added : tools.Adds inquiries line new) :
    name ∈ (inquiries ++ new).map Inquiry.name ↔
      name ∈ inquiries.map Inquiry.name ∨ tools.Wants line name := by
  rcases added with ⟨rfl, remembered⟩ | ⟨inquiry, rfl, wants, -⟩
  · rw [List.append_nil]
    exact (or_iff_left_of_imp (remembered name)).symm
  · have alone : name ∈ [inquiry].map Inquiry.name ↔ tools.Wants line name := by
      constructor
      · intro named
        obtain rfl : name = inquiry.name := by simpa using named
        exact wants
      · intro wants'
        simp [wants'.name_unique wants]
    rw [List.map_append, List.mem_append, alone]

theorem Memory.complete (memory : tools.Memory start inquiries pages journal) (line : Text) :
    ∃ new, tools.Memory start (inquiries ++ new) (tools.complete line pages journal).2.1
        (tools.complete line pages journal).2.2 ∧ tools.Adds inquiries line new := by
  have way := completed tools line pages journal
  generalize tools.complete line pages journal = result at way ⊢
  cases way with
  | command target command =>
      refine ⟨[], by simpa using memory, adds_nothing ?_⟩
      rintro name ⟨⟨cursor, ends⟩, -⟩
      obtain rfl := ends.cursor_unique target
      simp [ends.isCommand_eq_false] at command
  | page ends known =>
      obtain ⟨new, memory, -, ⟨rfl, remembered⟩ | ⟨inquiry, rfl, rfl, first⟩⟩ := memory.recall known
      · refine ⟨[], memory, .inl ⟨rfl, ?_⟩⟩
        rintro name ⟨⟨_, ends'⟩, -⟩
        rwa [ends'.name_unique ends]
      · exact ⟨[inquiry], memory, .inr ⟨inquiry, rfl, ⟨⟨_, ends⟩, known⟩, first⟩⟩
  | manual ends other =>
      refine ⟨[], by simpa using memory, adds_nothing ?_⟩
      rintro name ⟨⟨_, ends'⟩, known⟩
      rw [ends'.name_unique ends, other] at known
      exact absurd known (by decide)
  | nothing noCommand noOption =>
      refine ⟨[], by simpa using memory, adds_nothing ?_⟩
      rintro name ⟨⟨cursor, ends⟩, known⟩
      rw [(noOption cursor name ends).1] at known
      exact absurd known (by decide)

/-- Completes lines, one after the other. -/
def completeEach (tools : Tools) : List Text → Pages → Journal →
    List (Option (List Text)) × Pages × Journal
  | [], pages, journal => ([], pages, journal)
  | line :: lines, pages, journal =>
      let (completions, pages, journal) := tools.complete line pages journal
      let (later, pages, journal) := tools.completeEach lines pages journal
      (completions :: later, pages, journal)

theorem completeEach_concat (tools : Tools) (lines : List Text) (line : Text) (pages : Pages)
    (journal : Journal) :
    (tools.completeEach (lines ++ [line]) pages journal).2 =
      (tools.complete line (tools.completeEach lines pages journal).2.1
        (tools.completeEach lines pages journal).2.2).2 := by
  induction lines generalizing pages journal with
  | nil => rfl
  | cons first lines ih =>
      simp only [List.cons_append, completeEach]
      exact ih _ _

theorem Memory.completeEach (memory : tools.Memory start inquiries pages journal)
    (lines : List Text) :
    ∃ new, tools.Memory start (inquiries ++ new) (tools.completeEach lines pages journal).2.1
        (tools.completeEach lines pages journal).2.2 ∧
      ∀ name, name ∈ (inquiries ++ new).map Inquiry.name ↔
        name ∈ inquiries.map Inquiry.name ∨ ∃ line ∈ lines, tools.Wants line name := by
  induction lines generalizing inquiries pages journal with
  | nil => exact ⟨[], by simpa [Tools.completeEach] using memory, by simp⟩
  | cons line lines ih =>
      obtain ⟨new, memory, added⟩ := memory.complete line
      obtain ⟨later, memory, names⟩ := ih memory
      refine ⟨new ++ later, by simpa [Tools.completeEach] using memory, ?_⟩
      intro name
      rw [← List.append_assoc, names, added.mem_names_iff, or_assoc]
      simp

theorem exists_memory (tools : Tools) (lines : List Text) (start : Journal) :
    ∃ inquiries, tools.Memory start inquiries (tools.completeEach lines [] start).2.1
        (tools.completeEach lines [] start).2.2 ∧
      ∀ name, name ∈ inquiries.map Inquiry.name ↔ ∃ line ∈ lines, tools.Wants line name := by
  obtain ⟨inquiries, memory, names⟩ := (Memory.fresh tools start).completeEach lines
  exact ⟨inquiries, memory, by simpa using names⟩

/-- The options offered for a git command are those of a page that git has shown. -/
theorem Memory.exists_page (memory : tools.Memory start inquiries pages journal)
    (ends : EndsInOption line cursor name) (known : tools.catalog.isGit name = true)
    {candidates : List Text} (offered : (tools.complete line pages journal).1 = some candidates) :
    ∃ page made, (tools.complete line pages journal).2.2.calls = start.calls ++ made ∧
      .capture [name, "-h".toList] (.ok page) ∈ made ∧
      candidates = matching cursor.token.raw (longOptions page) := by
  rw [complete_of_option ends, commandOptions, if_pos known] at offered ⊢
  obtain ⟨new, memory, ⟨inquiry, member, rfl, found⟩, -⟩ := memory.recall known
  rw [found, Inquiry.options] at offered
  cases answer : inquiry.answer with
  | error reason => simp [answer, Except.toOption] at offered
  | ok page =>
      have called : inquiry.call ∈ (inquiries ++ new).map Inquiry.call :=
        List.mem_map_of_mem member
      rw [Inquiry.call, answer] at called
      simp only [answer, Except.toOption, Option.map_some, Option.some.injEq] at offered
      exact ⟨page, _, memory.calls, called, offered.symm⟩

/-- The options offered for any other command are those of a built-in, and git has no
part in it. -/
theorem exists_builtin (ends : EndsInOption line cursor name)
    (other : tools.catalog.isGit name = false) {candidates : List Text}
    (offered : (tools.complete line pages journal).1 = some candidates) :
    ∃ builtin, tools.registry.get? name = some builtin ∧
      tools.complete line pages journal =
        (some (matching cursor.token.raw builtin.optionNames), pages, journal) := by
  rw [complete_of_option ends, commandOptions, other, if_neg Bool.false_ne_true] at offered ⊢
  by_cases known : tools.catalog.isBuiltin name = true
  · rw [if_pos known] at offered ⊢
    cases registered : tools.registry.get? name with
    | none => simp [registered] at offered
    | some builtin => exact ⟨builtin, rfl, rfl⟩
  · simp [known] at offered

/-- Git answers a question in the same way each time. -/
def Steady (git : Git.Backend) : Prop :=
  ∀ calls calls' arguments, git.capture calls arguments = git.capture calls' arguments

theorem Memory.recalledOptions_eq (memory : tools.Memory start inquiries pages journal)
    (steady : Steady tools.git) (known : tools.catalog.isGit name = true) :
    (tools.recalledOptions name pages journal).1 =
      (tools.git.capture [] [name, "-h".toList]).toOption.map longOptions := by
  obtain ⟨new, memory, ⟨inquiry, member, rfl, found⟩, -⟩ := memory.recall known
  obtain ⟨calls, answer⟩ := memory.answered inquiry member
  rw [found, Inquiry.options, answer, steady calls []]

/-- Two completers that find the same options complete in the same way. -/
theorem complete_fst_congr {pages' : Pages} {journal' : Journal}
    (same : ∀ name, tools.catalog.isGit name = true →
      (tools.recalledOptions name pages journal).1 =
        (tools.recalledOptions name pages' journal').1) :
    (tools.complete line pages journal).1 = (tools.complete line pages' journal').1 := by
  unfold complete
  cases target? line with
  | none => rfl
  | some cursor =>
      simp only [completeAt]
      split
      · rfl
      split
      · cases cursor.owner? with
        | none => rfl
        | some owner =>
            simp only [commandOptions]
            by_cases known : tools.catalog.isGit owner.token.content = true
            · rw [if_pos known, if_pos known, same _ known]
            · rw [if_neg known, if_neg known]
              split <;> rfl
      · rfl

theorem Memory.complete_fst (memory : tools.Memory start inquiries pages journal)
    (steady : Steady tools.git) (line : Text) (other : Journal) :
    (tools.complete line pages journal).1 = (tools.complete line [] other).1 := by
  apply complete_fst_congr
  intro name known
  rw [memory.recalledOptions_eq steady known,
    (Memory.fresh tools other).recalledOptions_eq steady known]

theorem Memory.completeEach_fst (memory : tools.Memory start inquiries pages journal)
    (steady : Steady tools.git) (lines : List Text) (other : Journal) :
    (tools.completeEach lines pages journal).1 =
      lines.map fun line => (tools.complete line [] other).1 := by
  induction lines generalizing inquiries pages journal with
  | nil => rfl
  | cons line lines ih =>
      obtain ⟨new, after, -⟩ := memory.complete line
      rw [List.map_cons, ← memory.complete_fst steady line, ← ih after]
      rfl

end Tools

open Tools

/-- What a completer remembers saves calls and has no other effect. Only help pages of
git commands are asked for, each by the first line that needs it. -/
theorem remembered_pages_only_save_calls (tools : Tools) (steady : Steady tools.git)
    (start : Journal) :
    (∀ lines other, (tools.completeEach lines [] start).1 =
      lines.map fun line => (tools.complete line [] other).1) ∧
    (∀ lines, ∃ inquiries : List Inquiry,
      (tools.completeEach lines [] start).2.2.calls =
        start.calls ++ inquiries.map Inquiry.call ∧
      (∀ inquiry ∈ inquiries, tools.catalog.isGit inquiry.name = true) ∧
      (inquiries.map Inquiry.name).Nodup) ∧
    ∀ earlier line,
      (∀ name, tools.Wants line name → (∀ previous ∈ earlier, ¬ tools.Wants previous name) →
        (tools.completeEach (earlier ++ [line]) [] start).2.2.calls =
          (tools.completeEach earlier [] start).2.2.calls ++
            [.capture [name, "-h".toList] (tools.git.capture [] [name, "-h".toList])]) ∧
      ((∀ name, tools.Wants line name → ∃ previous ∈ earlier, tools.Wants previous name) →
        (tools.completeEach (earlier ++ [line]) [] start).2.2.calls =
          (tools.completeEach earlier [] start).2.2.calls) := by
  refine ⟨fun lines other => (Memory.fresh tools start).completeEach_fst steady lines other, ?_, ?_⟩
  · intro lines
    obtain ⟨inquiries, memory, -⟩ := tools.exists_memory lines start
    exact ⟨inquiries, memory.calls, memory.known, memory.once⟩
  · intro earlier line
    obtain ⟨inquiries, memory, names⟩ := tools.exists_memory earlier start
    obtain ⟨new, after, added⟩ := memory.complete line
    have grown : (tools.completeEach (earlier ++ [line]) [] start).2.2.calls =
        (tools.completeEach earlier [] start).2.2.calls ++ new.map Inquiry.call := by
      rw [tools.completeEach_concat, after.calls, memory.calls, List.map_append,
        List.append_assoc]
    rw [grown]
    rcases added with ⟨rfl, remembered⟩ | ⟨inquiry, rfl, wants, first⟩
    · refine ⟨fun name wants unasked => ?_, fun _ => List.append_nil _⟩
      obtain ⟨previous, member, wanted⟩ := (names name).mp (remembered name wants)
      exact absurd wanted (unasked previous member)
    · constructor
      · intro name wants' _
        obtain rfl := wants'.name_unique wants
        obtain ⟨calls, answer⟩ := after.answered inquiry (by simp)
        rw [List.map_singleton, Inquiry.call, answer, steady calls []]
      · intro asked
        exact absurd ((names _).mpr (asked _ wants)) first

theorem missing_page_is_asked_for_once :
    Steady (.missing [] ['n', 'o']) ∧
    (Tools.completeEach ⟨.ofLists [] [['a']], .empty, .missing [] ['n', 'o']⟩
      [['a', ' ', '-', '-', 'x'], ['a', ' ', '-', '-']] [] (.start .unbounded)).2.2.calls =
        [.capture [['a'], ['-', 'h']] (.error ['n', 'o'])] := by
  have steady : Steady (.missing [] ['n', 'o']) := fun _ _ _ => rfl
  have ends : EndsInOption ['a', ' ', '-', '-', 'x']
      ⟨[⟨.word, ['a'], ['a'], none, true, ⟨0, 1⟩⟩],
        ⟨.word, ['-', '-', 'x'], ['-', '-', 'x'], none, true, ⟨2, 5⟩⟩, []⟩ ['a'] :=
    ⟨by decide +kernel, by decide, by decide, by decide⟩
  have ends' : EndsInOption ['a', ' ', '-', '-']
      ⟨[⟨.word, ['a'], ['a'], none, true, ⟨0, 1⟩⟩],
        ⟨.word, ['-', '-'], ['-', '-'], none, true, ⟨2, 4⟩⟩, []⟩ ['a'] :=
    ⟨by decide +kernel, by decide, by decide, by decide⟩
  obtain ⟨-, -, turns⟩ := remembered_pages_only_save_calls
    ⟨.ofLists [] [['a']], .empty, .missing [] ['n', 'o']⟩ steady (.start .unbounded)
  have wants : Tools.Wants ⟨.ofLists [] [['a']], .empty, .missing [] ['n', 'o']⟩
      ['a', ' ', '-', '-', 'x'] ['a'] := ⟨⟨_, ends⟩, by decide⟩
  have first := (turns [] ['a', ' ', '-', '-', 'x']).1 ['a'] wants (by simp)
  have second := (turns [['a', ' ', '-', '-', 'x']] ['a', ' ', '-', '-']).2 (by
    rintro name ⟨⟨_, other⟩, -⟩
    obtain rfl := other.name_unique ends'
    exact ⟨_, by simp, wants⟩)
  exact ⟨steady, second.trans first⟩

end LineShell
