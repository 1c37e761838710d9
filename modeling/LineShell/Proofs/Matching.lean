import LineShell.Builtin.Standard
import LineShell.Proofs.Accepting
import LineShell.Proofs.Collating

namespace LineShell

/-! Which completions a line has.

There are some to speak of where the line ends in a command, or in a long option of a
command whose options can be had. They are the names that go on from what was typed, each
once, the shorter ones first. Which names may do so is said of the sets of the catalog, of
the options of a page and of those in a manual, not of the lists that are made from them.
-/

open Completion (matching)
open Git.HelpPage (isLong longOptions)
open Token (scan)

namespace Completion

variable {left middle right typed name : Text} {names candidates candidates' : List Text}
  {wanted : Text → Prop}

/-- The shorter text in bytes, and of two of one length the one with the lesser bytes. -/
def Before (left right : Text) : Prop :=
  (Utf8.encode left).length < (Utf8.encode right).length ∨
    (Utf8.encode left).length = (Utf8.encode right).length ∧
      Utf8.encode left < Utf8.encode right

theorem before_iff :
    Before left right ↔ left.byteSize < right.byteSize ∨
      left.byteSize = right.byteSize ∧ left < right := by
  rw [Before, Utf8.length_encode, Utf8.length_encode, Utf8.encode_lt_encode_iff]

theorem Before.trans (first : Before left middle) (second : Before middle right) :
    Before left right := by
  rw [before_iff] at *
  rcases first with shorter | ⟨even, less⟩
  · exact .inl (by omega)
  · rcases second with shorter | ⟨even', less'⟩
    · exact .inl (by omega)
    · exact .inr ⟨even.trans even', List.lt_trans less less'⟩

theorem Before.irrefl (text : Text) : ¬ Before text text := by
  intro before
  rcases before_iff.mp before with shorter | ⟨-, less⟩
  · exact Nat.lt_irrefl text.byteSize shorter
  · exact List.lt_irrefl text less

theorem Before.asymm (first : Before left right) : ¬ Before right left :=
  fun second => irrefl left (first.trans second)

theorem precedes_iff : precedes left right = true ↔ Before left right ∨ left = right := by
  have order : ¬ right < left ↔ left < right ∨ left = right := by
    rw [List.not_lt, List.le_iff_lt_or_eq]
  rw [before_iff]
  simp only [precedes, Bool.or_eq_true, decide_eq_true_eq, Bool.and_eq_true, beq_iff_eq,
    Bool.not_eq_true', decide_eq_false_iff_not, order]
  constructor
  · intro found
    rcases found with shorter | ⟨even, less | same⟩
    · exact .inl (.inl shorter)
    · exact .inl (.inr ⟨even, less⟩)
    · exact .inr same
  · intro found
    rcases found with (shorter | ⟨even, less⟩) | rfl
    · exact .inl shorter
    · exact .inr ⟨even, .inl less⟩
    · exact .inr ⟨rfl, .inr rfl⟩

theorem before_or_eq_or_before (left right : Text) :
    Before left right ∨ left = right ∨ Before right left := by
  simp only [before_iff]
  by_cases even : left.byteSize = right.byteSize
  · by_cases less : left < right
    · exact .inl (.inr ⟨even, less⟩)
    · rcases List.le_iff_lt_or_eq.mp (List.not_lt.mp less) with less | same
      · exact .inr (.inr (.inr ⟨even.symm, less⟩))
      · exact .inr (.inl same.symm)
  · rcases Nat.lt_or_gt_of_ne even with shorter | longer
    · exact .inl (.inl shorter)
    · exact .inr (.inr (.inl longer))

/-- Equal names stand next to each other in an ordered list, so that dropping repeats leaves
each name once. -/
theorem before_dropRepeats (ordered : names.Pairwise (precedes · · = true)) :
    (dropRepeats names).Pairwise Before := by
  fun_induction dropRepeats names with
  | case1 => exact .nil
  | case2 name => exact List.pairwise_singleton Before name
  | case3 next more ih => exact ih ordered.of_cons
  | case4 name next more different ih =>
      obtain ⟨first, ordered⟩ := List.pairwise_cons.mp ordered
      refine List.pairwise_cons.mpr ⟨?_, ih ordered⟩
      intro other member
      rw [mem_dropRepeats] at member
      have before : Before name next :=
        (precedes_iff.mp (first next (.head _))).resolve_right different
      rcases List.mem_cons.mp member with rfl | member
      · exact before
      · obtain ⟨second, -⟩ := List.pairwise_cons.mp ordered
        rcases precedes_iff.mp (second other member) with later | rfl
        · exact before.trans later
        · exact before

/-- The wanted names that go on from what was typed, without being it, once each and in order. -/
structure Lists (typed : Text) (wanted : Text → Prop) (candidates : List Text) : Prop where
  ordered : candidates.Pairwise Before
  mem_iff : ∀ name, name ∈ candidates ↔ wanted name ∧ typed <+: name ∧ name ≠ typed

theorem lists_matching (typed : Text) (among : ∀ name, name ∈ names ↔ wanted name) :
    Lists typed wanted (matching typed names) where
  ordered := by
    apply before_dropRepeats
    apply List.pairwise_mergeSort
    · intro left middle right first second
      rw [precedes_iff] at *
      rcases first with first | rfl
      · rcases second with second | rfl
        · exact .inl (first.trans second)
        · exact .inl first
      · exact second
    · intro left right
      rw [Bool.or_eq_true, precedes_iff, precedes_iff]
      rcases before_or_eq_or_before left right with before | same | after
      · exact .inl (.inl before)
      · exact .inl (.inr same)
      · exact .inr (.inl after)
  mem_iff name := by rw [mem_matching, among]

/-- An ordered list is known by its members. -/
theorem Lists.unique (lists : Lists typed wanted candidates)
    (lists' : Lists typed wanted candidates') : candidates = candidates' := by
  have once {list : List Text} (ordered : list.Pairwise Before) : list.Nodup := by
    apply ordered.imp
    intro name other before same
    exact Before.irrefl name (same ▸ before)
  have perm : candidates.Perm candidates' := by
    rw [List.perm_ext_iff_of_nodup (once lists.ordered) (once lists'.ordered)]
    intro name
    rw [lists.mem_iff, lists'.mem_iff]
  apply perm.eq_of_pairwise _ lists.ordered lists'.ordered
  intro left right _ _ before after
  exact absurd after before.asymm

/-- When more was typed, those stay that go on from the longer text. -/
theorem Lists.append (lists : Lists typed wanted candidates) (more : Text) :
    Lists (typed ++ more) wanted
      (candidates.filter fun name => (typed ++ more).isPrefixOf name && name ≠ typed ++ more) := by
  refine ⟨lists.ordered.filter _, ?_⟩
  intro name
  rw [List.mem_filter, lists.mem_iff, Bool.and_eq_true, List.isPrefixOf_iff_prefix,
    decide_eq_true_eq]
  constructor
  · intro found
    exact ⟨found.1.1, found.2⟩
  · intro ⟨listed, longer, other⟩
    refine ⟨⟨listed, (List.prefix_append typed more).trans longer, ?_⟩, longer, other⟩
    intro same
    apply other
    rw [same] at longer ⊢
    exact List.IsPrefix.eq_of_length_le (List.prefix_append typed more) longer.length_le

end Completion

open Completion (Lists lists_matching)

/-- The line ends with the token where the cursor stands. -/
structure EndsAt (line : Text) (cursor : Cursor) : Prop where
  unblank : ∀ c, line.getLast? = some c → Text.isBlank c = false
  last : Cursor.last? (scan line) = some cursor
  touching : cursor.token.span.stop = line.byteSize

/-- Which names may go on from the token: those of commands for a command, and for a long
option the long ones on the help page, or those in the manual, of the command it belongs to. -/
inductive Source (tools : Tools) (journal : Journal) (cursor : Cursor) : (Text → Prop) → Prop where
  | command (command : cursor.isCommand = true) :
      Source tools journal cursor fun name =>
        name ∈ tools.catalog.builtin.toList ∨ name ∈ tools.catalog.git.toList
  | page {owner : Cursor} {page : Text} (option : cursor.isOption = true)
      (long : ['-', '-'] <+: cursor.token.raw) (owned : cursor.owner? = some owner)
      (known : owner.token.content ∈ tools.catalog.git.toList)
      (captured : tools.git.capture journal.calls [owner.token.content, "-h".toList] = .ok page) :
      Source tools journal cursor fun name =>
        name ∈ Git.HelpPage.options page ∧ ['-', '-'] <+: name
  | manual {owner : Cursor} {builtin : Builtin} (option : cursor.isOption = true)
      (long : ['-', '-'] <+: cursor.token.raw) (owned : cursor.owner? = some owner)
      (foreign : owner.token.content ∉ tools.catalog.git.toList)
      (known : owner.token.content ∈ tools.catalog.builtin.toList)
      (registered : tools.registry.get? owner.token.content = some builtin) :
      Source tools journal cursor fun name => ∃ option ∈ builtin.options, option.name = name

theorem Manual.mem_optionNames_iff {manual : Manual} {name : Text} :
    name ∈ manual.optionNames ↔ ∃ option ∈ manual.options, option.name = name :=
  List.mem_map

theorem Git.HelpPage.isLong_iff {option : Text} : isLong option = true ↔ ['-', '-'] <+: option :=
  List.isPrefixOf_iff_prefix

theorem Git.HelpPage.mem_longOptions_iff {page option : Text} :
    option ∈ longOptions page ↔ option ∈ options page ∧ ['-', '-'] <+: option := by
  rw [longOptions, List.mem_filter, isLong_iff]

theorem Text.endsBlank_eq_false_iff {line : Text} :
    endsBlank line = false ↔ ∀ c, line.getLast? = some c → isBlank c = false := by
  cases last : line.getLast? <;> simp [endsBlank, last]

/-- Nothing follows the last token exactly if it ends where the line does. -/
theorem Token.trailing_eq_nil_iff {line : Text} {last : Token}
    (ended : (scan line).getLast? = some last) :
    Cursor.trailing (scan line) line = [] ↔ last.span.stop = line.byteSize := by
  obtain ⟨place, read, here, -⟩ := (layout_scan line).exists_last (.whole line) ended
  have size := (read.restAt here).byteSize
  constructor
  · intro nothing
    rw [nothing] at size
    exact size.symm
  · intro ends
    apply Decidable.byContradiction
    intro something
    have positive := Text.byteSize_pos something
    omega

namespace Tools

variable {tools : Tools} {line : Text} {cursor : Cursor} {journal : Journal}
  {candidates : List Text} {wanted : Text → Prop}

theorem target?_eq_some_iff : target? line = some cursor ↔ EndsAt line cursor := by
  constructor
  · intro target
    obtain ⟨earlier, tokens, here, touching⟩ := exists_of_target? target
    have unblank : Text.endsBlank line = false := by
      rw [← Bool.not_eq_true]
      intro blank
      simp [target?, blank] at target
    have ended : (scan line).getLast? = some cursor.token := by simp [tokens]
    refine ⟨Text.endsBlank_eq_false_iff.mp unblank, ?_,
      (Token.trailing_eq_nil_iff ended).mp touching⟩
    rw [tokens, here, Cursor.last?_concat]
  · intro ends
    have unblank := Text.endsBlank_eq_false_iff.mpr ends.unblank
    obtain ⟨earlier, token, tokens⟩ : ∃ earlier token, scan line = earlier ++ [token] := by
      rcases List.eq_nil_or_concat (scan line) with nothing | ⟨earlier, token, tokens⟩
      · have last := ends.last
        simp [nothing, Cursor.last?, Cursor.all, Cursor.allFrom] at last
      · exact ⟨earlier, token, by rw [tokens, List.concat_eq_append]⟩
    have last := ends.last
    rw [tokens, Cursor.last?_concat] at last
    obtain rfl := Option.some.inj last
    have ended : (scan line).getLast? = some token := by simp [tokens]
    have touching := (Token.trailing_eq_nil_iff ended).mpr ends.touching
    rw [tokens, Cursor.trailing_concat] at touching
    simp [target?, unblank, tokens, Cursor.last?_concat, Cursor.suffix?, Cursor.isLast, touching]

theorem recalledOptions_nil (name : Text) (journal : Journal) :
    (tools.recalledOptions name [] journal).1 =
      (tools.git.capture journal.calls [name, "-h".toList]).toOption.map longOptions := by
  rw [recalledOptions, List.lookup_nil]
  exact tools.helpOptions_fst name journal

theorem exists_source (offered : (tools.complete line [] journal).1 = some candidates) :
    ∃ cursor wanted, EndsAt line cursor ∧ Source tools journal cursor wanted ∧
      Lists cursor.token.raw wanted candidates := by
  have way := completed tools line [] journal
  generalize tools.complete line [] journal = result at way offered
  cases way with
  | command target command =>
      obtain rfl := Option.some.inj offered
      exact ⟨_, _, target?_eq_some_iff.mp target, .command command,
        lists_matching _ fun _ => Catalog.mem_names_iff⟩
  | page ends known =>
      obtain ⟨owner, owned, rfl⟩ := Option.map_eq_some_iff.mp ends.owner
      obtain ⟨options, found, rfl⟩ := Option.map_eq_some_iff.mp offered
      rw [recalledOptions_nil] at found
      cases captured : tools.git.capture journal.calls [owner.token.content, "-h".toList] with
      | error reason =>
          rw [captured] at found
          contradiction
      | ok page =>
          rw [captured] at found
          obtain rfl := Option.some.inj found
          refine ⟨_, _, target?_eq_some_iff.mp ends.target, ?_,
            lists_matching _ fun _ => Git.HelpPage.mem_longOptions_iff⟩
          exact .page ends.option (Git.HelpPage.isLong_iff.mp ends.long) owned
            (Catalog.isGit_iff.mp known) captured
  | manual ends foreign known registered =>
      obtain ⟨owner, owned, rfl⟩ := Option.map_eq_some_iff.mp ends.owner
      obtain rfl := Option.some.inj offered
      refine ⟨_, _, target?_eq_some_iff.mp ends.target, ?_,
        lists_matching _ fun _ => Manual.mem_optionNames_iff⟩
      exact .manual ends.option (Git.HelpPage.isLong_iff.mp ends.long) owned
        (by simp [← Catalog.isGit_iff, foreign]) (Catalog.isBuiltin_iff.mp known) registered
  | nothing => contradiction

theorem complete_of_source (ends : EndsAt line cursor)
    (source : Source tools journal cursor wanted) :
    ∃ candidates, (tools.complete line [] journal).1 = some candidates ∧
      Lists cursor.token.raw wanted candidates := by
  have target := target?_eq_some_iff.mpr ends
  have inOption {owner : Cursor} (option : cursor.isOption = true)
      (long : ['-', '-'] <+: cursor.token.raw) (owned : cursor.owner? = some owner) :
      EndsInOption line cursor owner.token.content :=
    ⟨target, option, Git.HelpPage.isLong_iff.mpr long, by simp [owned]⟩
  cases source with
  | command command =>
      refine ⟨_, ?_, lists_matching _ fun _ => Catalog.mem_names_iff⟩
      simp [complete, target, completeAt, command]
  | @page owner page option long owned known captured =>
      refine ⟨_, ?_, lists_matching _ fun _ => Git.HelpPage.mem_longOptions_iff⟩
      rw [complete_of_option (inOption option long owned), commandOptions,
        if_pos (Catalog.isGit_iff.mpr known), recalledOptions_nil, captured]
      rfl
  | @manual owner builtin option long owned foreign known registered =>
      refine ⟨_, ?_, lists_matching _ fun _ => Manual.mem_optionNames_iff⟩
      rw [complete_of_option (inOption option long owned), commandOptions,
        if_neg (mt Catalog.isGit_iff.mp foreign), if_pos (Catalog.isBuiltin_iff.mpr known),
        registered]
      rfl

end Tools

/-- A line has completions to speak of exactly where it ends at a token with a source of
names. They are the names of the source that go on from the text of the token, each once,
ordered by length and then by bytes. -/
theorem completions_are_the_matching_names (tools : Tools) (line : Text) (journal : Journal) :
    ((tools.complete line [] journal).1.isSome = true ↔
      ∃ cursor wanted, EndsAt line cursor ∧ Source tools journal cursor wanted) ∧
    ∀ candidates, (tools.complete line [] journal).1 = some candidates ↔
      ∃ cursor wanted, EndsAt line cursor ∧ Source tools journal cursor wanted ∧
        Lists cursor.token.raw wanted candidates := by
  refine ⟨⟨fun some => ?_, fun ⟨cursor, wanted, ends, source⟩ => ?_⟩,
    fun candidates => ⟨Tools.exists_source, fun ⟨cursor, wanted, ends, source, lists⟩ => ?_⟩⟩
  · obtain ⟨candidates, offered⟩ := Option.isSome_iff_exists.mp some
    obtain ⟨cursor, wanted, ends, source, -⟩ := Tools.exists_source offered
    exact ⟨cursor, wanted, ends, source⟩
  · obtain ⟨candidates, offered, -⟩ := Tools.complete_of_source ends source
    exact Option.isSome_iff_exists.mpr ⟨candidates, offered⟩
  · obtain ⟨candidates', offered, lists'⟩ := Tools.complete_of_source ends source
    rw [offered, lists'.unique lists]

/-- Commands, the options on a page and those of a built-in are offered, each in its place. What
was typed already is not, nor are the names that it does not begin. -/
theorem commands_and_options_are_offered :
    let page := "usage: git log\n    -p, --patch  show it\n    --[no-]pretty[=<format>]".toList
    let tools : Tools := ⟨
      .ofLists [":help".toList] (["show", "log", "sh", "status"].map String.toList), .standard,
      ⟨none, fun _ _ => ⟨.ok 0, [], []⟩, fun _ _ => .ok page⟩⟩
    let offers (line : String) (candidates : List String) : Prop :=
      (tools.complete line.toList [] (.start .unbounded)).1 =
          some (candidates.map String.toList) ∧
        ∃ cursor wanted, EndsAt line.toList cursor ∧
          Source tools (.start .unbounded) cursor wanted ∧
          Lists cursor.token.raw wanted (candidates.map String.toList)
    offers "log && sh" ["show"] ∧ offers "log --pa" ["--patch"] ∧
      offers ":help --a" ["--all"] := by
  intro page tools offers
  have offered (line : String) (candidates : List String)
      (found : (tools.complete line.toList [] (.start .unbounded)).1 =
        some (candidates.map String.toList)) : offers line candidates :=
    ⟨found, ((completions_are_the_matching_names tools _ _).2 _).mp found⟩
  exact ⟨offered _ _ (by decide +kernel), offered _ _ (by decide +kernel),
    offered _ _ (by decide +kernel)⟩

end LineShell
