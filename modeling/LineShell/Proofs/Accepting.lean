import LineShell.Git.Script
import LineShell.Proofs.Completing
import LineShell.Proofs.Extent
import LineShell.Proofs.Growth
import LineShell.Proofs.Quoting

namespace LineShell

/-! Lines with a completion accepted.

A completion goes on from what was typed, so that the line with it in place of its last
word is a longer line. If none of its characters means anything to the reader, that line
has the tokens it had before, and the completion as its last word stands in the same
place, as a command or an option.
-/

open Completion (matching)
open Spelling (isBare)
open Token (Word endsWord scan scanFrom)

namespace Completion

theorem mem_dropRepeats {name : Text} {names : List Text} :
    name ∈ dropRepeats names ↔ name ∈ names := by
  fun_induction dropRepeats names with
  | case1 => rfl
  | case2 => rfl
  | case3 next names ih =>
      rw [ih]
      simp
  | case4 head next names different ih => rw [List.mem_cons, ih, List.mem_cons (b := head)]

theorem mem_matching {typed name : Text} {names : List Text} :
    name ∈ matching typed names ↔ name ∈ names ∧ typed <+: name ∧ name ≠ typed := by
  simp [matching, mem_dropRepeats]

end Completion

namespace Git.HelpPage

/-- What a page can list as an option: a dash with a letter or digit, or two dashes with
a name. -/
inductive Named : Text → Prop where
  | short (c : Char) (alphanumeric : c.isAlphanum = true) : Named ['-', c]
  | long (text : Text) (something : text ≠ []) (plain : ∀ c ∈ text, isNameChar c = true) :
      Named (dashes ++ text)

theorem isNameChar_of_mem_name {text : Text} : ∀ c ∈ name text, isNameChar c = true :=
  List.all_eq_true.mp List.all_takeWhile

theorem named_of_mem_expand {spelling option : Text} (member : option ∈ expand spelling) :
    Named option := by
  unfold expand at member
  cases negated : Text.afterLead? negatable spelling with
  | some rest =>
      simp only [negated] at member
      split at member
      · simp at member
      · next something =>
          have plain := @isNameChar_of_mem_name rest
          rcases List.mem_cons.mp member with rfl | member
          · exact .long _ (by simpa using something) plain
          · obtain rfl := List.mem_singleton.mp member
            rw [List.append_assoc]
            refine .long _ (by simp) ?_
            intro c among
            rcases List.mem_append.mp among with negation | among
            · have negation : c = 'n' ∨ c = 'o' ∨ c = '-' := by simpa using negation
              rcases negation with rfl | rfl | rfl <;> decide
            · exact plain c among
  | none =>
      simp only [negated] at member
      cases long : Text.afterLead? dashes spelling with
      | some rest =>
          simp only [long] at member
          split at member
          · simp at member
          · next something =>
              obtain rfl := List.mem_singleton.mp member
              exact .long _ (by simpa using something) isNameChar_of_mem_name
      | none =>
          simp only [long] at member
          split at member
          · split at member
            · next alphanumeric =>
                obtain rfl := List.mem_singleton.mp member
                exact .short _ alphanumeric
            · simp at member
          · simp at member

theorem named_of_mem_options {page option : Text} (member : option ∈ options page) :
    Named option := by
  rcases Distinct.mem_extend.mp member with none | listed
  · simp at none
  · obtain ⟨line, -, listed⟩ := List.mem_flatMap.mp listed
    obtain ⟨spelling, -, listed⟩ := List.mem_flatMap.mp listed
    exact named_of_mem_expand listed

theorem isBare_of_isNameChar {c : Char} (plain : isNameChar c = true) : isBare c = true := by
  apply ShellQuoted.isBare_of_isPlain
  simp only [isNameChar, Bool.or_eq_true, decide_eq_true_eq] at plain
  rcases plain with alphanumeric | rfl
  · simp [ShellQuoted.isPlain, alphanumeric]
  · decide

theorem Named.isBare {option : Text} (named : Named option) : ∀ c ∈ option, isBare c = true := by
  intro c member
  apply isBare_of_isNameChar
  cases named with
  | short d alphanumeric =>
      rcases List.mem_cons.mp member with rfl | member
      · decide
      · obtain rfl := List.mem_singleton.mp member
        simp [isNameChar, alphanumeric]
  | long text something plain =>
      rcases List.mem_append.mp member with dash | among
      · have dash : c = '-' := by simpa [dashes] using dash
        rw [dash]
        decide
      · exact plain c among

end Git.HelpPage

namespace Cursor

theorem exists_allFrom_concat (before earlier : List Token) (last : Token) :
    ∃ front, allFrom before (earlier ++ [last]) =
      front ++ [⟨earlier.reverse ++ before, last, []⟩] := by
  induction earlier generalizing before with
  | nil => exact ⟨[], rfl⟩
  | cons token earlier ih =>
      obtain ⟨front, split⟩ := ih (token :: before)
      refine ⟨⟨before, token, earlier ++ [last]⟩ :: front, ?_⟩
      simp [allFrom, split]

theorem trailing_concat (earlier : List Token) (last : Token) (line : Text) :
    trailing (earlier ++ [last]) line = trailing [last] line := by
  simp [trailing]

theorem last?_concat (earlier : List Token) (last : Token) :
    last? (earlier ++ [last]) = some ⟨earlier.reverse, last, []⟩ := by
  obtain ⟨front, split⟩ := exists_allFrom_concat [] earlier last
  simp [last?, all, split]

end Cursor

/-- The word to complete is the last token, and the line ends with it. -/
theorem Tools.exists_of_target? {line : Text} {cursor : Cursor}
    (target : target? line = some cursor) :
    ∃ earlier, scan line = earlier ++ [cursor.token] ∧
      cursor = ⟨earlier.reverse, cursor.token, []⟩ ∧ Cursor.trailing (scan line) line = [] := by
  unfold target? at target
  split at target
  · simp at target
  · next unblank =>
      obtain ⟨last, plain⟩ := Option.filter_eq_some_iff.mp target
      rcases List.eq_nil_or_concat (scan line) with nothing | ⟨earlier, token, tokens⟩
      · simp [nothing, Cursor.last?, Cursor.all, Cursor.allFrom] at last
      · rw [List.concat_eq_append] at tokens
        obtain rfl : ⟨earlier.reverse, token, []⟩ = cursor := by
          simpa [tokens, Cursor.last?_concat] using last
        refine ⟨earlier, tokens, rfl, ?_⟩
        rw [tokens, Cursor.trailing_concat]
        cases text : Cursor.trailing [token] line with
        | nil => rfl
        | cons c text => simp [Cursor.suffix?, Cursor.isLast, unblank, text] at plain

/-- More text behind the last token is read together with it, and only with it. -/
theorem Layout.scanFrom_grown {start : Nat} {text line : Text} {earlier : List Token}
    {last : Token} (layout : Layout start text (earlier ++ [last])) (here : line.RestAt start text)
    (touching : Cursor.trailing (earlier ++ [last]) line = []) (more : Text) :
    scanFrom start (text ++ more) = earlier ++ scanFrom last.span.start (last.raw ++ more) := by
  induction earlier generalizing start text with
  | nil =>
      cases layout with
      | token blanks read onward =>
          obtain rfl := (Cursor.trailing_singleton (read.restAt here.skip)).symm.trans touching
          rw [read.span_eq, List.append_assoc, Token.scanFrom_blanks, List.append_nil]
          rfl
  | cons token earlier ih =>
      cases layout with
      | token blanks read onward =>
          have further : earlier ++ [last] ≠ [] := by simp
          have continued := fun nothing => further (onward.eq_nil nothing)
          rw [List.cons_append, Cursor.trailing_cons token further] at touching
          rw [List.append_assoc, Token.scanFrom_blanks, List.append_assoc,
            read.scanFrom_append continued, ih onward (read.restAt here.skip) touching]
          rfl

namespace Token

/-- A word that denotes its own text and begins at `start`. -/
def ofBare (text : Text) (start : Nat) : Token where
  kind := .word
  content := text
  raw := text
  quote := none
  terminated := true
  span := ⟨start, start + text.byteSize⟩

/-- The token with another text in its place, which denotes itself. -/
def retyped (token : Token) (text : Text) : Token :=
  { token with
    content := text
    raw := text
    span := ⟨token.span.start, token.span.start + text.byteSize⟩ }

theorem Word.read_bare_text {text : Text} (bare : ∀ c ∈ text, isBare c = true) :
    read none text = ⟨text, text, none, none, []⟩ := by
  induction text with
  | nil => rfl
  | cons c text ih =>
      rw [read_bare (bare c (by simp)), ih fun d member => bare d (.tail _ member)]
      rfl

theorem scanFrom_bare_text {start : Nat} {c : Char} {text : Text}
    (bare : ∀ d ∈ c :: text, isBare d = true) (uncommented : c ≠ '#') :
    scanFrom start (c :: text) = [ofBare (c :: text) start] := by
  have starts : endsWord c = false := by
    have plain := bare c (by simp)
    simp only [isBare, Bool.and_eq_true, Bool.not_eq_true'] at plain
    exact plain.1.1.1
  rw [scanFrom_word starts uncommented, Word.read_bare_text bare, scanFrom_nil]
  rfl

/-- A bare text that goes on from the last token, at the end of the line, takes its place. -/
theorem exists_retyped {line completion : Text} {earlier : List Token} {last : Token}
    (tokens : scan line = earlier ++ [last]) (touching : Cursor.trailing (scan line) line = [])
    (longer : last.raw <+: completion) (bare : ∀ c ∈ completion, isBare c = true) :
    ∃ front, line = front ++ last.raw ∧ last = ofBare last.raw last.span.start ∧
      scan (front ++ completion) = earlier ++ [last.retyped completion] ∧
      Cursor.trailing (scan (front ++ completion)) (front ++ completion) = [] := by
  have layout := layout_scan line
  have ended : (scan line).getLast? = some last := by simp [tokens]
  obtain ⟨place, read, ⟨front, typed, size⟩, -⟩ := layout.exists_last (.whole line) ended
  rw [touching, List.append_nil] at typed
  have start : last.span.start = front.byteSize := by rw [read.span_eq, size]
  obtain ⟨c, behind, raw, -, uncommented⟩ := read.raw_head
  obtain ⟨more, rfl⟩ := longer
  have grown (more : Text) :
      scan (line ++ more) = earlier ++ scanFrom last.span.start (last.raw ++ more) :=
    (tokens ▸ layout).scanFrom_grown (.whole line) (tokens ▸ touching) more
  -- With nothing more behind it, the last token is read from its own text, which is bare.
  have alone : last = ofBare last.raw last.span.start := by
    have bare : ∀ d ∈ c :: behind, isBare d = true := by
      intro d member
      exact bare d (List.mem_append_left _ (raw ▸ member))
    have again := grown []
    rw [List.append_nil, List.append_nil, tokens, raw, scanFrom_bare_text bare uncommented,
      ← raw] at again
    simpa using again
  have scanned : scan (front ++ (last.raw ++ more)) =
      earlier ++ [last.retyped (last.raw ++ more)] := by
    have longer := grown more
    rw [raw, List.cons_append] at bare
    rw [raw, List.cons_append, scanFrom_bare_text bare uncommented, ← List.cons_append, ← raw,
      ← typed, List.append_assoc] at longer
    rw [longer, retyped, alone]
    rfl
  refine ⟨front, typed.symm, alone, scanned, ?_⟩
  have whole : (front ++ (last.raw ++ more)).RestAt
      (last.span.start + (last.raw ++ more).byteSize) [] :=
    ⟨front ++ (last.raw ++ more), by simp, by simp [start]⟩
  rw [scanned, Cursor.trailing_concat, Cursor.trailing_singleton whole]

end Token

namespace Cursor

/-- The owner does not depend on what stands behind the cursor. -/
theorem findBack?_go_isCommand (before : List Token) (token : Token) (after after' : List Token) :
    (findBack?.go isCommand before token after).map (fun owner => (owner.before, owner.token)) =
      (findBack?.go isCommand before token after').map
        fun owner => (owner.before, owner.token) := by
  induction before generalizing token after after' with
  | nil =>
      unfold findBack?.go
      have same : isCommand ⟨[], token, after⟩ = isCommand ⟨[], token, after'⟩ := rfl
      rw [same]
      split <;> rfl
  | cons previous before ih =>
      unfold findBack?.go
      have same : isCommand ⟨previous :: before, token, after⟩ =
          isCommand ⟨previous :: before, token, after'⟩ := rfl
      rw [same]
      split
      · rfl
      · exact ih previous _ _

/-- Two words that are not commands have the same owner in the same place. -/
theorem exists_owner {before : List Token} {token token' : Token} {owner : Cursor}
    (other : isCommand ⟨before, token, []⟩ = false)
    (other' : isCommand ⟨before, token', []⟩ = false)
    (owned : owner? ⟨before, token, []⟩ = some owner) :
    ∃ owner', owner? ⟨before, token', []⟩ = some owner' ∧ owner'.before = owner.before ∧
      owner'.token = owner.token := by
  cases before with
  | nil =>
      unfold owner? findBack? findBack?.go at owned
      simp [other] at owned
  | cons previous before =>
      have back : retreat? ⟨previous :: before, token, []⟩ = some ⟨before, previous, [token]⟩ := rfl
      have back' : retreat? ⟨previous :: before, token', []⟩ = some ⟨before, previous, [token']⟩ :=
        rfl
      rw [owner?_of_retreat? other back] at owned
      rw [owner?_of_retreat? other' back']
      have same := findBack?_go_isCommand before previous [token'] [token]
      unfold owner? findBack? at owned ⊢
      simp only [owned, Option.map_some, Option.map_eq_some_iff, Prod.mk.injEq] at same
      exact same

end Cursor

namespace Segment

theorem exists_shown (catalog : Catalog) {line : Text} {earlier : List Token} {last : Token}
    (tokens : scan line = earlier ++ [last]) (touching : Cursor.trailing (scan line) line = []) :
    ∃ shown, ofLine catalog line = shown ++ ofToken catalog ⟨earlier.reverse, last, []⟩ := by
  obtain ⟨front, split⟩ := Cursor.exists_allFrom_concat [] earlier last
  rw [List.append_nil] at split
  refine ⟨ofText .whitespace (Cursor.leading (scan line) line) ++
    front.flatMap (ofCursor catalog line), ?_⟩
  rw [ofLine_eq catalog (by simp [tokens]), touching, tokens, Cursor.all, split]
  simp [ofCursor, Cursor.gap, ofText, ofTrailing]

theorem ofToken_ofBare (catalog : Catalog) (before : List Token) {text : Text} (start : Nat)
    (something : text ≠ []) :
    ofToken catalog ⟨before, .ofBare text start, []⟩ =
      [⟨if Cursor.isCommand ⟨before, .ofBare text start, []⟩ then
          if catalog.isCommand text then .validCommand else .invalidCommand
        else .argument, text⟩] := by
  have closed : opensWithQuote (.ofBare text start) = false := rfl
  have full : text.isEmpty = false := by simpa using something
  rw [ofToken, closed, if_neg Bool.false_ne_true, ofText]
  exact if_neg (by simp [Token.ofBare, full])

end Segment

/-- What is offered goes on from what was typed, in the place of a command or an option. -/
theorem Tools.exists_offer {tools : Tools} {line completion : Text} {pages : Completion.Pages}
    {journal : Journal} {candidates : List Text}
    (offered : (tools.complete line pages journal).1 = some candidates)
    (member : completion ∈ candidates) :
    ∃ cursor, target? line = some cursor ∧
      (cursor.token.raw <+: completion ∧ completion ≠ cursor.token.raw) ∧
      ((cursor.isCommand = true ∧ completion ∈ tools.catalog.names) ∨
        ∃ name, EndsInOption line cursor name) := by
  have way := completed tools line pages journal
  generalize tools.complete line pages journal = result at way offered
  cases way with
  | command target command =>
      obtain rfl := Option.some.inj offered
      obtain ⟨among, longer⟩ := Completion.mem_matching.mp member
      exact ⟨_, target, longer, .inl ⟨command, among⟩⟩
  | page ends =>
      obtain ⟨options, -, rfl⟩ := Option.map_eq_some_iff.mp offered
      exact ⟨_, ends.target, (Completion.mem_matching.mp member).2, .inr ⟨_, ends⟩⟩
  | manual ends =>
      obtain rfl := Option.some.inj offered
      exact ⟨_, ends.target, (Completion.mem_matching.mp member).2, .inr ⟨_, ends⟩⟩
  | nothing => simp at offered

/-- The line with a completion accepted, as the shell sees it: `old` and `new` stand at the
ends of the two lines. -/
structure Recognised (catalog : Catalog) (line front completion : Text) (old new : Cursor) :
    Prop where
  typed : line = front ++ old.token.raw
  longer : old.token.raw <+: completion ∧ completion ≠ old.token.raw
  old_last : Cursor.last? (scan line) = some old
  new_last : Cursor.last? (scan (front ++ completion)) = some new
  tokens : scan (front ++ completion) =
    (scan line).dropLast ++ [old.token.retyped completion]
  place : old.isCommand = true ∨ old.isOption = true
  command : old.isCommand = true → new.isCommand = true ∧
    catalog.isCommand new.token.content = true ∧
    ∃ shown, Segment.ofLine catalog (front ++ completion) =
      shown ++ [⟨.validCommand, completion⟩]
  option : old.isOption = true → new.isOption = true ∧
    (∃ owner owner', old.owner? = some owner ∧ new.owner? = some owner' ∧
      owner'.before = owner.before ∧ owner'.token = owner.token) ∧
    ∃ shown, Segment.ofLine catalog (front ++ completion) = shown ++ [⟨.argument, completion⟩]

theorem exists_recognised {tools : Tools} {line completion : Text} {pages : Completion.Pages}
    {journal : Journal} {candidates : List Text}
    (offered : (tools.complete line pages journal).1 = some candidates)
    (member : completion ∈ candidates) (bare : ∀ c ∈ completion, isBare c = true) :
    ∃ front old new, Recognised tools.catalog line front completion old new := by
  obtain ⟨cursor, target, longer, place⟩ := Tools.exists_offer offered member
  obtain ⟨earlier, tokens, here, touching⟩ := Tools.exists_of_target? target
  generalize cursor.token = last at *
  subst here
  obtain ⟨front, typed, alone, tokens', touching'⟩ :=
    Token.exists_retyped tokens touching longer.1 bare
  have retyped : last.retyped completion = .ofBare completion last.span.start := by
    rw [alone]
    rfl
  have something : completion ≠ [] := by
    rintro rfl
    exact longer.2 (List.prefix_nil.mp longer.1).symm
  obtain ⟨shown, segments⟩ := Segment.exists_shown tools.catalog tokens' touching'
  rw [retyped, Segment.ofToken_ofBare tools.catalog _ _ something] at segments
  refine ⟨front, ⟨earlier.reverse, last, []⟩, ⟨earlier.reverse, last.retyped completion, []⟩, ?_⟩
  constructor
  case typed => exact typed
  case longer => exact longer
  case old_last => rw [tokens, Cursor.last?_concat]
  case new_last => rw [tokens', Cursor.last?_concat]
  case tokens => rw [tokens', tokens, List.dropLast_concat]
  case place =>
    rcases place with ⟨command, -⟩ | ⟨name, ends⟩
    · exact .inl command
    · exact .inr ends.option
  case command =>
    intro command
    -- Whether a word is a command does not depend on its text.
    have command' : Cursor.isCommand ⟨earlier.reverse, last.retyped completion, []⟩ = true :=
      command
    have valid : tools.catalog.isCommand completion = true := by
      rcases place with ⟨-, among⟩ | ⟨name, ends⟩
      · exact Catalog.mem_names_iff_isCommand.mp among
      · simp [ends.isCommand_eq_false] at command
    rw [retyped] at command'
    rw [command', if_pos rfl, if_pos valid] at segments
    exact ⟨command, valid, shown, segments⟩
  case option =>
    intro option
    have other := Cursor.isCommand_eq_false_of_isOption option
    have other' : Cursor.isCommand ⟨earlier.reverse, last.retyped completion, []⟩ = false := other
    obtain ⟨owner, owned⟩ : ∃ owner, Cursor.owner? ⟨earlier.reverse, last, []⟩ = some owner := by
      rcases place with ⟨command, -⟩ | ⟨name, ends⟩
      · simp [other] at command
      · exact ends.exists_owner
    obtain ⟨owner', owned', before, token⟩ := Cursor.exists_owner other other' owned
    have dashed : last.content.head? = some '-' → completion.head? = some '-' := by
      obtain ⟨more, rfl⟩ := longer.1
      have same : last.content = last.raw := by
        rw [alone]
        rfl
      rw [same]
      intro dash
      rw [List.head?_append, dash]
      rfl
    have option' : Cursor.isOption ⟨earlier.reverse, last.retyped completion, []⟩ = true := by
      simp only [Cursor.isOption, Bool.and_eq_true, decide_eq_true_eq] at option ⊢
      exact ⟨⟨⟨option.1.1.1, dashed option.1.1.2⟩, option.1.2⟩, option.2⟩
    rw [retyped] at other'
    rw [other', if_neg Bool.false_ne_true] at segments
    exact ⟨option', ⟨owner, owner', owned, owned', before, token⟩, shown, segments⟩

/-- A completion that means nothing to the reader makes a line in which it is recognised,
and all options from a help page of git are of that kind. -/
theorem accepted_completions_are_recognised {tools : Tools} {start journal : Journal}
    {earlier : List Text} {pages : Completion.Pages} {line completion : Text}
    {candidates : List Text}
    (used : (tools.completeEach earlier [] start).2 = (pages, journal))
    (offered : (tools.complete line pages journal).1 = some candidates)
    (member : completion ∈ candidates) :
    ((∀ c ∈ completion, isBare c = true) →
      ∃ front old new, Recognised tools.catalog line front completion old new) ∧
    ∀ cursor name, EndsInOption line cursor name → tools.catalog.isGit name = true →
      ∀ c ∈ completion, isBare c = true := by
  refine ⟨exists_recognised offered member, ?_⟩
  intro cursor name ends known
  obtain ⟨inquiries, memory, -⟩ := tools.exists_memory earlier start
  rw [used] at memory
  obtain ⟨page, -, -, -, rfl⟩ := memory.exists_page ends known offered
  obtain ⟨listed, -⟩ := Completion.mem_matching.mp member
  exact (Git.HelpPage.named_of_mem_options (List.mem_filter.mp listed).1).isBare

theorem option_on_a_page_is_recognised :
    ∃ tools : Tools, tools.catalog = .ofLists [] [['a']] ∧
      (tools.complete ['a', ' ', '-', '-'] [] (.start .unbounded)).1 = some [['-', '-', 'b']] ∧
      ∃ front old new, Recognised (.ofLists [] [['a']]) ['a', ' ', '-', '-'] front
        ['-', '-', 'b'] old new := by
  have used : (Tools.completeEach ⟨.ofLists [] [['a']], .empty,
      Git.Script.backend ⟨[], [], [("a -h".toList, "  --b".toList)], []⟩⟩ [] []
        (.start .unbounded)).2 = ([], .start .unbounded) := rfl
  have offered : (Tools.complete ⟨.ofLists [] [['a']], .empty,
      Git.Script.backend ⟨[], [], [("a -h".toList, "  --b".toList)], []⟩⟩
        ['a', ' ', '-', '-'] [] (.start .unbounded)).1 = some [['-', '-', 'b']] := by
    decide +kernel
  have ends : EndsInOption ['a', ' ', '-', '-']
      ⟨[⟨.word, ['a'], ['a'], none, true, ⟨0, 1⟩⟩],
        ⟨.word, ['-', '-'], ['-', '-'], none, true, ⟨2, 4⟩⟩, []⟩ ['a'] :=
    ⟨by decide +kernel, by decide, by decide, by decide⟩
  obtain ⟨recognised, listed⟩ := accepted_completions_are_recognised used offered (.head _)
  exact ⟨_, rfl, offered, recognised (listed _ _ ends (by decide))⟩

end LineShell
