import LineShell.Proofs.Matching

namespace LineShell

/-! Typing on in a word that is being completed.

Characters that end no word are read into the last word of a line, whatever quotes or
backslashes stand in it or come with them. The word stays what it was, a command or an option
of the same command, so that its completions are those among the earlier ones that the longer
text still goes on to.
-/

open Token (Word endsWord scan scanFrom)

namespace Token

variable {more : Text}

namespace Word

variable {quotes : Option Quote} {text : Text}

theorem rest_of_plain (plain : ∀ c ∈ text, endsWord c = false) : (read quotes text).rest = [] := by
  fun_induction read quotes text <;> simp_all [stop, after, afterOpening]

/-- If nothing is left behind a word, nothing is left behind it with more typed. -/
theorem rest_append (alone : (read quotes text).rest = [])
    (plain : ∀ c ∈ more, endsWord c = false) : (read quotes (text ++ more)).rest = [] := by
  fun_induction read quotes text with
  | case1 => exact rest_of_plain plain
  -- The backslash that stood for itself may escape the first of the new characters.
  | case2 | case11 => exact rest_of_plain (List.forall_mem_cons.mpr ⟨by decide, plain⟩)
  | case3 escaped rest ih =>
      rw [List.cons_append, List.cons_append, read_escaped]
      exact ih alone
  | case4 rest _ ih | case5 rest _ _ ih =>
      rw [List.cons_append, read_opening]
      exact ih alone
  | case6 c rest _ _ _ ends => simp [stop] at alone
  | case7 c rest notBackslash notSingle notDouble inside ih =>
      have bare : Spelling.isBare c = true := by
        simp [Spelling.isBare, inside, notBackslash, notSingle, notDouble]
      rw [List.cons_append, read_bare bare]
      exact ih alone
  | case8 rest ih | case10 rest ih =>
      rw [List.cons_append, read_closing]
      exact ih alone
  | case9 c rest other ih =>
      rw [List.cons_append, read_single_cons other]
      exact ih alone
  | case12 next rest escapable _ ih =>
      rw [List.cons_append, List.cons_append, read_double_escaped escapable]
      exact ih alone
  | case13 next rest literal _ ih =>
      rw [List.cons_append, List.cons_append, read_double_backslash literal]
      exact ih alone
  | case14 c rest notQuote notBackslash ih =>
      rw [List.cons_append, read_double_cons notQuote notBackslash]
      exact ih alone

end Word

/-- The word with more typed at its end. -/
structure Lengthened (token : Token) (more : Text) (start : Nat) (longer : Token) : Prop where
  word : longer.isWord = true
  raw : longer.raw = token.raw ++ more
  stop : longer.span.stop = start + longer.raw.byteSize
  dashed : token.raw.head? = some '-' → longer.content.head? = some '-'

theorem ReadAt.exists_lengthened {start : Nat} {token : Token} {rest : Text}
    (read : token.ReadAt start rest) (alone : rest = []) (word : token.isWord = true)
    (plain : ∀ c ∈ more, endsWord c = false) :
    ∃ longer, scanFrom start (token.raw ++ more) = [longer] ∧
      token.Lengthened more start longer := by
  cases read with
  | operator | broken => simp [isWord, ofOperator] at word
  | word c text starts uncommented =>
      have raw := Word.raw_append_rest none (c :: text)
      rw [alone, List.append_nil] at raw
      have nothing : (Word.read none (c :: (text ++ more))).rest = [] :=
        Word.rest_append alone plain
      have whole := Word.raw_append_rest none (c :: (text ++ more))
      rw [nothing, List.append_nil] at whole
      refine ⟨(Word.read none (c :: (text ++ more))).toToken start, ?_, rfl, ?_, rfl, ?_⟩
      · rw [Word.toToken, raw, List.cons_append, scanFrom_word starts uncommented, nothing,
          scanFrom_nil]
      · rw [Word.toToken, Word.toToken, raw, whole]
        rfl
      · intro dash
        rw [Word.toToken, raw] at dash
        obtain rfl := Option.some.inj dash
        rw [Word.toToken, Word.read_bare (by decide)]
        rfl

end Token

variable {line more : Text} {cursor : Cursor} {tools : Tools} {journal : Journal}
  {wanted : Text → Prop}

/-- A line that ends at a word ends at the longer word when more is typed. -/
theorem EndsAt.exists_lengthened (ends : EndsAt line cursor) (word : cursor.token.isWord = true)
    (plain : ∀ c ∈ more, endsWord c = false) :
    ∃ start longer, cursor.token.Lengthened more start longer ∧
      EndsAt (line ++ more) ⟨cursor.before, longer, []⟩ := by
  obtain ⟨earlier, tokens, here, touching⟩ :=
    Tools.exists_of_target? (Tools.target?_eq_some_iff.mpr ends)
  have layout := layout_scan line
  have ended : (scan line).getLast? = some cursor.token := by simp [tokens]
  obtain ⟨place, read, ⟨front, typed, size⟩, -⟩ :=
    layout.exists_last (.whole line) ended
  obtain ⟨longer, found, lengthened⟩ := read.exists_lengthened touching word plain
  have scanned : scan (line ++ more) = earlier ++ [longer] := by
    have grown := (tokens ▸ layout).scanFrom_grown (.whole line) (tokens ▸ touching) more
    rwa [read.span_eq, found] at grown
  have whole : (line ++ more).RestAt longer.span.stop [] := by
    refine ⟨line ++ more, List.append_nil _, ?_⟩
    rw [touching, List.append_nil] at typed
    rw [lengthened.stop, lengthened.raw, ← typed]
    simp [size]
  refine ⟨place, longer, lengthened, ?_, ?_, ?_⟩
  · intro c last
    rw [List.getLast?_append, Option.or_eq_some_iff] at last
    rcases last with new | ⟨-, old⟩
    · have inside := plain c (List.mem_of_getLast? new)
      simp only [endsWord, Bool.or_eq_false_iff] at inside
      exact inside.1
    · exact ends.unblank c old
  · rw [scanned, Cursor.last?_concat, here]
  · exact whole.byteSize.symm

theorem Source.isWord (source : Source tools journal cursor wanted) :
    cursor.token.isWord = true := by
  cases source with
  | command command =>
      simp only [Cursor.isCommand, Bool.and_eq_true] at command
      exact command.1
  | page option | manual option =>
      simp only [Cursor.isOption, Bool.and_eq_true] at option
      exact option.1.1.1

theorem Cursor.isCommand_congr {before after after' : List Token} {token token' : Token}
    (word : token.isWord = true) (word' : token'.isWord = true) :
    isCommand ⟨before, token', after'⟩ = isCommand ⟨before, token, after⟩ := by
  simp [isCommand, word, word']

/-- The longer word has the names of the same source to go on to. -/
theorem Source.lengthen {start : Nat} {longer : Token} (source : Source tools journal cursor wanted)
    (final : cursor.after = [])
    (lengthened : cursor.token.Lengthened more start longer) :
    Source tools journal ⟨cursor.before, longer, []⟩ wanted := by
  obtain ⟨before, token, after⟩ := cursor
  obtain rfl : after = [] := final
  have same : Cursor.isCommand ⟨before, longer, []⟩ = Cursor.isCommand ⟨before, token, []⟩ :=
    Cursor.isCommand_congr source.isWord lengthened.word
  have option' (option : Cursor.isOption ⟨before, token, []⟩ = true)
      (long : ['-', '-'] <+: token.raw) : Cursor.isOption ⟨before, longer, []⟩ = true := by
    obtain ⟨behind, raw⟩ := long
    have dashed := lengthened.dashed (by rw [← raw]; rfl)
    simp only [Cursor.isOption, Bool.and_eq_true, decide_eq_true_eq] at option ⊢
    exact ⟨⟨⟨lengthened.word, dashed⟩, same ▸ option.1.2⟩, option.2⟩
  have long' (long : ['-', '-'] <+: token.raw) : ['-', '-'] <+: longer.raw :=
    lengthened.raw ▸ long.trans (List.prefix_append token.raw more)
  have owned' {owner : Cursor} (option : Cursor.isOption ⟨before, token, []⟩ = true)
      (owned : Cursor.owner? ⟨before, token, []⟩ = some owner) :
      ∃ owner', Cursor.owner? ⟨before, longer, []⟩ = some owner' ∧ owner'.token = owner.token := by
    have other := Cursor.isCommand_eq_false_of_isOption option
    obtain ⟨owner', found, -, token⟩ := Cursor.exists_owner other (same.trans other) owned
    exact ⟨owner', found, token⟩
  cases source with
  | command command => exact .command (same.trans command)
  | page option long owned known captured =>
      obtain ⟨owner', found, token⟩ := owned' option owned
      rw [← token] at known captured
      exact .page (option' option long) (long' long) found known captured
  | manual option long owned foreign known registered =>
      obtain ⟨owner', found, token⟩ := owned' option owned
      rw [← token] at foreign known registered
      exact .manual (option' option long) (long' long) found foreign known registered

open Tools

/-- With characters typed that end no word, a line keeps those of its completions that go on
from the longer text, in their order. It does not matter what is remembered of other lines. -/
theorem typing_on_narrows_the_completions {start start' journal' : Journal}
    {earlier earlier' candidates : List Text} {pages pages' : Completion.Pages} {last : Token}
    (steady : Steady tools.git)
    (used : (tools.completeEach earlier [] start).2 = (pages, journal))
    (used' : (tools.completeEach earlier' [] start').2 = (pages', journal'))
    (offered : (tools.complete line pages journal).1 = some candidates)
    (ended : (scan line).getLast? = some last) (plain : ∀ c ∈ more, endsWord c = false) :
    (tools.complete (line ++ more) pages' journal').1 =
      some (candidates.filter fun name =>
        (last.raw ++ more).isPrefixOf name && name ≠ last.raw ++ more) := by
  obtain ⟨inquiries, memory, -⟩ := tools.exists_memory earlier start
  obtain ⟨inquiries', memory', -⟩ := tools.exists_memory earlier' start'
  rw [used] at memory
  rw [used'] at memory'
  rw [memory.complete_fst steady line start] at offered
  obtain ⟨cursor, wanted, ends, source, lists⟩ := exists_source offered
  obtain ⟨place, longer, lengthened, ends'⟩ := ends.exists_lengthened source.isWord plain
  obtain ⟨front, tokens, here, -⟩ := exists_of_target? (target?_eq_some_iff.mpr ends)
  obtain rfl : cursor.token = last := by simpa [tokens] using ended
  have source' := source.lengthen (by rw [here]) lengthened
  obtain ⟨candidates', offered', lists'⟩ := complete_of_source ends' source'
  have narrowed := lists.append more
  rw [← lengthened.raw] at narrowed ⊢
  rw [memory'.complete_fst steady (line ++ more) start, offered', lists'.unique narrowed]

/-- The quote leaves the word open, so that its content is not the text that is gone on from. -/
theorem completion_stays_when_a_quote_is_opened :
    (Tools.complete ⟨.ofLists [] [['a', '\'', 'b']], .empty, .missing [] ['n', 'o']⟩ ['a'] []
      (.start .unbounded)).1 = some [['a', '\'', 'b']] ∧
    (Tools.complete ⟨.ofLists [] [['a', '\'', 'b']], .empty, .missing [] ['n', 'o']⟩ ['a', '\''] []
      (.start .unbounded)).1 = some [['a', '\'', 'b']] := by
  have steady : Steady (.missing [] ['n', 'o']) := fun _ _ _ => rfl
  have used : (Tools.completeEach ⟨.ofLists [] [['a', '\'', 'b']], .empty,
      .missing [] ['n', 'o']⟩ [] [] (.start .unbounded)).2 = ([], .start .unbounded) := rfl
  have offered : (Tools.complete ⟨.ofLists [] [['a', '\'', 'b']], .empty,
      .missing [] ['n', 'o']⟩ ['a'] [] (.start .unbounded)).1 = some [['a', '\'', 'b']] := by
    decide +kernel
  have ended : (scan ['a']).getLast? = some ⟨.word, ['a'], ['a'], none, true, ⟨0, 1⟩⟩ := by
    decide +kernel
  have plain : ∀ c ∈ ['\''], endsWord c = false := List.forall_mem_singleton.mpr rfl
  refine ⟨offered, ?_⟩
  exact typing_on_narrows_the_completions steady used used offered ended plain

end LineShell
