import LineShell.Proofs.Refusal

namespace LineShell

/-! How far the end of the options reaches.

The word `--` outside quotes ends the options of its statement, for all that follows it there.
A statement reaches back to the nearest operator before it. What is only the beginning of an
operator belongs to the statement like a word, so that it opens nothing again.
-/

/-- The word `--` outside quotes. -/
structure Token.IsMarker (token : Token) : Prop where
  word : token.isWord = true
  unquoted : token.quote = none
  dashes : token.content = ['-', '-']

theorem Token.IsMarker.isOperator_eq_false {token : Token} (marker : token.IsMarker) :
    token.isOperator = false := by
  simp [isOperator, operator?, kind_of_isWord marker.word]

/-- The statement in which the token with the number `index` stands begins at `first`: right
behind the nearest operator before the token, or where the line begins. -/
structure BeginsAt (tokens : List Token) (index first : Nat) : Prop where
  reached : first ≤ index
  together : ∀ k token, first ≤ k → k < index → tokens[k]? = some token →
    token.isOperator = false
  behind : first = 0 ∨ ∃ k token, first = k + 1 ∧ tokens[k]? = some token ∧
    token.isOperator = true

/-- The options are ended between two numbers. -/
def MarkedIn (tokens : List Token) (first index : Nat) : Prop :=
  ∃ k marker, first ≤ k ∧ k < index ∧ tokens[k]? = some marker ∧ marker.IsMarker

section

variable {tokens : List Token} {token marker : Token} {index first k : Nat}

theorem BeginsAt.zero_iff : BeginsAt tokens 0 first ↔ first = 0 := by
  constructor
  · exact fun begins => Nat.le_zero.mp begins.reached
  · rintro rfl
    exact ⟨Nat.le_refl 0, by omega, .inl rfl⟩

/-- Only behind an operator the next token stands in another statement. -/
theorem BeginsAt.succ_iff (here : tokens[index]? = some token) :
    BeginsAt tokens (index + 1) first ↔
      if token.isOperator then first = index + 1 else BeginsAt tokens index first := by
  split
  · next operator =>
      constructor
      · intro begins
        rcases Nat.eq_or_lt_of_le begins.reached with same | within
        · exact same
        · have plain := begins.together index token (Nat.le_of_lt_succ within)
            (Nat.lt_succ_self index) here
          simp [plain] at operator
      · rintro rfl
        exact ⟨Nat.le_refl _, by omega, .inr ⟨index, token, rfl, here, operator⟩⟩
  · next plain =>
      constructor
      · intro ⟨reached, together, behind⟩
        rcases Nat.eq_or_lt_of_le reached with rfl | within
        · obtain ⟨k, other, same, there, operator⟩ := behind.resolve_left (Nat.succ_ne_zero index)
          obtain rfl : index = k := Nat.succ.inj same
          obtain rfl : token = other := by simpa [here] using there
          exact absurd operator plain
        · exact ⟨Nat.le_of_lt_succ within, fun k other low high => together k other low (by omega),
            behind⟩
      · intro ⟨reached, together, behind⟩
        refine ⟨by omega, ?_, behind⟩
        intro k other low high there
        rcases Nat.lt_succ_iff_lt_or_eq.mp high with before | rfl
        · exact together k other low before there
        · obtain rfl : token = other := by simpa [here] using there
          simpa using plain

theorem exists_beginsAt (bound : index ≤ tokens.length) :
    ∃ first, BeginsAt tokens index first ∧
      ∀ other, BeginsAt tokens index other → other = first := by
  induction index with
  | zero => exact ⟨0, BeginsAt.zero_iff.mpr rfl, fun _ => BeginsAt.zero_iff.mp⟩
  | succ index ih =>
      have here : tokens[index]? = some tokens[index] := List.getElem?_eq_getElem bound
      simp only [BeginsAt.succ_iff here]
      split
      · exact ⟨index + 1, rfl, fun _ => id⟩
      · exact ih (by omega)

theorem not_markedIn_self (tokens : List Token) (index : Nat) : ¬ MarkedIn tokens index index := by
  rintro ⟨k, marker, low, high, -⟩
  omega

theorem MarkedIn.succ_iff (here : tokens[index]? = some token) (reached : first ≤ index) :
    MarkedIn tokens first (index + 1) ↔ MarkedIn tokens first index ∨ token.IsMarker := by
  constructor
  · rintro ⟨k, marker, low, high, there, dashes⟩
    rcases Nat.lt_succ_iff_lt_or_eq.mp high with before | rfl
    · exact .inl ⟨k, marker, low, before, there, dashes⟩
    · obtain rfl : token = marker := by simpa [here] using there
      exact .inr dashes
  · rintro (⟨k, marker, low, high, there, dashes⟩ | dashes)
    · exact ⟨k, marker, low, by omega, there, dashes⟩
    · exact ⟨index, token, reached, Nat.lt_succ_self index, here, dashes⟩

/-- With no operator in between, a marker stands in the same statement. -/
theorem BeginsAt.markedIn (begins : BeginsAt tokens index first) (here : tokens[k]? = some marker)
    (dashes : marker.IsMarker) (before : k < index)
    (apart : ∀ m token, k < m → m < index → tokens[m]? = some token → token.isOperator = false) :
    MarkedIn tokens first index := by
  refine ⟨k, marker, Nat.le_of_not_lt fun beyond => ?_, before, here, dashes⟩
  -- The statement would begin behind an operator that stands behind the marker.
  have reached := begins.reached
  rcases begins.behind with start | ⟨m, token, rfl, there, operator⟩
  · omega
  · rcases Nat.eq_or_lt_of_le (Nat.le_of_lt_succ beyond) with rfl | later
    · obtain rfl : marker = token := by simpa [here] using there
      simp [dashes.isOperator_eq_false] at operator
    · simp [apart m token later reached there] at operator

end

namespace Cursor

variable {tokens : List Token} {cursor next : Cursor} {index first : Nat}

theorem allFrom_getElem? (before front : List Token) (token : Token) (after : List Token) :
    (allFrom before (front ++ token :: after))[front.length]? =
      some ⟨front.reverse ++ before, token, after⟩ := by
  induction front generalizing before with
  | nil => rfl
  | cons first front ih => simp [allFrom, ih]

theorem at?_eq_some_iff :
    at? tokens index = some cursor ↔ cursor.tokens = tokens ∧ cursor.index = index := by
  constructor
  · intro here
    obtain ⟨front, rfl, rfl, before⟩ := exists_front [] here
    simp [Cursor.tokens, Cursor.index, before]
  · rintro ⟨rfl, rfl⟩
    have found := allFrom_getElem? [] cursor.before.reverse cursor.token cursor.after
    simpa [at?, all, Cursor.tokens, Cursor.index] using found

theorem exists_at? {token : Token} (here : tokens[index]? = some token) :
    ∃ cursor, at? tokens index = some cursor ∧ cursor.token = token := by
  obtain ⟨bound, rfl⟩ := List.getElem?_eq_some_iff.mp here
  refine ⟨⟨(tokens.take index).reverse, tokens[index], tokens.drop (index + 1)⟩,
    at?_eq_some_iff.mpr ⟨?_, ?_⟩, rfl⟩
  · simp [Cursor.tokens]
  · simp [Cursor.index, Nat.min_eq_left (Nat.le_of_lt bound)]

theorem endsOptions_iff {token : Token} : endsOptions token = true ↔ token.IsMarker := by
  simp only [endsOptions, Bool.and_eq_true, Option.isNone_iff_eq_none, decide_eq_true_eq]
  exact ⟨fun ⟨⟨word, unquoted⟩, dashes⟩ => ⟨word, unquoted, dashes⟩,
    fun ⟨word, unquoted, dashes⟩ => ⟨⟨word, unquoted⟩, dashes⟩⟩

theorem tokens_step (before : List Token) (previous token : Token) (after : List Token) :
    Cursor.tokens ⟨previous :: before, token, after⟩ =
      Cursor.tokens ⟨before, previous, token :: after⟩ := by
  simp [Cursor.tokens]

theorem getElem?_tokens (before : List Token) (token : Token) (after : List Token) :
    (Cursor.tokens ⟨before, token, after⟩)[before.length]? = some token := by
  simp [Cursor.tokens]

theorem beginsAt_step (before : List Token) (previous token : Token) (after : List Token) :
    BeginsAt (Cursor.tokens ⟨previous :: before, token, after⟩) (before.length + 1) first ↔
      if previous.isOperator then first = before.length + 1
      else BeginsAt (Cursor.tokens ⟨before, previous, token :: after⟩) before.length first := by
  rw [tokens_step]
  exact BeginsAt.succ_iff (getElem?_tokens before previous (token :: after))

/-- What a token does to the options of those behind it. -/
theorem optionsAllowed_step (before : List Token) (previous token : Token) (after : List Token) :
    optionsAllowed ⟨previous :: before, token, after⟩ =
      (previous.isOperator ||
        !endsOptions previous && optionsAllowed ⟨before, previous, token :: after⟩) := by
  cases operator : previous.isOperator <;> simp [optionsAllowed, operator]

theorem optionsAllowed_iff (before : List Token) (token : Token) (after : List Token)
    (begins : BeginsAt (Cursor.tokens ⟨before, token, after⟩) before.length first) :
    optionsAllowed ⟨before, token, after⟩ = true ↔
      ¬ MarkedIn (Cursor.tokens ⟨before, token, after⟩) first before.length := by
  induction before generalizing token after with
  | nil =>
      obtain rfl := BeginsAt.zero_iff.mp begins
      exact iff_of_true rfl (not_markedIn_self _ 0)
  | cons previous before ih =>
      rw [List.length_cons, beginsAt_step] at begins
      rw [optionsAllowed_step, List.length_cons]
      split at begins
      · next operator =>
          subst begins
          simp [operator, not_markedIn_self]
      · next plain =>
          have here := getElem?_tokens before previous (token :: after)
          rw [tokens_step, MarkedIn.succ_iff here begins.reached, ← endsOptions_iff, not_or,
            ← ih previous (token :: after) begins]
          simp [plain, and_comm]

theorem isCommand_iff (before : List Token) (token : Token) (after : List Token)
    (begins : BeginsAt (Cursor.tokens ⟨before, token, after⟩) before.length first) :
    isCommand ⟨before, token, after⟩ = true ↔ token.isWord = true ∧ first = before.length := by
  cases before with
  | nil =>
      obtain rfl := BeginsAt.zero_iff.mp begins
      simp [isCommand]
  | cons previous before =>
      rw [List.length_cons, beginsAt_step] at begins
      rw [List.length_cons]
      split at begins
      · next operator => simp [isCommand, operator, begins]
      · next plain =>
          have earlier := Nat.lt_succ_of_le begins.reached
          simp [isCommand, plain, Nat.ne_of_lt earlier]

theorem isOption_iff (before : List Token) (token : Token) (after : List Token)
    (begins : BeginsAt (Cursor.tokens ⟨before, token, after⟩) before.length first) :
    isOption ⟨before, token, after⟩ = true ↔
      token.isWord = true ∧ token.content.head? = some '-' ∧ first < before.length ∧
        ¬ MarkedIn (Cursor.tokens ⟨before, token, after⟩) first before.length := by
  have argument (word : token.isWord = true) :
      isCommand ⟨before, token, after⟩ = false ↔ first < before.length := by
    rw [← Bool.not_eq_true, isCommand_iff before token after begins, Nat.lt_iff_le_and_ne]
    simp [word, begins.reached]
  simp only [isOption, Bool.and_eq_true, Bool.not_eq_true', decide_eq_true_eq,
    optionsAllowed_iff before token after begins, and_assoc]
  refine and_congr_right fun word => and_congr_right fun _ => ?_
  rw [argument word]

/-- The token at one number is the nearest before the next number. -/
theorem before_of_at? (here : at? tokens index = some cursor)
    (there : at? tokens (index + 1) = some next) : next.before = cursor.token :: cursor.before := by
  obtain ⟨before, token, after⟩ := next
  obtain ⟨rfl, same⟩ := at?_eq_some_iff.mp there
  cases before with
  | nil => simp [Cursor.index] at same
  | cons previous before =>
      obtain rfl : before.length = index := Nat.succ.inj same
      have found : at? (Cursor.tokens ⟨before, previous, token :: after⟩) before.length =
          some ⟨before, previous, token :: after⟩ := at?_eq_some_iff.mpr ⟨rfl, rfl⟩
      rw [← tokens_step, here] at found
      obtain rfl := Option.some.inj found
      rfl

theorem isOption_iff_of_at? (here : at? tokens index = some cursor)
    (begins : BeginsAt tokens index first) :
    cursor.isOption = true ↔ cursor.token.isWord = true ∧
      cursor.token.content.head? = some '-' ∧ first < index ∧ ¬ MarkedIn tokens first index := by
  obtain ⟨rfl, rfl⟩ := at?_eq_some_iff.mp here
  exact isOption_iff cursor.before cursor.token cursor.after begins

theorem optionsAllowed_of_at? (here : at? tokens index = some cursor)
    (there : at? tokens (index + 1) = some next) :
    next.optionsAllowed =
      (cursor.token.isOperator || !endsOptions cursor.token && cursor.optionsAllowed) := by
  have before := before_of_at? here there
  obtain ⟨_, token, after⟩ := next
  subst before
  exact optionsAllowed_step cursor.before cursor.token token after

/-- A marker keeps what stands behind it in its statement from being an option. -/
theorem index_le_of_isOption {cursor' : Cursor} {index' : Nat}
    (here : at? tokens index = some cursor) (there : at? tokens index' = some cursor')
    (begins : BeginsAt tokens index first) (begins' : BeginsAt tokens index' first)
    (marker : cursor.token.IsMarker) (optional : cursor'.isOption = true) : index' ≤ index := by
  refine Nat.le_of_not_lt fun before => ?_
  obtain ⟨rfl, rfl⟩ := at?_eq_some_iff.mp here
  have found := getElem?_tokens cursor.before cursor.token cursor.after
  exact ((isOption_iff_of_at? there begins').mp optional).2.2.2
    ⟨cursor.index, cursor.token, begins.reached, before, found, marker⟩

end Cursor

open Cursor (at?)

/-- In each statement the options reach up to the first marker and no farther. -/
structure OptionsScoped (tokens : List Token) : Prop where
  placed : ∀ index token, tokens[index]? = some token →
    ∃ cursor, at? tokens index = some cursor ∧ cursor.token = token
  begins : ∀ index < tokens.length, ∃ first, BeginsAt tokens index first ∧
    ∀ other, BeginsAt tokens index other → other = first
  allowed : ∀ index first cursor, at? tokens index = some cursor → BeginsAt tokens index first →
    (cursor.optionsAllowed = false ↔ MarkedIn tokens first index)
  option : ∀ index first cursor, at? tokens index = some cursor → BeginsAt tokens index first →
    (cursor.isOption = true ↔ cursor.token.isWord = true ∧
      cursor.token.content.head? = some '-' ∧ first < index ∧ ¬ MarkedIn tokens first index)
  /-- Of the markers in one statement at most one is an option. -/
  once : ∀ index index' first cursor cursor', at? tokens index = some cursor →
    at? tokens index' = some cursor' → BeginsAt tokens index first →
    BeginsAt tokens index' first → cursor.token.IsMarker → cursor'.token.IsMarker →
    cursor.isOption = true → cursor'.isOption = true → index = index'
  /-- Nothing is an option behind a marker, up to the next operator. -/
  final : ∀ k marker index cursor, tokens[k]? = some marker → marker.IsMarker →
    at? tokens index = some cursor → k < index →
    (∀ m token, k < m → m < index → tokens[m]? = some token → token.isOperator = false) →
    cursor.isOption = false
  broken : ∀ index cursor next, at? tokens index = some cursor →
    at? tokens (index + 1) = some next → cursor.token.isBrokenOperator = true →
    next.optionsAllowed = cursor.optionsAllowed
  reopened : ∀ index cursor next, at? tokens index = some cursor →
    at? tokens (index + 1) = some next → cursor.token.isOperator = true →
    next.optionsAllowed = true

/-- Only a word outside quotes ends the options, for no other statement than its own, and there
for good. -/
theorem options_end_with_the_first_marker (tokens : List Token) : OptionsScoped tokens := by
  constructor
  case placed => exact fun index token here => Cursor.exists_at? here
  case begins => exact fun index bound => exists_beginsAt (Nat.le_of_lt bound)
  case allowed =>
    intro index first cursor here begins
    obtain ⟨rfl, rfl⟩ := Cursor.at?_eq_some_iff.mp here
    rw [← Bool.not_eq_true,
      Cursor.optionsAllowed_iff cursor.before cursor.token cursor.after begins, Classical.not_not]
    rfl
  case option => exact fun index first cursor here begins => Cursor.isOption_iff_of_at? here begins
  case once =>
    intro index index' first cursor cursor' here there begins begins' marker marker' optional
      optional'
    exact Nat.le_antisymm (Cursor.index_le_of_isOption there here begins' begins marker' optional)
      (Cursor.index_le_of_isOption here there begins begins' marker optional')
  case final =>
    intro k marker index cursor found dashes here before apart
    have bound : index < tokens.length := by
      obtain ⟨front, rfl, rfl, -⟩ := Cursor.exists_front [] here
      simp
    obtain ⟨first, begins, -⟩ := exists_beginsAt (Nat.le_of_lt bound)
    rw [← Bool.not_eq_true, Cursor.isOption_iff_of_at? here begins]
    exact fun optional => optional.2.2.2 (begins.markedIn found dashes before apart)
  case broken =>
    intro index cursor next here there half
    have kind : cursor.token.kind = .brokenOperator := by
      simpa [Token.isBrokenOperator] using half
    rw [Cursor.optionsAllowed_of_at? here there]
    simp [Cursor.endsOptions, Token.isOperator, Token.operator?, Token.isWord, kind]
  case reopened =>
    intro index cursor next here there operator
    rw [Cursor.optionsAllowed_of_at? here there, operator, Bool.true_or]

end LineShell
