import LineShell.Proofs.Paging

namespace LineShell.Git.HelpPage

/-! Help pages as they are laid out.

A page is made of entries and of other lines. An entry spells an option in one way or more, each
with the argument it takes, and then may describe it. From a page set like that exactly the
options are read that its entries spell, in their order.
-/

/-- What an option takes. It does not end the spelling it belongs to. -/
structure Argument where
  text : Text
  within : '\n' ∉ text
  single : ¬ [' ', ' '] <:+: text
  undivided : ¬ [',', ' '] <:+: text

/-- The name of a long option. -/
structure Name where
  text : Text
  something : text ≠ []
  plain : ∀ c ∈ text, isNameChar c = true

/-- A way to spell an option. -/
inductive Stem where
  | short (c : Char) (alphanumeric : c.isAlphanum = true)
  | long (name : Name)
  | negatable (name : Name)

namespace Stem

def text : Stem → Text
  | .short c _ => ['-', c]
  | .long name => ['-', '-'] ++ name.text
  | .negatable name => ['-', '-', '[', 'n', 'o', '-', ']'] ++ name.text

/-- The options that the spelling stands for. -/
def options : Stem → List Text
  | .short c _ => [['-', c]]
  | .long name => [['-', '-'] ++ name.text]
  | .negatable name => [['-', '-'] ++ name.text, ['-', '-', 'n', 'o', '-'] ++ name.text]

def longOptions : Stem → List Text
  | .short _ _ => []
  | .long name => (Stem.long name).options
  | .negatable name => (Stem.negatable name).options

/-- The text does not go on with the name of the option. -/
def Admits (text : Text) : Stem → Prop
  | .short _ _ => True
  | _ => ∀ c ∈ text.head?, isNameChar c = false

end Stem

/-- A spelling with its argument. -/
structure Form where
  stem : Stem
  argument : Argument
  apart : stem.Admits argument.text

def Form.text (form : Form) : Text := form.stem.text ++ form.argument.text

def joined (forms : List Form) : Text := Text.join [',', ' '] (forms.map Form.text)

/-- A line that spells an option. Its description is set off by two spaces. -/
structure Entry where
  indentation : Blanks
  first : Form
  others : List Form
  description : Option Text
  unbroken : '\n' ∉ indentation.text ∧ ∀ text ∈ description, '\n' ∉ text

namespace Entry

def forms (entry : Entry) : List Form := entry.first :: entry.others

def described (entry : Entry) : Text :=
  match entry.description with
  | none => []
  | some text => ' ' :: ' ' :: text

def text (entry : Entry) : Text :=
  entry.indentation.text ++ (joined entry.forms ++ entry.described)

end Entry

/-- A line of a page. In a line that is no entry the first character that is not blank, if there
is one, is no dash. -/
inductive Line where
  | spelled (entry : Entry)
  | prose (text : Text) (unbroken : '\n' ∉ text)
      (undashed : text.find? (!Text.isBlank ·) ≠ some '-')

namespace Line

def text : Line → Text
  | .spelled entry => entry.text
  | .prose text _ _ => text

def forms : Line → List Form
  | .spelled entry => entry.forms
  | .prose _ _ _ => []

end Line

inductive Ending where
  | newline
  | returned

def Ending.text : Ending → Text
  | .newline => ['\n']
  | .returned => ['\r', '\n']

/-- The lines of a page, of which the last one may lack an ending. -/
inductive Page where
  | done
  | last (line : Line)
  | ended (line : Line) (ending : Ending) (rest : Page)

namespace Page

def text : Page → Text
  | .done => []
  | .last line => line.text
  | .ended line ending rest => line.text ++ (ending.text ++ rest.text)

def forms : Page → List Form
  | .done => []
  | .last line => line.forms
  | .ended line _ rest => line.forms ++ rest.forms

end Page

theorem negatable_eq : negatable = ['-', '-', '[', 'n', 'o', '-', ']'] := rfl

theorem dashes_eq : dashes = ['-', '-'] := rfl

theorem dash_ne {c : Char} (alphanumeric : c.isAlphanum = true) : '-' ≠ c := by
  rintro rfl
  contradiction

theorem expand_dash {c : Char} (alphanumeric : c.isAlphanum = true) (text : Text) :
    expand ('-' :: c :: text) = [['-', c]] := by
  have other := dash_ne alphanumeric
  have unnegated : Text.afterLead? negatable ('-' :: c :: text) = none := by
    simp [Text.afterLead?, negatable_eq, other]
  have undoubled : Text.afterLead? dashes ('-' :: c :: text) = none := by
    simp [Text.afterLead?, dashes, other]
  unfold expand
  rw [unnegated, undoubled]
  simp [alphanumeric]

theorem expand_dashes {text : Text} (unbracketed : text.head? ≠ some '[') :
    expand (dashes ++ text) = if name text = [] then [] else [dashes ++ name text] := by
  have unnegated : Text.afterLead? negatable (dashes ++ text) = none := by
    cases text with
    | nil => rfl
    | cons c text =>
        have other : '[' ≠ c := by
          rintro rfl
          exact unbracketed rfl
        simp [Text.afterLead?, negatable_eq, dashes, other]
  unfold expand
  rw [unnegated, Text.afterLead?_append]
  simp only [List.isEmpty_iff]

theorem expand_negatable (text : Text) :
    expand (negatable ++ text) =
      if name text = [] then []
      else [dashes ++ name text, dashes ++ ['n', 'o', '-'] ++ name text] := by
  unfold expand
  rw [Text.afterLead?_append]
  simp only [List.isEmpty_iff]
  rfl

theorem Name.name_append (named : Name) {text : Text}
    (apart : ∀ c ∈ text.head?, isNameChar c = false) : name (named.text ++ text) = named.text := by
  rw [name, List.takeWhile_append_of_pos named.plain]
  cases text with
  | nil => simp
  | cons c text => simp [apart c rfl]

theorem isBlank_of_isNameChar {c : Char} (plain : isNameChar c = true) :
    Text.isBlank c = false := by
  cases blank : Text.isBlank c with
  | false => rfl
  | true =>
      have ends : Spelling.isBare c = false := by
        simp [Spelling.isBare, Token.endsWord, blank]
      rw [isBare_of_isNameChar plain] at ends
      contradiction

/-- The character may stand before any argument without ending the spelling. -/
def isPlain (c : Char) : Bool := !Text.isBlank c && c ≠ ','

theorem isPlain_of_isNameChar {c : Char} (plain : isNameChar c = true) : isPlain c = true := by
  have other : c ≠ ',' := by
    rintro rfl
    contradiction
  simp [isPlain, isBlank_of_isNameChar plain, other]

theorem isBlank_of_isPlain {c : Char} (plain : isPlain c = true) : Text.isBlank c = false := by
  simp only [isPlain, Bool.and_eq_true, Bool.not_eq_true'] at plain
  exact plain.1

namespace Stem

variable {stem : Stem} {text : Text}

theorem exists_text (stem : Stem) : ∃ rest, stem.text = '-' :: rest := by
  cases stem <;> exact ⟨_, rfl⟩

theorem isPlain_text (stem : Stem) : ∀ c ∈ stem.text, isPlain c = true := by
  have named (lead : Text) (name : Name) (plain : lead.all isPlain = true) :
      ∀ c ∈ lead ++ name.text, isPlain c = true :=
    List.forall_mem_append.mpr ⟨List.all_eq_true.mp plain,
      fun c member => isPlain_of_isNameChar (name.plain c member)⟩
  cases stem with
  | short c alphanumeric =>
      have plain : isNameChar c = true := by simp [isNameChar, alphanumeric]
      exact List.forall_mem_cons.mpr ⟨by decide,
        List.forall_mem_singleton.mpr (isPlain_of_isNameChar plain)⟩
  | long name => exact named _ name (by decide)
  | negatable name => exact named _ name (by decide)

theorem expand_append (apart : stem.Admits text) : expand (stem.text ++ text) = stem.options := by
  cases stem with
  | short c alphanumeric => exact expand_dash alphanumeric text
  | long name =>
      have unbracketed : (name.text ++ text).head? ≠ some '[' := by
        obtain ⟨c, rest, typed⟩ := List.exists_cons_of_ne_nil name.something
        have plain := name.plain c (by simp [typed])
        rw [typed]
        rintro ⟨⟩
        contradiction
      rw [Stem.text, List.append_assoc, ← dashes_eq, expand_dashes unbracketed,
        name.name_append apart, if_neg name.something]
      rfl
  | negatable name =>
      rw [Stem.text, List.append_assoc, ← negatable_eq, expand_negatable, name.name_append apart,
        if_neg name.something]
      rfl

end Stem

theorem Stem.Admits.trimEnd {stem : Stem} {text : Text} (apart : stem.Admits text) :
    stem.Admits text.trimEnd := by
  cases stem with
  | short => trivial
  | long | negatable => exact fun c member => apart c (Text.mem_head?_of_trimEnd member)

namespace Form

variable (form : Form)

theorem exists_text : ∃ rest, form.text = '-' :: rest := by
  obtain ⟨rest, typed⟩ := form.stem.exists_text
  exact ⟨rest ++ form.argument.text, by rw [text, typed, List.cons_append]⟩

theorem unbroken : '\n' ∉ form.text := by
  intro member
  rcases List.mem_append.mp member with option | argument
  · exact absurd (form.stem.isPlain_text _ option) (by decide)
  · exact form.argument.within argument

theorem single : ¬ [' ', ' '] <:+: form.text := by
  have other : ' ' ∉ form.stem.text := fun member =>
    absurd (form.stem.isPlain_text _ member) (by decide)
  exact fun pair => form.argument.single (Text.pair_infix_of_append other pair)

theorem undivided : ¬ [',', ' '] <:+: form.text := by
  have other : ',' ∉ form.stem.text := fun member =>
    absurd (form.stem.isPlain_text _ member) (by decide)
  exact fun pair => form.argument.undivided (Text.pair_infix_of_append other pair)

theorem expand_trim : expand form.text.trim = form.stem.options := by
  obtain ⟨rest, typed⟩ := form.stem.exists_text
  rw [text, Text.trim_append (by simp [typed]) fun c member =>
    isBlank_of_isPlain (form.stem.isPlain_text c member)]
  exact form.stem.expand_append form.apart.trimEnd

end Form

section joined

variable (first : Form) (others : List Form)

theorem joined_cons (second : Form) :
    joined (first :: second :: others) = first.text ++ ',' :: ' ' :: joined (second :: others) :=
  List.append_assoc ..

theorem exists_joined : ∃ rest, joined (first :: others) = '-' :: rest := by
  obtain ⟨rest, typed⟩ := first.exists_text
  cases others with
  | nil => exact ⟨rest, typed⟩
  | cons second others => exact ⟨_, by rw [joined_cons, typed, List.cons_append]⟩

theorem cutAt_joined :
    Text.CutAt ',' ' ' (joined (first :: others)) ((first :: others).map Form.text) := by
  induction others generalizing first with
  | nil => exact .last first.undivided
  | cons second others ih =>
      rw [joined_cons]
      exact .pair first.undivided (ih second)

theorem single_joined : ¬ [' ', ' '] <:+: joined (first :: others) := by
  induction others generalizing first with
  | nil => exact first.single
  | cons second others ih =>
      obtain ⟨rest, typed⟩ := exists_joined second others
      have onward := ih second
      rw [typed] at onward
      rw [joined_cons, typed]
      refine Text.not_pair_infix_append first.single ?_ (by simp)
      simp [Text.pair_infix_cons_iff, onward]

theorem unbroken_joined : '\n' ∉ joined (first :: others) := by
  induction others generalizing first with
  | nil => exact first.unbroken
  | cons second others ih =>
      rw [joined_cons]
      simp [first.unbroken, ih]

end joined

namespace Entry

variable (entry : Entry)

theorem unbroken_text : '\n' ∉ entry.text := by
  obtain ⟨indentation, description⟩ := entry.unbroken
  have described : '\n' ∉ entry.described := by
    unfold described
    split
    · simp
    · next text found => simp [description text found]
  simp only [text, List.mem_append, not_or]
  exact ⟨indentation, unbroken_joined entry.first entry.others, described⟩

theorem spellings_text :
    spellings entry.text = (entry.forms.map Form.text).map Text.trim := by
  obtain ⟨rest, typed⟩ := exists_joined entry.first entry.others
  have dashed : joined entry.forms ++ entry.described = '-' :: (rest ++ entry.described) := by
    rw [forms, typed, List.cons_append]
  have trimmed : Text.trimStart entry.text = joined entry.forms ++ entry.described := by
    have head : ∀ c ∈ (joined entry.forms ++ entry.described).head?, Text.isBlank c = false := by
      simp [dashed, show Text.isBlank '-' = false by decide]
    rw [text, Text.trimStart_blanks]
    exact Text.trimStart_of_head head
  have ends : entry.described = [] ∨ [' ', ' '] <+: entry.described := by
    unfold described
    split
    · exact .inl rfl
    · exact .inr ⟨_, rfl⟩
  have cut := cutAt_joined entry.first entry.others
  rw [spellings_eq, trimmed, if_pos (by rw [dashed]; rfl)]
  rcases Text.before_append (single_joined entry.first entry.others) ends with whole | short
  · rw [forms, whole, cut.splitOn_eq (by decide)]
  · -- The last argument ends in a space, which is taken for one of the two behind it.
    rw [← short] at cut
    refine cut.map_trim_splitOn (by decide) (fun _ member => ?_) (by decide)
    obtain ⟨form, -, empty⟩ := List.mem_map.mp member
    obtain ⟨rest, typed⟩ := form.exists_text
    simp [typed] at empty

/-- The spellings of an entry are read from its line. -/
theorem lineOptions_text : lineOptions entry.text = entry.forms.flatMap (·.stem.options) := by
  rw [lineOptions, spellings_text, List.flatMap_map, List.flatMap_map]
  simp only [Form.expand_trim]

end Entry

namespace Line

theorem unbroken_text (line : Line) : '\n' ∉ line.text := by
  cases line with
  | spelled entry => exact entry.unbroken_text
  | prose text unbroken => exact unbroken

theorem lineOptions_text (line : Line) :
    lineOptions line.text = line.forms.flatMap (·.stem.options) := by
  cases line with
  | spelled entry => exact entry.lineOptions_text
  | prose text unbroken undashed =>
      have other : (Text.trimStart text).head? ≠ some '-' := by
        intro dash
        obtain ⟨rest, typed⟩ := List.head?_eq_some_iff.mp dash
        obtain ⟨blanks, cut⟩ := Text.exists_blanks_trimStart text
        rw [typed] at cut
        exact undashed (List.find?_eq_some_iff_append.mpr
          ⟨by decide, blanks.text, rest, cut, fun c member => by simp [blanks.blank c member]⟩)
      have nothing : spellings text = [] := by rw [spellings_eq, if_neg other]
      rw [Line.text, lineOptions, nothing]
      rfl

end Line

theorem listed_text (page : Page) : listed page.text = page.forms.flatMap (·.stem.options) := by
  induction page with
  | done => rfl
  | last line => exact (listed_last line.unbroken_text).trans line.lineOptions_text
  | ended line ending rest ih =>
      rw [Page.text, Page.forms, List.flatMap_append, ← ih, ← line.lineOptions_text]
      cases ending with
      | newline => exact listed_line line.unbroken_text rest.text
      | returned =>
          have unbroken : '\n' ∉ line.text ++ ['\r'] := by simp [line.unbroken_text]
          have whole := listed_line unbroken rest.text
          rw [lineOptions_concat_return, List.append_assoc] at whole
          exact whole

theorem Stem.filter_isLong_options (stem : Stem) :
    stem.options.filter isLong = stem.longOptions := by
  cases stem with
  | short c alphanumeric =>
      simp [options, longOptions, isLong, dashes, dash_ne alphanumeric]
  | long | negatable => simp [options, longOptions, isLong, dashes]

/-- The options of a page are those that its entries spell, in the order in which they do. -/
theorem pages_are_read_as_laid_out (page : Page) :
    options page.text = (page.forms.flatMap (·.stem.options)).eraseDups ∧
      longOptions page.text = (page.forms.flatMap (·.stem.longOptions)).eraseDups := by
  constructor
  · rw [options_eq, listed_text, Distinct.extend_nil]
  · rw [longOptions, options_eq, listed_text, Distinct.filter_extend, List.filter_nil,
      Distinct.extend_nil, List.filter_flatMap]
    simp only [Stem.filter_isLong_options]

theorem described_entry_is_read_behind_prose :
    options ['u', ' ', '-', '\r', '\n', '\t', '-', 'U', '<', 'n', '>', ' ', ',', ' ',
        '-', '-', '[', 'n', 'o', '-', ']', 'a', '-', '=', ',', ' ', ' ', '-', 'x'] =
      [['-', 'U'], ['-', '-', 'a', '-'], ['-', '-', 'n', 'o', '-', 'a', '-']] := by
  let number : Form := ⟨.short 'U' rfl,
    ⟨['<', 'n', '>', ' '], by decide, by decide, by decide⟩, trivial⟩
  let named : Form := ⟨.negatable ⟨['a', '-'], by decide, List.all_eq_true.mp (by decide)⟩,
    ⟨['=', ','], by decide, by decide, by decide⟩, by simp [Stem.Admits, isNameChar]⟩
  let tab : Blanks := ⟨['\t'], List.forall_mem_singleton.mpr (by decide)⟩
  let entry : Entry := ⟨tab, number, [named], some ['-', 'x'], by decide⟩
  let prose : Line := .prose ['u', ' ', '-'] (by decide) (by decide)
  let page : Page := .ended prose .returned (.last (.spelled entry))
  exact (pages_are_read_as_laid_out page).1

end LineShell.Git.HelpPage
