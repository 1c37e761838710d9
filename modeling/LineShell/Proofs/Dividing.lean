import LineShell.Proofs.Cutting

namespace LineShell

namespace Text

/-! Texts cut at pairs of characters, and blanks at the end of what is trimmed.

A separator of two different characters cuts a text into the pieces that `CutAt` tells. One more
character at the end joins the last piece, unless it completes a separator.
-/

variable {a b c : Char} {text piece rest tail : Text} {pieces : List Text}

theorem afterLead?_append (lead rest : Text) : afterLead? lead (lead ++ rest) = some rest := by
  simp [afterLead?]

theorem pair_prefix_iff : [a, b] <+: c :: text ↔ c = a ∧ text.head? = some b := by
  rw [List.cons_prefix_cons, eq_comm]
  cases text with
  | nil => simp
  | cons d text => simp [List.cons_prefix_cons, eq_comm]

theorem pair_infix_cons_iff :
    [a, b] <:+: c :: text ↔ (c = a ∧ text.head? = some b) ∨ [a, b] <:+: text := by
  rw [List.infix_cons_iff, pair_prefix_iff]

theorem pair_infix_of_append (other : a ∉ text) (pair : [a, b] <:+: text ++ rest) :
    [a, b] <:+: rest := by
  induction text with
  | nil => exact pair
  | cons c text ih =>
      obtain ⟨here, later⟩ := not_or.mp (mt List.mem_cons.mpr other)
      rw [List.cons_append, pair_infix_cons_iff] at pair
      rcases pair with ⟨same, -⟩ | pair
      · exact absurd same.symm here
      · exact ih later pair

theorem not_pair_infix_append (left : ¬ [a, b] <:+: text) (right : ¬ [a, b] <:+: rest)
    (apart : rest.head? ≠ some b) : ¬ [a, b] <:+: text ++ rest := by
  induction text with
  | nil => exact right
  | cons c text ih =>
      rw [pair_infix_cons_iff, not_or] at left
      rw [List.cons_append, pair_infix_cons_iff, not_or]
      refine ⟨?_, ih left.2⟩
      cases text with
      | nil => exact fun pair => apart pair.2
      | cons d text => exact left.1

/-- The pieces of a text between the pairs that stand in it. -/
inductive CutAt (a b : Char) : Text → List Text → Prop where
  | last {piece : Text} (whole : ¬ [a, b] <:+: piece) : CutAt a b piece [piece]
  | pair {piece rest : Text} {pieces : List Text} (whole : ¬ [a, b] <:+: piece)
      (onward : CutAt a b rest pieces) : CutAt a b (piece ++ a :: b :: rest) (piece :: pieces)

theorem splitOn_pair (a b : Char) (rest : Text) :
    splitOn [a, b] (a :: b :: rest) = [] :: splitOn [a, b] rest := by
  simp [splitOn, splitOn.go]

theorem splitOn_cons (other : ¬ (c = a ∧ rest.head? = some b))
    (found : splitOn [a, b] rest = piece :: pieces) :
    splitOn [a, b] (c :: rest) = (c :: piece) :: pieces := by
  have unfound : ¬ ([a, b] ≠ [] ∧ [a, b].isPrefixOf (c :: rest) = true) := by
    rw [List.isPrefixOf_iff_prefix, pair_prefix_iff]
    exact fun both => other both.2
  have found : splitOn.go [a, b] 0 rest = piece :: pieces := found
  rw [splitOn, splitOn.go, if_neg unfound, found]

theorem splitOn_append (whole : ¬ [a, b] <:+: piece) (bare : tail.head? ≠ some b)
    (empty : splitOn [a, b] tail = [] :: pieces) :
    splitOn [a, b] (piece ++ tail) = piece :: pieces := by
  induction piece with
  | nil => exact empty
  | cons c piece ih =>
      rw [pair_infix_cons_iff, not_or] at whole
      refine splitOn_cons ?_ (ih whole.2)
      cases piece with
      | nil => exact fun pair => bare pair.2
      | cons d piece => exact whole.1

namespace CutAt

theorem splitOn_eq (apart : a ≠ b) (cut : CutAt a b text pieces) :
    splitOn [a, b] text = pieces := by
  induction cut with
  | @last piece whole =>
      have alone : splitOn [a, b] (piece ++ []) = [piece] := splitOn_append whole (by simp) rfl
      rwa [List.append_nil] at alone
  | pair whole onward ih =>
      exact splitOn_append whole (by simpa using apart) (by rw [splitOn_pair, ih])

theorem ne_nil (cut : CutAt a b text pieces) : pieces ≠ [] := by
  cases cut <;> simp

theorem eq_of_nil (cut : CutAt a b [] pieces) : pieces = [[]] := by
  generalize typed : [] = text at cut
  cases cut with
  | last => rfl
  | pair => simp at typed

theorem cons (other : ¬ (c = a ∧ text.head? = some b)) (cut : CutAt a b text (piece :: pieces)) :
    CutAt a b (c :: text) ((c :: piece) :: pieces) := by
  cases cut with
  | last whole => exact .last (by rw [pair_infix_cons_iff]; exact not_or.mpr ⟨other, whole⟩)
  | @pair _ rest _ whole onward =>
      refine @CutAt.pair a b (c :: piece) rest pieces ?_ onward
      rw [pair_infix_cons_iff, not_or]
      refine ⟨fun ⟨same, next⟩ => other ⟨same, ?_⟩, whole⟩
      rw [List.head?_append, next]
      rfl

/-- Every text is cut at the pairs in it. -/
theorem exists_pieces (a b : Char) : ∀ text, ∃ pieces, CutAt a b text pieces
  | [] => ⟨_, .last (by simp)⟩
  | c :: text => by
      by_cases pair : c = a ∧ text.head? = some b
      · obtain ⟨rfl, next⟩ := pair
        obtain ⟨rest, rfl⟩ := List.head?_eq_some_iff.mp next
        obtain ⟨pieces, cut⟩ := exists_pieces c b rest
        exact ⟨[] :: pieces, @CutAt.pair c b [] rest pieces (by simp) cut⟩
      · obtain ⟨pieces, cut⟩ := exists_pieces a b text
        obtain ⟨piece, more, rfl⟩ := List.exists_cons_of_ne_nil cut.ne_nil
        exact ⟨_, cut.cons pair⟩

/-- The last character of a text ends its last piece, if it does not complete a pair. -/
theorem of_concat (cut : CutAt a b (text ++ [c]) pieces) (joined : c = b → [] ∉ pieces) :
    ∃ front last, pieces = front ++ [last ++ [c]] ∧ CutAt a b text (front ++ [last]) := by
  generalize typed : text ++ [c] = whole at cut
  induction cut generalizing text with
  | last whole =>
      subst typed
      exact ⟨[], text, rfl, .last fun pair => whole (pair.trans (List.infix_append' [] text [c]))⟩
  | @pair piece rest pieces whole onward ih =>
      rcases List.eq_nil_or_concat rest with rfl | ⟨body, last, rfl⟩
      · -- The pair ends the text, and the piece behind it is empty.
        have typed : text ++ [c] = (piece ++ [a]) ++ [b] := by simpa using typed
        obtain ⟨-, same⟩ := List.append_inj' typed rfl
        rw [onward.eq_of_nil] at joined
        exact absurd (by simp) (joined (List.cons.inj same).1)
      · have typed : text ++ [c] = (piece ++ a :: b :: body) ++ [last] := by simpa using typed
        obtain ⟨rfl, same⟩ := List.append_inj' typed rfl
        obtain rfl := (List.cons.inj same).1
        obtain ⟨front, last, rfl, shorter⟩ := ih (fun same member => joined same (.tail _ member))
          (List.concat_eq_append ..).symm
        exact ⟨piece :: front, last, rfl, .pair whole shorter⟩

end CutAt

theorem before_pair (a b : Char) (rest : Text) : before [a, b] (a :: b :: rest) = [] := by
  simp [before]

theorem before_cons (other : ¬ (c = a ∧ text.head? = some b)) :
    before [a, b] (c :: text) = c :: before [a, b] text := by
  have unfound : ¬ [a, b].isPrefixOf (c :: text) = true := by
    rwa [List.isPrefixOf_iff_prefix, pair_prefix_iff]
  rw [before, if_neg unfound]

/-- A character that ends no pair is either behind one or at the end of what is before all. -/
theorem before_concat (other : c ≠ b) (text : Text) :
    before [a, b] (text ++ [c]) = before [a, b] text ∨
      (before [a, b] text = text ∧ before [a, b] (text ++ [c]) = text ++ [c]) := by
  induction text with
  | nil => exact .inr ⟨rfl, before_cons (by simp)⟩
  | cons d text ih =>
      by_cases pair : d = a ∧ text.head? = some b
      · obtain ⟨rfl, next⟩ := pair
        obtain ⟨rest, rfl⟩ := List.head?_eq_some_iff.mp next
        exact .inl (by simp [before_pair])
      · have still : ¬ (d = a ∧ (text ++ [c]).head? = some b) := by
          cases text with
          | nil => simpa using fun _ => other
          | cons e text => exact pair
        rw [List.cons_append, before_cons pair, before_cons still]
        simpa using ih

/-- Of a text in front of two equal characters the last may be one of these, too. -/
theorem before_append (single : ¬ [a, a] <:+: text) (ends : rest = [] ∨ [a, a] <+: rest) :
    before [a, a] (text ++ rest) = text ∨ before [a, a] (text ++ rest) ++ [a] = text := by
  induction text with
  | nil =>
      rcases ends with rfl | ⟨behind, rfl⟩
      · exact .inl rfl
      · exact .inl (before_pair a a behind)
  | cons c text ih =>
      rw [pair_infix_cons_iff, not_or] at single
      by_cases pair : c = a ∧ (text ++ rest).head? = some a
      · cases text with
        | nil =>
            obtain ⟨rfl, next⟩ := pair
            obtain ⟨behind, rfl⟩ := List.head?_eq_some_iff.mp next
            exact .inr (by simp [before_pair])
        | cons d text => exact absurd pair single.1
      · rw [List.cons_append, before_cons pair]
        simpa using ih single.2

theorem trimStart_append (something : trimStart text ≠ []) (more : Text) :
    trimStart (text ++ more) = trimStart text ++ more := by
  obtain ⟨blanks, cut⟩ := exists_blanks_trimStart text
  have head : ∀ c ∈ (trimStart text ++ more).head?, isBlank c = false := by
    obtain ⟨c, rest, typed⟩ := List.exists_cons_of_ne_nil something
    have first := head_trimStart text c (by simp [typed])
    simpa [typed] using first
  calc trimStart (text ++ more)
      = trimStart (blanks.text ++ (trimStart text ++ more)) := by
        rw [← List.append_assoc, ← cut]
    _ = trimStart text ++ more := by rw [trimStart_blanks, trimStart_of_head head]

theorem trimStart_append_blanks (nothing : trimStart text = []) (blanks : Blanks) :
    trimStart (text ++ blanks.text) = [] := by
  obtain ⟨front, cut⟩ := exists_blanks_trimStart text
  have bare := trimStart_blanks blanks []
  rw [List.append_nil] at bare
  rw [cut, nothing, List.append_nil, trimStart_blanks, bare]
  rfl

theorem trim_append_blanks (text : Text) (blanks : Blanks) :
    trim (text ++ blanks.text) = trim text := by
  by_cases nothing : trimStart text = []
  · rw [trim, trim, trimStart_append_blanks nothing, nothing]
  · rw [trim, trim, trimStart_append nothing, trimEnd_blanks]

theorem trim_append {lead : Text} (something : lead ≠ [])
    (visible : ∀ c ∈ lead, isBlank c = false) (text : Text) :
    trim (lead ++ text) = lead ++ trimEnd text := by
  have head (more : Text) : trimStart (lead ++ more) = lead ++ more := by
    obtain ⟨c, rest, typed⟩ := List.exists_cons_of_ne_nil something
    apply trimStart_of_head
    simpa [typed] using visible c (by simp [typed])
  have last : trimStart lead.reverse = lead.reverse := by
    apply trimStart_of_head
    intro c member
    exact visible c (List.mem_reverse.mp (List.mem_of_mem_head? member))
  rw [trim, head, trimEnd_eq_reverse, List.reverse_append, trimEnd_eq_reverse]
  by_cases nothing : trimStart text.reverse = []
  · obtain ⟨blanks, cut⟩ := exists_blanks_trimStart text.reverse
    rw [nothing, List.append_nil] at cut
    rw [nothing, cut, trimStart_blanks, last]
    simp
  · rw [trimStart_append nothing]
    simp

/-- A blank at the end, which is not part of a separator, is trimmed off the last piece. -/
theorem CutAt.map_trim_splitOn (apart : a ≠ b) (cut : CutAt a b (text ++ [c]) pieces)
    (joined : c = b → [] ∉ pieces) (blank : isBlank c = true) :
    (splitOn [a, b] text).map trim = pieces.map trim := by
  obtain ⟨front, last, rfl, shorter⟩ := cut.of_concat joined
  have trimmed : trim (last ++ [c]) = trim last :=
    trim_append_blanks last ⟨[c], by simpa using blank⟩
  rw [shorter.splitOn_eq apart]
  simp [trimmed]

end Text

end LineShell
