import LineShell.Toml.Reader

namespace LineShell.Toml

/-! What readers take from a text.

A reader takes a value from the front of a text and leaves the rest. What it reads from a text
that was put together is told piece by piece: each reader takes its piece, and a loop takes one
piece in each turn.
-/

namespace Reader

variable {α β : Type} {text middle rest : Text}

/-- What is read from a text, and what is left of it. -/
def Reads (reader : Reader α) (text : Text) (value : α) (rest : Text) : Prop :=
  reader text = some (value, rest)

theorem Reads.pure (value : α) (text : Text) : Reads (pure value) text value text := rfl

theorem Reads.bind_eq {reader : Reader α} {value : α} (first : reader.Reads text value rest)
    (next : α → Reader β) : (reader >>= next) text = next value rest := by
  rw [Reads] at first
  simp [Bind.bind, StateT.bind, first]

theorem Reads.bind {reader : Reader α} {next : α → Reader β} {value : α} {result : β}
    (first : reader.Reads text value middle) (onward : (next value).Reads middle result rest) :
    (reader >>= next).Reads text result rest :=
  (first.bind_eq next).trans onward

theorem reads_next (c : Char) (rest : Text) : next.Reads (c :: rest) c rest := rfl

theorem reads_peek (text : Text) : peek?.Reads text text.head? text := rfl

theorem reads_char (c : Char) (rest : Text) : (char c).Reads (c :: rest) () rest := by
  refine (reads_next c rest).bind ?_
  rw [if_pos rfl]
  exact .pure () rest

theorem reads_taken (lead rest : Text) : (taken lead).Reads (lead ++ rest) true rest := by
  simp [Reads, taken]

theorem reads_taken_other {lead : Text} (other : ¬ lead <+: text) :
    (taken lead).Reads text false text := by
  simp [Reads, taken, other]

theorem reads_takeWhile {wanted : Char → Bool} {front : Text} (all : ∀ c ∈ front, wanted c = true)
    (ends : ∀ c ∈ rest.head?, wanted c = false) :
    (takeWhile wanted).Reads (front ++ rest) front rest := by
  rw [Reads, takeWhile, List.takeWhile_append_of_pos all, List.dropWhile_append_of_pos all]
  cases rest with
  | nil => simp
  | cons c rest =>
      have unwanted : ¬ wanted c = true := by simp [ends c rfl]
      rw [List.takeWhile_cons_of_neg unwanted, List.dropWhile_cons_of_neg unwanted,
        List.append_nil]

theorem reads_count {c : Char} {found limit : Nat} (few : found ≤ limit)
    (ends : rest.head? ≠ some c) :
    (count c limit).Reads (List.replicate found c ++ rest) found rest := by
  have short : (List.replicate found c).length ≤ limit := by simpa using few
  have counted : ((List.replicate found c ++ rest).take limit).takeWhile (· = c) =
      List.replicate found c := by
    rw [List.take_append, List.take_of_length_le short,
      List.takeWhile_append_of_pos (by simp)]
    cases rest with
    | nil => simp
    | cons other rest =>
        have different : other ≠ c := fun same => ends (congrArg some same)
        cases limit - (List.replicate found c).length <;> simp [different]
  simp only [Reads, count, counted, List.length_replicate]
  rw [List.drop_left' List.length_replicate]

/-- Reads items one after the other, each from a shorter text, until there is none. -/
inductive Turns (item : Reader (Option α)) : Text → List α → Text → Prop where
  | stop {text rest : Text} (none : item.Reads text none rest) : Turns item text [] rest
  | more {text middle rest : Text} {value : α} {values : List α}
      (first : item.Reads text (some value) middle) (shorter : middle.length < text.length)
      (others : Turns item middle values rest) : Turns item text (value :: values) rest

theorem Turns.many {item : Reader (Option α)} {values : List α}
    (turns : Turns item text values rest) : (many item).Reads text values rest := by
  have enough (fuel : Nat) (within : text.length < fuel) :
      (many.go item fuel).Reads text values rest := by
    induction turns generalizing fuel with
    | stop none =>
        cases fuel with
        | zero => cases within
        | succ fuel => exact none.bind (.pure [] _)
    | more first shorter others ih =>
        cases fuel with
        | zero => cases within
        | succ fuel => exact first.bind ((ih fuel (by omega)).bind (.pure _ _))
  exact enough (text.length + 1) (Nat.lt_succ_self _)

/-- Pieces of a text that are read as items whatever follows them. -/
inductive Pieces (item : Reader (Option α)) : List α → Text → Prop where
  | nil : Pieces item [] []
  | cons {piece written : Text} {value : α} {values : List α}
      (first : ∀ rest, item.Reads (piece ++ rest) (some value) rest) (something : piece ≠ [])
      (others : Pieces item values written) : Pieces item (value :: values) (piece ++ written)

theorem Pieces.flatMap {β : Type} {item : Reader (Option α)} {value : β → α} {written : β → Text}
    (first : ∀ source rest, item.Reads (written source ++ rest) (some (value source)) rest)
    (something : ∀ source, written source ≠ []) (sources : List β) :
    Pieces item (sources.map value) (sources.flatMap written) := by
  induction sources with
  | nil => exact .nil
  | cons source sources ih => exact .cons (first source) (something source) ih

theorem Pieces.turns {item : Reader (Option α)} {values : List α} {written behind : Text}
    (pieces : Pieces item values written) (stops : item.Reads behind none rest) :
    Turns item (written ++ behind) values rest := by
  induction pieces with
  | nil => exact .stop stops
  | @cons piece written value values first something others ih =>
      have positive : 0 < piece.length := List.length_pos_iff.mpr something
      rw [List.append_assoc]
      refine .more (first (written ++ behind)) ?_ ih
      simp only [List.length_append]
      omega

end Reader

open Reader

variable {text rest : Text} {c : Char}

theorem reads_spaces {blanks : Text} (all : ∀ c ∈ blanks, isSpace c = true)
    (ends : ∀ c ∈ rest.head?, isSpace c = false) : spaces.Reads (blanks ++ rest) () rest :=
  (reads_takeWhile all ends).bind (.pure () rest)

theorem reads_spaces_none (ends : ∀ c ∈ text.head?, isSpace c = false) :
    spaces.Reads text () text := reads_spaces (List.forall_mem_nil _) ends

theorem reads_newline? (rest : Text) : newline?.Reads ('\n' :: rest) true rest :=
  (reads_taken ['\n'] rest).bind (.pure true rest)

theorem reads_newline (rest : Text) : newline.Reads ('\n' :: rest) () rest := by
  refine (reads_newline? rest).bind ?_
  rw [if_pos rfl]
  exact .pure () rest

theorem reads_newline?_other (other : ∀ c ∈ text.head?, c ≠ '\n' ∧ c ≠ '\r') :
    newline?.Reads text false text := by
  have lineFeed : ¬ ['\n'] <+: text := by
    rintro ⟨rest, rfl⟩
    exact (other '\n' rfl).1 rfl
  have carriageReturn : ¬ ['\r', '\n'] <+: text := by
    rintro ⟨rest, rfl⟩
    exact (other '\r' rfl).2 rfl
  exact (reads_taken_other lineFeed).bind (reads_taken_other carriageReturn)

end LineShell.Toml
