namespace LineShell

/-! Text and its places.

Text is a list of characters, so that every reader of it can recurse on it.
Places in a line are counted in bytes of its UTF-8 form, because that is how
they are reported; a place is usable only where a character begins or the text
ends, which is what `dropBytes?` and `takeBytes?` check.
-/

abbrev Text := List Char

namespace Text

/-- The length of the UTF-8 form. -/
def byteSize : Text → Nat
  | [] => 0
  | c :: rest => c.utf8Size + byteSize rest

@[simp] theorem byteSize_nil : byteSize [] = 0 := rfl

@[simp] theorem byteSize_cons (c : Char) (rest : Text) :
    byteSize (c :: rest) = c.utf8Size + byteSize rest := rfl

@[simp] theorem byteSize_append (left right : Text) :
    byteSize (left ++ right) = byteSize left + byteSize right := by
  induction left with
  | nil => simp
  | cons c left ih => simp [ih, Nat.add_assoc]

/-- What is left after the first `count` bytes, if they end where a character
ends. -/
def dropBytes? : Nat → Text → Option Text
  | 0, text => some text
  | _ + 1, [] => none
  | count + 1, c :: rest =>
      if c.utf8Size ≤ count + 1 then dropBytes? (count + 1 - c.utf8Size) rest
      else none

/-- The first `count` bytes, if they end where a character ends. -/
def takeBytes? : Nat → Text → Option Text
  | 0, _ => some []
  | _ + 1, [] => none
  | count + 1, c :: rest =>
      if c.utf8Size ≤ count + 1 then
        (takeBytes? (count + 1 - c.utf8Size) rest).map (c :: ·)
      else none

/-- The text between two places, if both are places of this text and in
order. -/
def slice? (text : Text) (start stop : Nat) : Option Text :=
  if start ≤ stop then
    (text.dropBytes? start).bind (takeBytes? (stop - start))
  else none

theorem dropBytes?_byteSize_append (left right : Text) :
    dropBytes? left.byteSize (left ++ right) = some right := by
  induction left with
  | nil => cases right <;> rfl
  | cons c left ih =>
      have positive : 0 < c.utf8Size := c.utf8Size_pos
      obtain ⟨count, size⟩ : ∃ count, c.utf8Size + byteSize left = count + 1 :=
        ⟨c.utf8Size + byteSize left - 1, by omega⟩
      have remaining : count + 1 - c.utf8Size = byteSize left := by omega
      rw [byteSize_cons, size, List.cons_append, dropBytes?,
        if_pos (by omega), remaining, ih]

theorem takeBytes?_byteSize_append (left right : Text) :
    takeBytes? left.byteSize (left ++ right) = some left := by
  induction left with
  | nil => cases right <;> rfl
  | cons c left ih =>
      have positive : 0 < c.utf8Size := c.utf8Size_pos
      obtain ⟨count, size⟩ : ∃ count, c.utf8Size + byteSize left = count + 1 :=
        ⟨c.utf8Size + byteSize left - 1, by omega⟩
      have remaining : count + 1 - c.utf8Size = byteSize left := by omega
      rw [byteSize_cons, size, List.cons_append, takeBytes?,
        if_pos (by omega), remaining, ih, Option.map_some]

/-- The middle of three parts is found by the sizes of the first two. -/
theorem slice?_append (left middle right : Text) :
    slice? (left ++ middle ++ right) left.byteSize
      (left.byteSize + middle.byteSize) = some middle := by
  have length : left.byteSize + middle.byteSize - left.byteSize =
      middle.byteSize := by omega
  rw [slice?, if_pos (by omega), List.append_assoc,
    dropBytes?_byteSize_append, Option.bind_some, length,
    takeBytes?_byteSize_append]

def ofNat (value : Nat) : Text := Nat.toDigits 10 value

/-- The decimal digits of a whole number, after a minus sign if it is
negative. -/
def ofInt : Int → Text
  | .ofNat value => ofNat value
  | .negSucc value => '-' :: ofNat (value + 1)

/-- Pieces joined by a separator. -/
def join (separator : Text) : List Text → Text
  | [] => []
  | [piece] => piece
  | piece :: pieces => piece ++ separator ++ join separator pieces

theorem join_eq_intercalate (separator : Text) (pieces : List Text) :
    join separator pieces = separator.intercalate pieces := by
  induction pieces with
  | nil => rfl
  | cons piece pieces ih =>
      cases pieces with
      | nil => simp [join]
      | cons next more => simp [join, ih]

/-- The pieces between the places where `separator` stands, found from the left
without overlap. An empty separator separates nothing. -/
def splitOn (separator : Text) (text : Text) : List Text :=
  go 0 text
where
  /-- `skip` characters of a separator just found are still to be passed. -/
  go (skip : Nat) : Text → List Text
    | [] => [[]]
    | c :: rest =>
        match skip with
        | skip + 1 => go skip rest
        | 0 =>
            if separator ≠ [] ∧ separator.isPrefixOf (c :: rest) then
              [] :: go (separator.length - 1) rest
            else
              match go 0 rest with
              | [] => [[c]]
              | piece :: pieces => (c :: piece) :: pieces

/-- The text up to the first place where `separator` stands, or all of it. -/
def before (separator : Text) : Text → Text
  | [] => []
  | c :: rest =>
      if separator.isPrefixOf (c :: rest) then [] else c :: before separator rest

/-- What follows `lead`, if the text begins with it. -/
def afterLead? (lead text : Text) : Option Text :=
  if lead.isPrefixOf text then some (text.drop lead.length) else none

/-- The text followed by spaces until it has `width` characters. -/
def padRight (width : Nat) (text : Text) : Text :=
  text ++ List.replicate (width - text.length) ' '

end Text

end LineShell
