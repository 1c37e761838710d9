import LineShell.Text.Basic

namespace LineShell

/-! Sets of names.

The names are kept in ascending order by code point, each once, so that two sets
with the same members are equal.
-/

structure NameSet where
  toList : List Text
  ascending : toList.Pairwise (· < ·)

namespace NameSet

/-- Puts a name in its place, unless it is there. -/
def insertInto (name : Text) : List Text → List Text
  | [] => [name]
  | head :: rest =>
      if name < head then name :: head :: rest
      else if name = head then head :: rest
      else head :: insertInto name rest

theorem mem_insertInto {name other : Text} {names : List Text} :
    other ∈ insertInto name names ↔ other = name ∨ other ∈ names := by
  induction names with
  | nil => simp [insertInto]
  | cons head rest ih =>
      unfold insertInto
      by_cases less : name < head
      · simp [less]
      · by_cases same : name = head
        · subst same
          rw [if_neg less, if_pos rfl, List.mem_cons]
          simp
        · simp only [less, same, if_false, List.mem_cons, ih]
          constructor
          · rintro (h | h | h) <;> simp [h]
          · rintro (h | h | h) <;> simp [h]

theorem ascending_insertInto {name : Text} {names : List Text}
    (ascending : names.Pairwise (· < ·)) :
    (insertInto name names).Pairwise (· < ·) := by
  induction names with
  | nil => simp [insertInto]
  | cons head rest ih =>
      obtain ⟨above, restAscending⟩ := List.pairwise_cons.mp ascending
      unfold insertInto
      by_cases less : name < head
      · rw [if_pos less]
        refine List.pairwise_cons.mpr ⟨?_, ascending⟩
        intro other member
        rcases List.mem_cons.mp member with rfl | member
        · exact less
        · exact List.lt_trans less (above other member)
      · rw [if_neg less]
        by_cases same : name = head
        · rw [if_pos same]
          exact ascending
        · rw [if_neg same]
          refine List.pairwise_cons.mpr ⟨?_, ih restAscending⟩
          intro other member
          rcases mem_insertInto.mp member with rfl | member
          · exact (List.le_iff_lt_or_eq.mp (List.not_lt.mp less)).resolve_right
              (Ne.symm same)
          · exact above other member

def empty : NameSet := ⟨[], .nil⟩

def insert (name : Text) (names : NameSet) : NameSet :=
  ⟨insertInto name names.toList, ascending_insertInto names.ascending⟩

def ofList (names : List Text) : NameSet := names.foldr insert empty

def contains (names : NameSet) (name : Text) : Bool := names.toList.contains name

def union (left right : NameSet) : NameSet := ofList (left.toList ++ right.toList)

def size (names : NameSet) : Nat := names.toList.length

theorem mem_toList_ofList {name : Text} {names : List Text} :
    name ∈ (ofList names).toList ↔ name ∈ names := by
  induction names with
  | nil => simp [ofList, empty]
  | cons head rest ih =>
      change name ∈ insertInto head (ofList rest).toList ↔ _
      rw [mem_insertInto, ih, List.mem_cons]

@[simp] theorem contains_ofList (names : List Text) (name : Text) :
    (ofList names).contains name = names.contains name := by
  rw [Bool.eq_iff_iff]
  simp [contains, mem_toList_ofList]

end NameSet

end LineShell
