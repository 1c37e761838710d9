namespace LineShell

/-! Lists that grow without repetition. -/

namespace Distinct

variable {α : Type} [DecidableEq α]

/-- Adds the items that are not there yet, one after the other. -/
def extend (found : List α) : List α → List α
  | [] => found
  | item :: items =>
      if found.contains item then extend found items
      else extend (found ++ [item]) items

variable {found items : List α} {item : α}

theorem extend_of_mem (member : item ∈ found) :
    extend found (item :: items) = extend found items := by
  rw [extend, if_pos (by simpa using member)]

theorem extend_of_not_mem (fresh : item ∉ found) :
    extend found (item :: items) = extend (found ++ [item]) items := by
  rw [extend, if_neg (by simpa using fresh)]

theorem mem_extend : item ∈ extend found items ↔ item ∈ found ∨ item ∈ items := by
  induction items generalizing found with
  | nil => simp [extend]
  | cons head items ih =>
      by_cases member : head ∈ found
      · rw [extend_of_mem member, ih]
        constructor
        · rintro (old | new)
          · exact .inl old
          · exact .inr (.tail _ new)
        · rintro (old | new)
          · exact .inl old
          · rcases List.mem_cons.mp new with rfl | new
            · exact .inl member
            · exact .inr new
      · rw [extend_of_not_mem member, ih]
        simp [or_assoc]

theorem nodup_extend (nodup : found.Nodup) : (extend found items).Nodup := by
  induction items generalizing found with
  | nil => exact nodup
  | cons head items ih =>
      by_cases member : head ∈ found
      · rw [extend_of_mem member]
        exact ih nodup
      · rw [extend_of_not_mem member]
        apply ih
        rw [List.nodup_append]
        refine ⟨nodup, by simp, ?_⟩
        intro old oldMember new newMember
        obtain rfl := List.mem_singleton.mp newMember
        rintro rfl
        exact member oldMember

theorem extend_append (found items more : List α) :
    extend found (items ++ more) = extend (extend found items) more := by
  induction items generalizing found with
  | nil => rfl
  | cons item items ih =>
      by_cases member : item ∈ found
      · rw [List.cons_append, extend_of_mem member, extend_of_mem member, ih]
      · rw [List.cons_append, extend_of_not_mem member, extend_of_not_mem member, ih]

/-- Of the items that are not there yet, the first of each kind is added. -/
theorem extend_eq_append_eraseDups [BEq α] [LawfulBEq α] (found items : List α) :
    extend found items = found ++ (items.filter (· ∉ found)).eraseDups := by
  induction items generalizing found with
  | nil => simp [extend]
  | cons item items ih =>
      by_cases member : item ∈ found
      · rw [extend_of_mem member, ih, List.filter_cons_of_neg (by simpa using member)]
      · rw [extend_of_not_mem member, ih, List.filter_cons_of_pos (by simpa using member),
          List.eraseDups_cons, List.filter_filter, List.append_assoc, List.singleton_append]
        congr 4
        funext other
        grind

theorem extend_nil [BEq α] [LawfulBEq α] (items : List α) : extend [] items = items.eraseDups := by
  have all : items.filter (· ∉ []) = items := List.filter_eq_self.mpr (by simp)
  rw [extend_eq_append_eraseDups, all, List.nil_append]

theorem filter_extend (wanted : α → Bool) (found items : List α) :
    (extend found items).filter wanted = extend (found.filter wanted) (items.filter wanted) := by
  induction items generalizing found with
  | nil => rfl
  | cons item items ih =>
      cases want : wanted item with
      | true =>
          rw [List.filter_cons_of_pos want]
          by_cases member : item ∈ found
          · rw [extend_of_mem member, extend_of_mem (List.mem_filter.mpr ⟨member, want⟩), ih]
          · have fresh : item ∉ found.filter wanted :=
              fun among => member (List.mem_filter.mp among).1
            rw [extend_of_not_mem member, extend_of_not_mem fresh, ih]
            simp [want]
      | false =>
          rw [List.filter_cons_of_neg (by simp [want])]
          by_cases member : item ∈ found
          · rw [extend_of_mem member, ih]
          · rw [extend_of_not_mem member, ih]
            simp [want]

/-- What was there at first is passed over when it comes again, and else changes nothing. -/
theorem extend_eq_append_filter (found items : List α) :
    extend found items = found ++ (extend [] items).filter (· ∉ found) := by
  rw [extend_eq_append_eraseDups, filter_extend, List.filter_nil, extend_nil]

theorem extend_of_subset (there : ∀ item ∈ items, item ∈ found) : extend found items = found := by
  induction items with
  | nil => rfl
  | cons item items ih =>
      rw [extend_of_mem (there item (.head _))]
      exact ih fun item member => there item (.tail _ member)

theorem extend_eq_append (distinct : items.Nodup) (fresh : ∀ item ∈ items, item ∉ found) :
    extend found items = found ++ items := by
  induction items generalizing found with
  | nil => rw [extend, List.append_nil]
  | cons item items ih =>
      obtain ⟨single, distinct'⟩ := List.nodup_cons.mp distinct
      have fresh' : ∀ other ∈ items, other ∉ found ++ [item] := by
        intro other member among
        rcases List.mem_append.mp among with old | same
        · exact fresh other (.tail _ member) old
        · obtain rfl := List.mem_singleton.mp same
          exact single member
      rw [extend_of_not_mem (fresh item (.head _)), ih distinct' fresh', List.append_assoc,
        List.singleton_append]

/-- What was added is not added again. -/
theorem extend_extend (found items : List α) :
    extend found (extend found items) = extend found items := by
  have single : (extend [] items).Nodup := nodup_extend List.nodup_nil
  have distinct := single.filter (· ∉ found)
  have fresh : ∀ item ∈ (extend [] items).filter (· ∉ found), item ∉ found :=
    fun item member => of_decide_eq_true (List.mem_filter.mp member).2
  rw [extend_eq_append_filter found items, extend_append,
    extend_of_subset fun item member => member, extend_eq_append distinct fresh]

end Distinct

end LineShell
