import LineShell.Proofs.Decoding

namespace LineShell

/-! Texts by their bytes.

The order of texts is that of their code points. It is also the order of the bytes that
they are written in, since the first byte of a longer character is the greater one and
characters of one length are written in places of descending weight.
-/

namespace Utf8

variable {c d : Char} {bytes bytes' rest rest' : Bytes}

theorem cons_lt_cons_iff {a b : UInt8} :
    a :: rest < b :: rest' ↔ a.toNat < b.toNat ∨ a.toNat = b.toNat ∧ rest < rest' := by
  rw [List.cons_lt_cons_iff, UInt8.lt_iff_toNat_lt, UInt8.toNat_inj]

/-- The first byte of a longer character is the greater one, and so is the character. -/
theorem Written.exists_first_lt (written : Written c bytes) (written' : Written d bytes')
    (shorter : bytes.length < bytes'.length) :
    c.toNat < d.toNat ∧ ∃ a more b more',
      bytes = a :: more ∧ bytes' = b :: more' ∧ a.toNat < b.toNat := by
  cases written <;> cases written' <;> simp only [List.length_cons, List.length_nil] at shorter <;>
    first
    | omega
    | exact ⟨by omega, _, _, _, _, rfl, rfl, by omega⟩

/-- Numbers are compared by all but the last of their digits, and then by the last. -/
theorem lt_or_last_digit_iff {m n : Nat} {later : Prop} :
    m / 64 < n / 64 ∨ m / 64 = n / 64 ∧ (m % 64 < n % 64 ∨ m % 64 = n % 64 ∧ later) ↔
      m < n ∨ m = n ∧ later := by
  by_cases settled : later
  · simp only [settled, and_true]
    omega
  · simp only [settled, and_false, or_false]
    omega

theorem Written.append_lt_append_iff (written : Written c bytes) (written' : Written d bytes') :
    bytes ++ rest < bytes' ++ rest' ↔
      c.toNat < d.toNat ∨ c.toNat = d.toNat ∧ rest < rest' := by
  rcases Nat.lt_trichotomy bytes.length bytes'.length with shorter | even | longer
  · obtain ⟨less, a, more, b, more', rfl, rfl, first⟩ := written.exists_first_lt written' shorter
    exact iff_of_true (cons_lt_cons_iff.mpr (.inl first)) (.inl less)
  · have square (m : Nat) : m / 4096 = m / 64 / 64 := by rw [Nat.div_div_eq_div_mul]
    have cube (m : Nat) : m / 262144 = m / 64 / 64 / 64 := by
      rw [Nat.div_div_eq_div_mul, Nat.div_div_eq_div_mul]
    cases written <;> cases written' <;> simp at even <;>
      simp only [List.cons_append, List.nil_append, cons_lt_cons_iff, Nat.add_lt_add_iff_right,
        Nat.add_right_cancel_iff, lt_or_last_digit_iff, *]
  · obtain ⟨less, b, more', a, more, rfl, rfl, first⟩ := written'.exists_first_lt written longer
    refine iff_of_false ?_ (by omega)
    intro before
    rcases cons_lt_cons_iff.mp before with before | ⟨same, -⟩
    · omega
    · omega

theorem encode_cons (c : Char) (text : Text) :
    encode (c :: text) = String.utf8EncodeChar c ++ encode text := List.flatMap_cons

theorem length_encode (text : Text) : (encode text).length = text.byteSize := by
  induction text with
  | nil => rfl
  | cons c text ih =>
      rw [encode_cons, List.length_append, String.length_utf8EncodeChar, ih, Text.byteSize_cons]

theorem encode_ne_nil (c : Char) (text : Text) : encode (c :: text) ≠ [] := by
  have written := written_encodeChar c
  rw [encode_cons]
  generalize String.utf8EncodeChar c = bytes at written ⊢
  cases written <;> simp

theorem encode_lt_encode_iff {left right : Text} : encode left < encode right ↔ left < right := by
  induction left generalizing right with
  | nil =>
      cases right with
      | nil => exact Iff.of_eq (by simp [encode])
      | cons d right =>
          obtain ⟨byte, more, written⟩ := List.exists_cons_of_ne_nil (encode_ne_nil d right)
          rw [written]
          exact iff_of_true (List.nil_lt_cons byte more) (List.nil_lt_cons d right)
  | cons c left ih =>
      cases right with
      | nil => exact iff_of_false (List.not_lt_nil _) (List.not_lt_nil _)
      | cons d right =>
          rw [encode_cons, encode_cons, List.cons_lt_cons_iff, ← ih, ← Char.toNat_inj]
          exact (written_encodeChar c).append_lt_append_iff (written_encodeChar d)

end Utf8

end LineShell
