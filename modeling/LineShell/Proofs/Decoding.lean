import LineShell.Text.Utf8

namespace LineShell

/-! Reading UTF-8.

What is read as a text is the form that the text is written in, and nothing else is read as
one. A character is told by its first byte: how many bytes follow it, and where the next one
must lie so that the character is neither written longer than it has to be, nor half of a
pair, nor out of range.
-/

namespace Utf8

variable {first : UInt8} {c : Char}

theorem toNat_valid (c : Char) :
    c.toNat < 0xD800 ∨ 0xDFFF < c.toNat ∧ c.toNat < 0x110000 := c.valid

theorem ofNat_eq_iff {code : Nat} (valid : code < 0xD800 ∨ 0xDFFF < code ∧ code < 0x110000) :
    Char.ofNat code = c ↔ c.toNat = code := by
  constructor
  · rintro rfl
    rw [Char.ofNat, dif_pos valid]
    rfl
  · rintro rfl
    exact Char.ofNat_toNat c

/-- How a character is written. -/
inductive Written (c : Char) : Bytes → Prop where
  | one {a : UInt8} (range : c.toNat < 0x80) (front : a.toNat = c.toNat) : Written c [a]
  | two {a b : UInt8} (range : 0x80 ≤ c.toNat ∧ c.toNat < 0x800)
      (front : a.toNat = c.toNat / 64 + 0xC0) (last : b.toNat = c.toNat % 64 + 0x80) :
      Written c [a, b]
  | three {a b d : UInt8} (range : 0x800 ≤ c.toNat ∧ c.toNat < 0x10000)
      (front : a.toNat = c.toNat / 4096 + 0xE0) (second : b.toNat = c.toNat / 64 % 64 + 0x80)
      (last : d.toNat = c.toNat % 64 + 0x80) : Written c [a, b, d]
  | four {a b d e : UInt8} (range : 0x10000 ≤ c.toNat)
      (front : a.toNat = c.toNat / 262144 + 0xF0)
      (second : b.toNat = c.toNat / 4096 % 64 + 0x80)
      (third : d.toNat = c.toNat / 64 % 64 + 0x80)
      (last : e.toNat = c.toNat % 64 + 0x80) : Written c [a, b, d, e]

theorem written_encodeChar (c : Char) : Written c (String.utf8EncodeChar c) := by
  have valid := toNat_valid c
  have same : c.val.toNat = c.toNat := rfl
  unfold String.utf8EncodeChar
  simp only [same]
  split
  · refine .one ?_ ?_
    · omega
    · rw [UInt8.toNat_ofNat']
      omega
  split
  · refine .two ?_ ?_ ?_
    · omega
    all_goals rw [UInt8.toNat_ofNat']; omega
  split
  · refine .three ?_ ?_ ?_ ?_
    · omega
    all_goals rw [UInt8.toNat_ofNat']; omega
  · refine .four ?_ ?_ ?_ ?_ ?_
    · omega
    all_goals rw [UInt8.toNat_ofNat']; omega

/-- There is one way of writing a character. -/
theorem Written.unique {bytes bytes' : Bytes} (left : Written c bytes) (right : Written c bytes') :
    bytes = bytes' := by
  have same {a a' : UInt8} {code : Nat} (here : a.toNat = code) (there : a'.toNat = code) :
      a = a' := UInt8.toNat_inj.mp (here.trans there.symm)
  cases left with
  | one range front =>
      cases right with
      | one _ front' => rw [same front front']
      | two range' | three range' | four range' => omega
  | two range front last =>
      cases right with
      | two _ front' last' => rw [same front front', same last last']
      | one range' | three range' | four range' => omega
  | three range front second last =>
      cases right with
      | three _ front' second' last' =>
          rw [same front front', same second second', same last last']
      | one range' | two range' | four range' => omega
  | four range front second third last =>
      cases right with
      | four _ front' second' third' last' =>
          rw [same front front', same second second', same third third', same last last']
      | one range' | two range' | three range' => omega

theorem lead?_two (least : 0xC2 ≤ first.toNat) (greatest : first.toNat ≤ 0xDF) :
    lead? first = some ⟨1, 0x80, 0xBF⟩ := by
  have within : 0xC2 ≤ first ∧ first ≤ 0xDF := ⟨least, greatest⟩
  rw [lead?, if_pos within]

theorem lead?_three (least : 0xE0 ≤ first.toNat) (greatest : first.toNat ≤ 0xEF) :
    ∃ low high, lead? first = some ⟨2, low, high⟩ ∧
      (first.toNat = 0xE0 ∧ low.toNat = 0xA0 ∨ first.toNat ≠ 0xE0 ∧ low.toNat = 0x80) ∧
      (first.toNat = 0xED ∧ high.toNat = 0x9F ∨ first.toNat ≠ 0xED ∧ high.toNat = 0xBF) := by
  simp only [lead?, UInt8.le_iff_toNat_le, ← UInt8.toNat_inj, UInt8.reduceToNat]
  rw [if_neg (by omega)]
  by_cases lowest : first.toNat = 0xE0
  · exact ⟨0xA0, 0xBF, by simp [lowest], by simp [lowest], by simp [lowest]⟩
  by_cases surrogates : first.toNat = 0xED
  · exact ⟨0x80, 0x9F, by simp [surrogates], by simp [surrogates], by simp [surrogates]⟩
  · refine ⟨0x80, 0xBF, ?_, by simp [lowest], by simp [surrogates]⟩
    rw [if_neg lowest, if_neg surrogates, if_pos (by omega)]

theorem lead?_four (least : 0xF0 ≤ first.toNat) (greatest : first.toNat ≤ 0xF4) :
    ∃ low high, lead? first = some ⟨3, low, high⟩ ∧
      (first.toNat = 0xF0 ∧ low.toNat = 0x90 ∨ first.toNat ≠ 0xF0 ∧ low.toNat = 0x80) ∧
      (first.toNat = 0xF4 ∧ high.toNat = 0x8F ∨ first.toNat ≠ 0xF4 ∧ high.toNat = 0xBF) := by
  simp only [lead?, UInt8.le_iff_toNat_le, ← UInt8.toNat_inj, UInt8.reduceToNat]
  rw [if_neg (by omega), if_neg (by omega), if_neg (by omega), if_neg (by omega)]
  by_cases lowest : first.toNat = 0xF0
  · exact ⟨0x90, 0xBF, by simp [lowest], by simp [lowest], by simp [lowest]⟩
  by_cases highest : first.toNat = 0xF4
  · exact ⟨0x80, 0x8F, by simp [highest], by simp [highest], by simp [highest]⟩
  · refine ⟨0x80, 0xBF, ?_, by simp [lowest], by simp [highest]⟩
    rw [if_neg lowest, if_pos (by omega)]

theorem lead?_none (outside : first.toNat < 0xC2 ∨ 0xF4 < first.toNat) : lead? first = none := by
  simp only [lead?, UInt8.le_iff_toNat_le, ← UInt8.toNat_inj, UInt8.reduceToNat]
  repeat rw [if_neg (by omega)]

theorem tail_zero_iff {least greatest : UInt8} {code : Nat} {bytes rest : Bytes} :
    tail 0 least greatest code bytes = (.character c, rest) ↔
      Char.ofNat code = c ∧ bytes = rest := by
  simp [tail]

theorem tail_succ_iff {following code : Nat} {least greatest : UInt8} {bytes rest : Bytes} :
    tail (following + 1) least greatest code bytes = (.character c, rest) ↔
      ∃ byte more, bytes = byte :: more ∧
        (least.toNat ≤ byte.toNat ∧ byte.toNat ≤ greatest.toNat) ∧
        tail following 0x80 0xBF (code * 64 + (byte.toNat - 0x80)) more =
          (.character c, rest) := by
  cases bytes with
  | nil => simp [tail]
  | cons byte more =>
      simp only [tail, UInt8.le_iff_toNat_le]
      constructor
      · intro read
        split at read
        · next within => exact ⟨byte, more, rfl, within, read⟩
        · simp at read
      · rintro ⟨byte', more', same, within, read⟩
        obtain ⟨rfl, rfl⟩ := List.cons.inj same
        rwa [if_pos within]

theorem next_single {bytes : Bytes} (single : first.toNat < 0x80) :
    next first bytes = (.character (Char.ofNat first.toNat), bytes) := by
  have below : first < 0x80 := single
  rw [next, if_pos below]

theorem next_lead {bytes : Bytes} {following : Nat} {least greatest : UInt8}
    (longer : 0x80 ≤ first.toNat) (leads : lead? first = some ⟨following, least, greatest⟩) :
    next first bytes = tail following least greatest (leadBits following first) bytes := by
  have above : ¬ first < 0x80 := Nat.not_lt.mpr longer
  rw [next, if_neg above, leads]

theorem written_of_next {bytes rest : Bytes} (read : next first bytes = (.character c, rest)) :
    ∃ behind, Written c (first :: behind) ∧ bytes = behind ++ rest := by
  by_cases single : first.toNat < 0x80
  · rw [next_single single] at read
    obtain ⟨found, rfl⟩ := Prod.mk.inj read
    obtain found := (ofNat_eq_iff (by omega)).mp (Front.character.inj found)
    exact ⟨[], .one (by omega) found.symm, rfl⟩
  by_cases two : 0xC2 ≤ first.toNat ∧ first.toNat ≤ 0xDF
  · have bits : leadBits 1 first = first.toNat % 32 := rfl
    rw [next_lead (by omega) (lead?_two two.1 two.2), bits] at read
    obtain ⟨b, bytes, rfl, within, read⟩ := tail_succ_iff.mp read
    obtain ⟨found, rfl⟩ := tail_zero_iff.mp read
    simp only [UInt8.reduceToNat] at within
    rw [ofNat_eq_iff (by omega)] at found
    exact ⟨[b], .two (by omega) (by omega) (by omega), rfl⟩
  by_cases three : 0xE0 ≤ first.toNat ∧ first.toNat ≤ 0xEF
  · have bits : leadBits 2 first = first.toNat % 16 := rfl
    obtain ⟨low, high, leads, lowest, highest⟩ := lead?_three three.1 three.2
    rw [next_lead (by omega) leads, bits] at read
    obtain ⟨b, bytes, rfl, within, read⟩ := tail_succ_iff.mp read
    obtain ⟨d, bytes, rfl, within', read⟩ := tail_succ_iff.mp read
    obtain ⟨found, rfl⟩ := tail_zero_iff.mp read
    simp only [UInt8.reduceToNat] at within'
    rw [ofNat_eq_iff (by omega)] at found
    exact ⟨[b, d], .three (by omega) (by omega) (by omega) (by omega), rfl⟩
  by_cases four : 0xF0 ≤ first.toNat ∧ first.toNat ≤ 0xF4
  · have bits : leadBits 3 first = first.toNat % 8 := rfl
    obtain ⟨low, high, leads, lowest, highest⟩ := lead?_four four.1 four.2
    rw [next_lead (by omega) leads, bits] at read
    obtain ⟨b, bytes, rfl, within, read⟩ := tail_succ_iff.mp read
    obtain ⟨d, bytes, rfl, within', read⟩ := tail_succ_iff.mp read
    obtain ⟨e, bytes, rfl, within'', read⟩ := tail_succ_iff.mp read
    obtain ⟨found, rfl⟩ := tail_zero_iff.mp read
    simp only [UInt8.reduceToNat] at within' within''
    rw [ofNat_eq_iff (by omega)] at found
    exact ⟨[b, d, e], .four (by omega) (by omega) (by omega) (by omega) (by omega), rfl⟩
  · have above : ¬ first < 0x80 := single
    rw [next, if_neg above, lead?_none (by omega)] at read
    cases read

theorem next_of_written {behind : Bytes} (written : Written c (first :: behind)) (rest : Bytes) :
    next first (behind ++ rest) = (.character c, rest) := by
  have valid := toNat_valid c
  cases written with
  | one range front =>
      rw [next_single (by omega), front, Char.ofNat_toNat]
      rfl
  | @two _ b range front last =>
      have bits : leadBits 1 first = first.toNat % 32 := rfl
      rw [next_lead (by omega) (lead?_two (by omega) (by omega)), bits]
      refine tail_succ_iff.mpr ⟨b, rest, rfl, ?_, tail_zero_iff.mpr ⟨?_, rfl⟩⟩
      · simp only [UInt8.reduceToNat]
        omega
      · rw [ofNat_eq_iff (by omega)]
        omega
  | @three _ b d range front second last =>
      have bits : leadBits 2 first = first.toNat % 16 := rfl
      obtain ⟨low, high, leads, lowest, highest⟩ :=
        lead?_three (by omega : 0xE0 ≤ first.toNat) (by omega)
      rw [next_lead (by omega) leads, bits]
      refine tail_succ_iff.mpr ⟨b, d :: rest, rfl, by omega, ?_⟩
      refine tail_succ_iff.mpr ⟨d, rest, rfl, ?_, tail_zero_iff.mpr ⟨?_, rfl⟩⟩
      · simp only [UInt8.reduceToNat]
        omega
      · rw [ofNat_eq_iff (by omega)]
        omega
  | @four _ b d e range front second third last =>
      have bits : leadBits 3 first = first.toNat % 8 := rfl
      obtain ⟨low, high, leads, lowest, highest⟩ :=
        lead?_four (by omega : 0xF0 ≤ first.toNat) (by omega)
      rw [next_lead (by omega) leads, bits]
      refine tail_succ_iff.mpr ⟨b, d :: e :: rest, rfl, by omega, ?_⟩
      refine tail_succ_iff.mpr ⟨d, e :: rest, rfl, ?_, ?_⟩
      · simp only [UInt8.reduceToNat]
        omega
      refine tail_succ_iff.mpr ⟨e, rest, rfl, ?_, tail_zero_iff.mpr ⟨?_, rfl⟩⟩
      · simp only [UInt8.reduceToNat]
        omega
      · rw [ofNat_eq_iff (by omega)]
        omega

theorem decode?_nil : decode? [] = some [] := by simp [decode?, fronts]

theorem decode?_cons {bytes rest : Bytes} (read : next first bytes = (.character c, rest)) :
    decode? (first :: bytes) = (decode? rest).map (c :: ·) := by
  rw [decode?, fronts, read]
  simp only [List.mapM_cons, Option.pure_def, Option.bind_eq_bind, Option.bind_some]
  rw [← decode?]
  cases decode? rest <;> rfl

theorem decode?_malformed {bytes rest : Bytes} (read : next first bytes = (.malformed, rest)) :
    decode? (first :: bytes) = none := by
  rw [decode?, fronts, read]
  simp

theorem decode?_eq_some_nil_iff {bytes : Bytes} : decode? bytes = some [] ↔ bytes = [] := by
  constructor
  · intro read
    cases bytes with
    | nil => rfl
    | cons first bytes =>
        cases found : next first bytes with
        | mk front rest =>
            cases front with
            | character c => simp [decode?_cons found] at read
            | malformed => simp [decode?_malformed found] at read
  · rintro rfl
    exact decode?_nil

theorem decode?_eq_some_cons_iff {bytes : Bytes} {text : Text} :
    decode? bytes = some (c :: text) ↔
      ∃ rest, bytes = String.utf8EncodeChar c ++ rest ∧ decode? rest = some text := by
  constructor
  · intro read
    cases bytes with
    | nil => simp [decode?_nil] at read
    | cons first bytes =>
        cases found : next first bytes with
        | mk front rest =>
            cases front with
            | malformed => simp [decode?_malformed found] at read
            | character c' =>
                rw [decode?_cons found, Option.map_eq_some_iff] at read
                obtain ⟨text', onward, same⟩ := read
                obtain ⟨rfl, rfl⟩ := List.cons.inj same
                obtain ⟨behind, written, rfl⟩ := written_of_next found
                rw [(written_encodeChar c').unique written]
                exact ⟨rest, rfl, onward⟩
  · rintro ⟨rest, rfl, onward⟩
    have written := written_encodeChar c
    cases bytes : String.utf8EncodeChar c with
    | nil =>
        rw [bytes] at written
        cases written
    | cons first behind =>
        rw [bytes] at written
        rw [List.cons_append, decode?_cons (next_of_written written rest), onward]
        rfl

/-- The text of a byte sequence is the one that is written so. -/
theorem decode?_eq_some_iff {bytes : Bytes} {text : Text} :
    decode? bytes = some text ↔ encode text = bytes := by
  induction text generalizing bytes with
  | nil =>
      rw [decode?_eq_some_nil_iff]
      exact eq_comm
  | cons c text ih =>
      simp only [decode?_eq_some_cons_iff, ih]
      constructor
      · rintro ⟨rest, rfl, rfl⟩
        rfl
      · rintro rfl
        exact ⟨_, rfl, rfl⟩

theorem decode?_eq_none_iff {bytes : Bytes} :
    decode? bytes = none ↔ ∀ text, encode text ≠ bytes := by
  simp only [Option.eq_none_iff_forall_ne_some, ne_eq, decode?_eq_some_iff]

end Utf8

end LineShell
