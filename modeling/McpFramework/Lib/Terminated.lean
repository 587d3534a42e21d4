import Mathlib.Data.List.Basic

/-!
# Lib — Terminated

Words written one after the other, each with an end mark. Where the mark occurs
in no word, the words can be read back; strings in UTF-8 have such a mark in
`0xff`, which no encoded character contains.
-/

namespace McpFramework.Lib

variable {α : Type*} {mark : α} {w w' rest rest' : List α} {words words' : List (List α)}

/-- The words in their order, each with an end mark. -/
def terminate (mark : α) (words : List (List α)) : List α :=
  words.flatMap fun w => w ++ [mark]

@[simp] theorem terminate_nil : terminate mark [] = [] := rfl

@[simp] theorem terminate_cons : terminate mark (w :: words) = w ++ mark :: terminate mark words := by
  simp [terminate]

/-- The first mark is where the first word ends. -/
theorem append_mark_inj (hw : mark ∉ w) (hw' : mark ∉ w')
    (h : w ++ mark :: rest = w' ++ mark :: rest') : w = w' ∧ rest = rest' := by
  induction w generalizing w' with
  | nil =>
    cases w' with
    | nil =>
      cases h
      exact ⟨rfl, rfl⟩
    | cons a w' =>
      have hhead : mark = a := (List.cons.inj h).1
      exact absurd (hhead ▸ List.mem_cons_self) hw'
  | cons a w ih =>
    cases w' with
    | nil =>
      have hhead : a = mark := (List.cons.inj h).1
      exact absurd (hhead ▸ List.mem_cons_self) hw
    | cons a' w' =>
      obtain ⟨hhead, htail⟩ := List.cons.inj h
      obtain ⟨hword, hrest⟩ := ih (fun hmem => hw (List.mem_cons_of_mem a hmem))
        (fun hmem => hw' (List.mem_cons_of_mem a' hmem)) htail
      rw [hhead, hword]
      exact ⟨rfl, hrest⟩

/-- Words without the mark are read back. -/
theorem terminate_injective (hw : ∀ w ∈ words, mark ∉ w) (hw' : ∀ w ∈ words', mark ∉ w)
    (h : terminate mark words = terminate mark words') : words = words' := by
  induction words generalizing words' with
  | nil =>
    cases words' with
    | nil => rfl
    | cons w' words' =>
      rw [terminate_nil, terminate_cons] at h
      have hmem : mark ∈ ([] : List α) := by
        rw [h]
        exact List.mem_append_right _ List.mem_cons_self
      cases hmem
  | cons w words ih =>
    cases words' with
    | nil =>
      rw [terminate_nil, terminate_cons] at h
      have hmem : mark ∈ ([] : List α) := by
        rw [← h]
        exact List.mem_append_right _ List.mem_cons_self
      cases hmem
    | cons w' words' =>
      rw [terminate_cons, terminate_cons] at h
      obtain ⟨hword, hrest⟩ := append_mark_inj (hw w List.mem_cons_self)
        (hw' w' List.mem_cons_self) h
      have hwords := ih (fun v hv => hw v (List.mem_cons_of_mem w hv))
        (fun v hv => hw' v (List.mem_cons_of_mem w' hv)) hrest
      rw [hword, hwords]

/-! ## UTF-8 -/

/-- The loop of `ByteArray.toList`: what it has read so far, and what is left. -/
theorem toList_loop (bytes : ByteArray) (i : Nat) (read : List UInt8) :
    ByteArray.toList.loop bytes i read = read.reverse ++ bytes.data.toList.drop i := by
  fun_induction ByteArray.toList.loop bytes i read with
  | case1 i read hlt ih =>
    have hi : i < bytes.data.toList.length := by simpa using hlt
    rw [ih, List.drop_eq_getElem_cons hi]
    simp [ByteArray.get!, hlt]
  | case2 i read hge =>
    have hi : bytes.data.toList.length ≤ i := by simpa using hge
    rw [List.drop_eq_nil_of_le hi, List.append_nil]

theorem toList_eq_data (bytes : ByteArray) : bytes.toList = bytes.data.toList := by
  rw [ByteArray.toList, toList_loop]
  rfl

/-- The bytes of a string. -/
theorem toUTF8_toList (s : String) :
    s.toUTF8.toList = s.toList.flatMap String.utf8EncodeChar := by
  rw [toList_eq_data, String.toUTF8_eq_toByteArray, ← String.utf8Encode_toList]
  exact List.toList_data_toByteArray

theorem ofNat_ne_ff {n : Nat} (h : n < 0xff) : (0xff : UInt8) ≠ UInt8.ofNat n := by
  intro heq
  have hnat : 0xff = (UInt8.ofNat n).toNat := congrArg UInt8.toNat heq
  rw [UInt8.toNat_ofNat'] at hnat
  omega

/-- No byte of a character is `0xff`: a first byte is below `0xf8`, the others
are below `0xc0`. -/
theorem ff_notMem_utf8EncodeChar (c : Char) : (0xff : UInt8) ∉ String.utf8EncodeChar c := by
  intro hmem
  unfold String.utf8EncodeChar at hmem
  dsimp only at hmem
  split at hmem
  · simp only [List.mem_singleton] at hmem
    exact ofNat_ne_ff (by omega) hmem
  · split at hmem
    · simp only [List.mem_cons, List.not_mem_nil, or_false] at hmem
      rcases hmem with h | h
      · exact ofNat_ne_ff (by omega) h
      · exact ofNat_ne_ff (by omega) h
    · split at hmem
      · simp only [List.mem_cons, List.not_mem_nil, or_false] at hmem
        rcases hmem with h | h | h
        · exact ofNat_ne_ff (by omega) h
        · exact ofNat_ne_ff (by omega) h
        · exact ofNat_ne_ff (by omega) h
      · simp only [List.mem_cons, List.not_mem_nil, or_false] at hmem
        rcases hmem with h | h | h | h
        · exact ofNat_ne_ff (by omega) h
        · exact ofNat_ne_ff (by omega) h
        · exact ofNat_ne_ff (by omega) h
        · exact ofNat_ne_ff (by omega) h

theorem ff_notMem_toUTF8 (s : String) : (0xff : UInt8) ∉ s.toUTF8.toList := by
  rw [toUTF8_toList, List.mem_flatMap]
  rintro ⟨c, -, hc⟩
  exact ff_notMem_utf8EncodeChar c hc

theorem toUTF8_toList_injective {s s' : String} (h : s.toUTF8.toList = s'.toUTF8.toList) :
    s = s' := by
  rw [toList_eq_data, toList_eq_data, Array.toList_inj, String.toUTF8_eq_toByteArray,
    String.toUTF8_eq_toByteArray] at h
  exact String.toByteArray_inj.mp (ByteArray.ext h)

end McpFramework.Lib
