import McpFramework.Lib.Terminated
import Mathlib.Data.List.DropRight

/-!
# Lib — PercentEncoding

Text in which bytes are written as `%XX`: a decoder that lets a `%` stand where
no two hexadecimal digits follow it, encoders that write each byte on its own,
and lists of pairs written with `=` and `&`.

An encoder is given by what it writes for one byte. A decoder that reads this
back whatever comes after it reads back all the encoder writes (`Reads`).
-/

namespace McpFramework.Lib

/-! ## Digits -/

def hexDigit (n : Nat) : Char :=
  if n < 10 then Char.ofNat (48 + n) else Char.ofNat (55 + n)

/-- Upper and lower case. -/
def hexValue (c : Char) : Option Nat :=
  if 48 ≤ c.toNat ∧ c.toNat ≤ 57 then some (c.toNat - 48)
  else if 65 ≤ c.toNat ∧ c.toNat ≤ 70 then some (c.toNat - 55)
  else if 97 ≤ c.toNat ∧ c.toNat ≤ 102 then some (c.toNat - 87)
  else none

theorem hexValue_hexDigit {n : Nat} (h : n < 16) : hexValue (hexDigit n) = some n := by
  have hall : ∀ n < 16, hexValue (hexDigit n) = some n := by decide
  exact hall n h

/-! ## Decoding -/

/-- The byte that three characters stand for. -/
def escaped (c hi lo : Char) : Option UInt8 :=
  if c = '%' then
    (hexValue hi).bind fun h => (hexValue lo).map fun l => UInt8.ofNat (16 * h + l)
  else none

def percentDecode : List Char → List UInt8
  | c :: hi :: lo :: text =>
    match escaped c hi lo with
    | some b => b :: percentDecode text
    | none => String.utf8EncodeChar c ++ percentDecode (hi :: lo :: text)
  | c :: text => String.utf8EncodeChar c ++ percentDecode text
  | [] => []

def unplus (c : Char) : Char := if c = '+' then ' ' else c

/-- As in a form, where `+` stands for a space. -/
def formDecode (text : List Char) : List UInt8 := percentDecode (text.map unplus)

/-- `lossy` reads what is no UTF-8. -/
def decodeText (lossy : ByteArray → String) (dec : List Char → List UInt8)
    (text : List Char) : String :=
  let bytes := (dec text).toByteArray
  (String.fromUTF8? bytes).getD (lossy bytes)

theorem percentDecode_cons_of_ne {c : Char} (h : c ≠ '%') (text : List Char) :
    percentDecode (c :: text) = String.utf8EncodeChar c ++ percentDecode text := by
  match text with
  | [] => rfl
  | [_] => rfl
  | hi :: lo :: text =>
    rw [percentDecode, escaped, if_neg h]

theorem fromUTF8?_bytes (s : String) :
    String.fromUTF8? (s.toList.flatMap String.utf8EncodeChar).toByteArray = some s := by
  have hbytes : (s.toList.flatMap String.utf8EncodeChar).toByteArray = s.toByteArray :=
    String.utf8Encode_toList
  have hvalid : (s.toList.flatMap String.utf8EncodeChar).toByteArray.IsValidUTF8 :=
    hbytes ▸ s.isValidUTF8
  rw [String.fromUTF8?, dif_pos hvalid, Option.some.injEq, ← String.toByteArray_inj]
  exact hbytes

/-! ## Encoding -/

def escapeByte (b : UInt8) : List Char :=
  ['%', hexDigit (b.toNat / 16), hexDigit (b.toNat % 16)]

def isAlphanumeric (b : UInt8) : Bool :=
  (0x30 ≤ b && b ≤ 0x39) || (0x41 ≤ b && b ≤ 0x5a) || (0x61 ≤ b && b ≤ 0x7a)

/-- A byte of a URI component: `-`, `.`, `_` and `~` are kept. -/
def uriByte (b : UInt8) : List Char :=
  if isAlphanumeric b || b == 0x2d || b == 0x2e || b == 0x5f || b == 0x7e then
    [Char.ofNat b.toNat]
  else escapeByte b

/-- A byte of a form: `*`, `-`, `.` and `_` are kept, and a space is a `+`. -/
def formByte (b : UInt8) : List Char :=
  if b == 0x20 then ['+']
  else if isAlphanumeric b || b == 0x2a || b == 0x2d || b == 0x2e || b == 0x5f then
    [Char.ofNat b.toNat]
  else escapeByte b

def encodeText (enc : UInt8 → List Char) (s : String) : List Char :=
  (s.toList.flatMap String.utf8EncodeChar).flatMap enc

/-- The decoder reads what is written for a byte, whatever comes after it. -/
structure Reads (dec : List Char → List UInt8) (enc : UInt8 → List Char) : Prop where
  nil : dec [] = []
  byte : ∀ b text, dec (enc b ++ text) = b :: dec text

section Reads

variable {dec : List Char → List UInt8} {enc : UInt8 → List Char} {lossy : ByteArray → String}

theorem Reads.bytes (h : Reads dec enc) (bs : List UInt8) : dec (bs.flatMap enc) = bs := by
  induction bs with
  | nil => exact h.nil
  | cons b bs ih => rw [List.flatMap_cons, h.byte, ih]

/-- What an encoder writes for a text is read back. -/
theorem Reads.text (h : Reads dec enc) (s : String) :
    decodeText lossy dec (encodeText enc s) = s := by
  rw [decodeText, encodeText, h.bytes, fromUTF8?_bytes]
  rfl

theorem percentDecode_escapeByte (b : UInt8) (text : List Char) :
    percentDecode (escapeByte b ++ text) = b :: percentDecode text := by
  have hb : b.toNat < 256 := b.toNat_lt
  have hesc : escaped '%' (hexDigit (b.toNat / 16)) (hexDigit (b.toNat % 16)) = some b := by
    rw [escaped, if_pos rfl, hexValue_hexDigit (by omega), hexValue_hexDigit (by omega)]
    show some (UInt8.ofNat (16 * (b.toNat / 16) + b.toNat % 16)) = some b
    rw [show 16 * (b.toNat / 16) + b.toNat % 16 = b.toNat by omega, UInt8.ofNat_toNat]
  show percentDecode ('%' :: hexDigit (b.toNat / 16) :: hexDigit (b.toNat % 16) :: text) = _
  rw [percentDecode, hesc]

/-- Bytes that are characters of their own. -/
theorem utf8EncodeChar_ofNat {b : UInt8} (h : b.toNat < 128) :
    String.utf8EncodeChar (Char.ofNat b.toNat) = [b] := by
  have hval : (Char.ofNat b.toNat).val.toNat = b.toNat := by
    rw [Char.ofNat, dif_pos (Or.inl (by omega))]
    rfl
  unfold String.utf8EncodeChar
  rw [hval]
  simp [show b.toNat ≤ 0x7f by omega]

theorem percentDecode_ofNat {b : UInt8} (h : b.toNat < 128) (hne : b ≠ 0x25) (text : List Char) :
    percentDecode (Char.ofNat b.toNat :: text) = b :: percentDecode text := by
  have hchar : Char.ofNat b.toNat ≠ '%' := by
    intro heq
    have hbytes := utf8EncodeChar_ofNat h
    rw [heq] at hbytes
    exact hne (List.cons.inj hbytes).1.symm
  rw [percentDecode_cons_of_ne hchar, utf8EncodeChar_ofNat h, List.singleton_append]

/-- A property of all bytes, by their values. -/
theorem forall_byte {P : UInt8 → Prop} (h : ∀ n < 256, P (UInt8.ofNat n)) (b : UInt8) : P b := by
  have hb := h b.toNat b.toNat_lt
  rwa [UInt8.ofNat_toNat] at hb

/-- What an encoder writes for a byte: the byte itself or its escape. -/
theorem uriByte_cases (b : UInt8) :
    (uriByte b = [Char.ofNat b.toNat] ∧ b.toNat < 128 ∧ b ≠ 0x25 ∧ Char.ofNat b.toNat ≠ '+') ∨
      uriByte b = escapeByte b := by
  revert b
  exact forall_byte (by decide +kernel)

theorem formByte_cases (b : UInt8) :
    (formByte b = [Char.ofNat b.toNat] ∧ b.toNat < 128 ∧ b ≠ 0x25 ∧ Char.ofNat b.toNat ≠ '+') ∨
      formByte b = escapeByte b ∨ (formByte b = ['+'] ∧ b = 0x20) := by
  revert b
  exact forall_byte (by decide +kernel)

theorem percentDecode_uriByte (b : UInt8) (text : List Char) :
    percentDecode (uriByte b ++ text) = b :: percentDecode text := by
  rcases uriByte_cases b with ⟨hkept, hlt, hne, -⟩ | hesc
  · rw [hkept]
    exact percentDecode_ofNat hlt hne text
  · rw [hesc]
    exact percentDecode_escapeByte b text

theorem reads_uri : Reads percentDecode uriByte := ⟨rfl, percentDecode_uriByte⟩

/-- No digit is a `+`. -/
theorem formDecode_escapeByte (b : UInt8) (text : List Char) :
    formDecode (escapeByte b ++ text) = b :: formDecode text := by
  have hdigit : ∀ n < 16, unplus (hexDigit n) = hexDigit n := by decide
  have hb : b.toNat < 256 := b.toNat_lt
  have hmap : (escapeByte b).map unplus = escapeByte b := by
    show [unplus '%', unplus (hexDigit (b.toNat / 16)), unplus (hexDigit (b.toNat % 16))] = _
    rw [hdigit _ (by omega), hdigit _ (by omega)]
    rfl
  rw [formDecode, List.map_append, hmap, percentDecode_escapeByte, formDecode]

theorem formDecode_ofNat {b : UInt8} (h : b.toNat < 128) (hne : b ≠ 0x25)
    (hplus : Char.ofNat b.toNat ≠ '+') (text : List Char) :
    formDecode (Char.ofNat b.toNat :: text) = b :: formDecode text := by
  rw [formDecode, List.map_cons, unplus, if_neg hplus, percentDecode_ofNat h hne, formDecode]

/-- A form is read by a decoder of forms. -/
theorem reads_form : Reads formDecode formByte where
  nil := rfl
  byte b text := by
    rcases formByte_cases b with ⟨hkept, hlt, hne, hplus⟩ | hesc | ⟨hplus, rfl⟩
    · rw [hkept]
      exact formDecode_ofNat hlt hne hplus text
    · rw [hesc]
      exact formDecode_escapeByte b text
    · rw [hplus]
      show percentDecode (' ' :: _) = _
      rw [percentDecode_cons_of_ne (by decide)]
      rfl

/-- It also reads the components of a URI, which have no `+`. -/
theorem reads_uri_form : Reads formDecode uriByte where
  nil := rfl
  byte b text := by
    rcases uriByte_cases b with ⟨hkept, hlt, hne, hplus⟩ | hesc
    · rw [hkept]
      exact formDecode_ofNat hlt hne hplus text
    · rw [hesc]
      exact formDecode_escapeByte b text

end Reads

/-! ## Characters -/

/-- The characters that an encoder writes; no delimiter of a URL is one. -/
def isWritten (c : Char) : Bool :=
  c.isAlphanum || c == '%' || c == '+' || c == '*' || c == '-' || c == '.' || c == '_' || c == '~'

/-- An encoder that writes no delimiter. -/
def Plain (enc : UInt8 → List Char) : Prop :=
  ∀ b, ∀ c ∈ enc b, isWritten c = true

theorem plain_of_all {enc : UInt8 → List Char}
    (h : ∀ n < 256, (enc (UInt8.ofNat n)).all isWritten = true) : Plain enc := by
  intro b
  have hall : (enc b).all isWritten = true :=
    forall_byte (P := fun b => (enc b).all isWritten = true) h b
  exact List.all_eq_true.mp hall

theorem plain_uri : Plain uriByte :=
  plain_of_all (by decide +kernel)

theorem plain_form : Plain formByte :=
  plain_of_all (by decide +kernel)

theorem Plain.text {enc : UInt8 → List Char} (h : Plain enc) {s : String} {c : Char}
    (hc : c ∈ encodeText enc s) : isWritten c = true := by
  obtain ⟨b, -, hb⟩ := List.mem_flatMap.mp hc
  exact h b c hb

/-! ## Pieces -/

/-- The pieces between the marks have none. -/
theorem notMem_of_mem_splitOn {α : Type*} [DecidableEq α] {mark : α} {text piece : List α}
    (h : piece ∈ text.splitOn mark) : mark ∉ piece := by
  induction text generalizing piece with
  | nil =>
    rw [List.splitOn_nil, List.mem_singleton] at h
    rw [h]
    exact List.not_mem_nil
  | cons c text ih =>
    obtain ⟨first, rest, hsplit⟩ := List.exists_cons_of_ne_nil (List.splitOn_ne_nil mark text)
    rw [List.splitOn_cons_eq_if_modifyHead, hsplit] at h
    rw [hsplit] at ih
    split at h
    · rcases List.mem_cons.mp h with rfl | h
      · exact List.not_mem_nil
      · exact ih h
    · next hc =>
      rcases List.mem_cons.mp h with rfl | h
      · intro hmem
        rcases List.mem_cons.mp hmem with rfl | hmem
        · exact hc (beq_self_eq_true _)
        · exact ih List.mem_cons_self hmem
      · exact ih (List.mem_cons_of_mem first h)

/-! ## Pairs -/

/-- The name ends at the first `=`. -/
def splitPair (piece : List Char) : List Char × List Char :=
  (piece.takeWhile (· ≠ '='), (piece.dropWhile (· ≠ '=')).drop 1)

/-- The pairs of a text, in their order; empty pieces are skipped. -/
def readPairs (dec : List Char → String) (text : List Char) : List (String × String) :=
  ((text.splitOn '&').filter (· ≠ [])).map fun piece =>
    (dec (splitPair piece).1, dec (splitPair piece).2)

def writePair (enc : String → List Char) (e : String × String) : List Char :=
  enc e.1 ++ '=' :: enc e.2

/-- The pairs are written after what is there, each after a `&` unless nothing is
before it. -/
def appendPairs (enc : String → List Char) (target : List Char) (pairs : List (String × String)) :
    List Char :=
  pairs.foldl (fun target e => (if target = [] then [] else target ++ ['&']) ++ writePair enc e)
    target

section Pairs

variable {dec : List Char → String} {enc : String → List Char}

theorem readPairs_nil : readPairs dec [] = [] := rfl

theorem readPairs_append (text text' : List Char) :
    readPairs dec (text ++ '&' :: text') = readPairs dec text ++ readPairs dec text' := by
  rw [readPairs, List.splitOn_append_cons_self, List.filter_append, List.map_append]
  rfl

/-- A pair whose sides are read back, and which are written without delimiters. -/
structure Separable (dec : List Char → String) (enc : String → List Char) (e : String × String) :
    Prop where
  name : dec (enc e.1) = e.1
  value : dec (enc e.2) = e.2
  written : ∀ c ∈ enc e.1 ++ enc e.2, isWritten c = true

theorem splitPair_append {name : List Char} (h : '=' ∉ name) (value : List Char) :
    splitPair (name ++ '=' :: value) = (name, value) := by
  have hname : ∀ c ∈ name, decide (c ≠ '=') = true := by
    intro c hc
    exact decide_eq_true fun heq => h (heq ▸ hc)
  rw [splitPair, List.takeWhile_append_of_pos hname, List.dropWhile_append_of_pos hname]
  simp

/-- A piece has an `=` after its name, or it is a name. -/
theorem splitPair_cases (piece : List Char) :
    piece = (splitPair piece).1 ++ '=' :: (splitPair piece).2 ∨
      (piece = (splitPair piece).1 ∧ '=' ∉ piece) := by
  by_cases h : '=' ∈ piece
  · obtain ⟨name, value, rfl, hname⟩ := List.eq_append_cons_of_mem h
    rw [splitPair_append hname]
    exact Or.inl rfl
  · have hall : ∀ c ∈ piece, decide (c ≠ '=') = true := by
      intro c hc
      exact decide_eq_true fun heq => h (heq ▸ hc)
    exact Or.inr ⟨(List.takeWhile_eq_self_iff.mpr hall).symm, h⟩

theorem splitPair_writePair {e : String × String} (h : ∀ c ∈ enc e.1, isWritten c = true) :
    splitPair (writePair enc e) = (enc e.1, enc e.2) := by
  refine splitPair_append (fun hmem => ?_) (enc e.2)
  exact absurd (h '=' hmem) (by decide)

theorem readPairs_writePair {e : String × String} (h : Separable dec enc e) :
    readPairs dec (writePair enc e) = [e] := by
  have hamp : '&' ∉ writePair enc e := by
    intro hmem
    rcases List.mem_append.mp hmem with hmem | hmem
    · exact absurd (h.written '&' (List.mem_append_left _ hmem)) (by decide)
    · rcases List.mem_cons.mp hmem with heq | hmem
      · exact absurd heq (by decide)
      · exact absurd (h.written '&' (List.mem_append_right _ hmem)) (by decide)
  have hne : writePair enc e ≠ [] := by simp [writePair]
  rw [readPairs, List.splitOn_eq_singleton hamp]
  simp only [ne_eq, hne, not_false_eq_true, decide_true, List.filter_cons_of_pos, List.filter_nil,
    List.map_cons, List.map_nil]
  rw [splitPair_writePair fun c hc => h.written c (List.mem_append_left _ hc), h.name, h.value]

/-- What is appended is read after what was there. -/
theorem readPairs_appendPairs (target : List Char) {pairs : List (String × String)}
    (h : ∀ e ∈ pairs, Separable dec enc e) :
    readPairs dec (appendPairs enc target pairs) = readPairs dec target ++ pairs := by
  induction pairs generalizing target with
  | nil => exact (List.append_nil _).symm
  | cons e pairs ih =>
    have hpair : readPairs dec ((if target = [] then [] else target ++ ['&']) ++ writePair enc e) =
        readPairs dec target ++ [e] := by
      have hread := readPairs_writePair (h e List.mem_cons_self)
      split
      · next hnil => rw [hnil, List.nil_append, hread, readPairs_nil, List.nil_append]
      · rw [List.append_assoc, List.singleton_append, readPairs_append, hread]
    show readPairs dec (appendPairs enc _ pairs) = _
    rw [ih _ fun e' he' => h e' (List.mem_cons_of_mem e he'), hpair, List.append_assoc,
      List.singleton_append]

/-- Nothing is written but the target, the sides of the pairs and their delimiters. -/
theorem mem_appendPairs {target : List Char} {pairs : List (String × String)} {c : Char}
    (h : c ∈ appendPairs enc target pairs) :
    c ∈ target ∨ c = '&' ∨ c = '=' ∨ ∃ e ∈ pairs, c ∈ enc e.1 ++ enc e.2 := by
  induction pairs generalizing target with
  | nil => exact Or.inl h
  | cons e pairs ih =>
    rcases ih h with htarget | hsep | hsep | ⟨e', he', hc⟩
    · rcases List.mem_append.mp htarget with htarget | hpair
      · split at htarget
        · cases htarget
        · rcases List.mem_append.mp htarget with htarget | hsep
          · exact Or.inl htarget
          · exact Or.inr (Or.inl (List.mem_singleton.mp hsep))
      · rcases List.mem_append.mp hpair with hname | hvalue
        · exact Or.inr (Or.inr (Or.inr ⟨e, List.mem_cons_self, List.mem_append_left _ hname⟩))
        · rcases List.mem_cons.mp hvalue with heq | hvalue
          · exact Or.inr (Or.inr (Or.inl heq))
          · exact Or.inr (Or.inr (Or.inr
              ⟨e, List.mem_cons_self, List.mem_append_right _ hvalue⟩))
    · exact Or.inr (Or.inl hsep)
    · exact Or.inr (Or.inr (Or.inl hsep))
    · exact Or.inr (Or.inr (Or.inr ⟨e', List.mem_cons_of_mem e he', hc⟩))

end Pairs

/-- The pairs that an encoder without delimiters writes are read back. -/
theorem separable_encodeText {dec : List Char → List UInt8} {enc : UInt8 → List Char}
    (hreads : Reads dec enc) (hplain : Plain enc) (lossy : ByteArray → String)
    (e : String × String) : Separable (decodeText lossy dec) (encodeText enc) e where
  name := hreads.text e.1
  value := hreads.text e.2
  written c hc := by
    rcases List.mem_append.mp hc with hc | hc
    · exact hplain.text hc
    · exact hplain.text hc

end McpFramework.Lib
