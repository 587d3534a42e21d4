import McpFramework.Lib.Escaping
import Mathlib.Data.Char

/-!
# Lib — Exposition

A text format of samples, one on a line: a name, labels in braces with quoted
values, a blank and a value. Lines that start with `#` are comments.

What is written line by line is read back, whatever the values of the labels hold
(`readExposition_lines`).
-/

namespace McpFramework.Lib.Exposition

open Escaping

structure Sample where
  name : String
  labels : List (String × String)
  value : String
deriving DecidableEq, Repr

/-- A line of the text. -/
inductive Line where
  | comment (text : String)
  | sample (s : Sample)
deriving DecidableEq, Repr

/-! ## Writing -/

/-- A backslash, a quote and a line feed are escaped. -/
def labelRules : List (Char × List Char) :=
  [('\\', "\\\\".toList), ('"', "\\\"".toList), ('\n', "\\n".toList)]

def writeLabel (l : String × String) : List Char :=
  l.1.toList ++ '=' :: '"' :: (substitute labelRules l.2.toList ++ ['"'])

/-- The labels up to the closing brace. -/
def writeLabels : List (String × String) → List Char
  | [] => ['}']
  | [l] => writeLabel l ++ ['}']
  | l :: ls => writeLabel l ++ ',' :: writeLabels ls

def writeSample (s : Sample) : List Char :=
  s.name.toList ++ (if s.labels = [] then [] else '{' :: writeLabels s.labels) ++
    ' ' :: s.value.toList

def writeLine : Line → List Char
  | .comment text => '#' :: text.toList
  | .sample s => writeSample s

/-! ## Reading -/

def readLabelChar : List Char → Option (Char × List Char)
  | [] => none
  | c :: rest =>
    if c = '\\' then
      match rest with
      | [] => none
      | d :: rest =>
        if d = '\\' then some ('\\', rest)
        else if d = '"' then some ('"', rest)
        else if d = 'n' then some ('\n', rest)
        else none
    else some (c, rest)

def atQuote (text : List Char) : Bool := text.head? == some '"'

/-- What follows a given character. -/
def after (c : Char) : List Char → Option (List Char)
  | [] => none
  | x :: rest => if x = c then some rest else none

def readLabel (text : List Char) : Option ((String × String) × List Char) :=
  let name := text.takeWhile (· ≠ '=')
  ((after '=' (text.drop name.length)).bind (after '"')).bind fun rest =>
    (readTo readLabelChar atQuote rest).bind fun r =>
      (after '"' r.2).map fun rest => ((String.ofList name, String.ofList r.1), rest)

/-- Labels up to the closing brace; the fuel bounds how many. -/
def readLabels : Nat → List Char → Option (List (String × String) × List Char)
  | 0, _ => none
  | fuel + 1, text =>
    (readLabel text).bind fun r =>
      match after '}' r.2 with
      | some rest => some ([r.1], rest)
      | none => (after ',' r.2).bind fun rest =>
          (readLabels fuel rest).map fun s => (r.1 :: s.1, s.2)

def readSample (text : List Char) : Option Sample :=
  let name := text.takeWhile fun c => c ≠ '{' && c ≠ ' '
  let rest := text.drop name.length
  let labels :=
    match after '{' rest with
    | some rest => readLabels rest.length rest
    | none => some ([], rest)
  labels.bind fun r => (after ' ' r.2).map fun value =>
    { name := String.ofList name, labels := r.1, value := String.ofList value }

/-- Neither empty nor a comment. -/
def isSample (line : List Char) : Bool := line != [] && line.head? != some '#'

def readExposition (text : List Char) : Option (List Sample) :=
  ((text.splitOn '\n').filter isSample).mapM readSample

/-! ## What may stand in a name -/

/-- The name of a metric or of a label. -/
def IsName (name : String) : Prop :=
  name.toList ≠ [] ∧ ∀ c ∈ name.toList, c.isAlphanum = true ∨ c = '_' ∨ c = ':'

instance (name : String) : Decidable (IsName name) :=
  decidable_of_iff (name.toList ≠ [] ∧
      name.toList.all (fun c => c.isAlphanum || c == '_' || c == ':') = true) (by
    simp [IsName, or_assoc])

structure Sample.WellFormed (s : Sample) : Prop where
  name : IsName s.name
  labels : ∀ l ∈ s.labels, IsName l.1
  value : '\n' ∉ s.value.toList

def Line.WellFormed : Line → Prop
  | .comment text => '\n' ∉ text.toList
  | .sample s => s.WellFormed

def Line.sample? : Line → Option Sample
  | .comment _ => none
  | .sample s => some s

theorem IsName.ne {name : String} (h : IsName name) {c : Char} (hc : c ∈ name.toList) {d : Char}
    (hd : d.isAlphanum = false) (hunderscore : d ≠ '_') (hcolon : d ≠ ':') : c ≠ d := by
  intro heq
  subst heq
  rcases h.2 c hc with h | h | h
  · rw [hd] at h
    cases h
  · exact hunderscore h
  · exact hcolon h

theorem IsName.append {name name' : String} (h : IsName name) (h' : IsName name') :
    IsName (name ++ name') := by
  refine ⟨fun hnil => h.1 ?_, fun c hc => ?_⟩
  · rw [String.toList_append] at hnil
    exact (List.append_eq_nil_iff.mp hnil).1
  · rw [String.toList_append] at hc
    rcases List.mem_append.mp hc with hc | hc
    · exact h.2 c hc
    · exact h'.2 c hc

/-! ## Labels -/

theorem ordered_labelRules : Ordered labelRules := by decide

theorem image_cases (c : Char) :
    (c = '\\' ∨ c = '"' ∨ c = '\n') ∨ image labelRules c = [c] ∧ c ≠ '\\' ∧ c ≠ '"' := by
  by_cases h : c = '\\' ∨ c = '"' ∨ c = '\n'
  · exact Or.inl h
  · have hne : c ≠ '\\' ∧ c ≠ '"' ∧ c ≠ '\n' := by simpa [not_or] using h
    refine Or.inr ⟨image_of_forall_ne fun rule hrule heq => ?_, hne.1, hne.2.1⟩
    have hrules : rule.1 = '\\' ∨ rule.1 = '"' ∨ rule.1 = '\n' := by
      simp only [labelRules, List.mem_cons, List.not_mem_nil, or_false] at hrule
      rcases hrule with rfl | rfl | rfl <;> simp
    rw [heq] at hrules
    exact h hrules

theorem undoes_labels : Undoes labelRules readLabelChar atQuote where
  nonempty c := by
    rcases image_cases c with (rfl | rfl | rfl) | ⟨h, -, -⟩
    · exact List.cons_ne_nil _ _
    · exact List.cons_ne_nil _ _
    · exact List.cons_ne_nil _ _
    · rw [h]
      exact List.cons_ne_nil _ _
  one c rest := by
    rcases image_cases c with (rfl | rfl | rfl) | ⟨h, hne, -⟩
    · rfl
    · rfl
    · rfl
    · rw [h]
      simp [readLabelChar, hne]
  goes c rest := by
    rcases image_cases c with (rfl | rfl | rfl) | ⟨h, -, hne⟩
    · rfl
    · rfl
    · rfl
    · rw [h]
      simp [atQuote, hne]

@[simp] theorem after_cons_self (c : Char) (rest : List Char) : after c (c :: rest) = some rest :=
  if_pos rfl

theorem after_cons_ne {c d : Char} (h : d ≠ c) (rest : List Char) : after c (d :: rest) = none :=
  if_neg h

/-- A run of characters up to the first that ends it. -/
theorem takeWhile_run {p : Char → Bool} {run : List Char} (hrun : ∀ c ∈ run, p c = true) {d : Char}
    (hd : p d = false) (rest : List Char) : (run ++ d :: rest).takeWhile p = run := by
  rw [List.takeWhile_append_of_pos hrun, List.takeWhile_cons_of_neg (by simp [hd]), List.append_nil]

theorem readLabel_write {l : String × String} (h : IsName l.1) (rest : List Char) :
    readLabel (writeLabel l ++ rest) = some (l, rest) := by
  have hsplit : writeLabel l ++ rest =
      l.1.toList ++ '=' :: '"' :: (substitute labelRules l.2.toList ++ '"' :: rest) := by
    simp [writeLabel]
  have hname : (writeLabel l ++ rest).takeWhile (· ≠ '=') = l.1.toList := by
    rw [hsplit]
    refine takeWhile_run (fun c hc => decide_eq_true ?_) (by decide) _
    exact h.ne hc (by decide) (by decide) (by decide)
  have hvalue : readTo readLabelChar atQuote (substitute labelRules l.2.toList ++ '"' :: rest) =
      some (l.2.toList, '"' :: rest) := readTo_substitute undoes_labels l.2.toList rfl
  rw [readLabel, hname, hsplit, List.drop_left]
  simp [hvalue]

theorem length_writeLabels (ls : List (String × String)) : ls.length ≤ (writeLabels ls).length := by
  induction ls with
  | nil => exact Nat.zero_le _
  | cons l ls ih =>
    cases ls with
    | nil => simp [writeLabels]
    | cons l' ls =>
      have hwrite : writeLabels (l :: l' :: ls) = writeLabel l ++ ',' :: writeLabels (l' :: ls) :=
        rfl
      simp only [hwrite, List.length_append, List.length_cons] at ih ⊢
      omega

theorem readLabels_write {ls : List (String × String)} (hne : ls ≠ []) (h : ∀ l ∈ ls, IsName l.1)
    {fuel : Nat} (hfuel : ls.length ≤ fuel) (rest : List Char) :
    readLabels fuel (writeLabels ls ++ rest) = some (ls, rest) := by
  induction ls generalizing fuel with
  | nil => exact absurd rfl hne
  | cons l ls ih =>
    obtain ⟨hl, hls⟩ := List.forall_mem_cons.mp h
    cases fuel with
    | zero =>
      rw [List.length_cons] at hfuel
      omega
    | succ fuel =>
      have hlength : ls.length ≤ fuel := by
        rw [List.length_cons] at hfuel
        omega
      cases ls with
      | nil =>
        have hsplit : writeLabels [l] ++ rest = writeLabel l ++ '}' :: rest := by
          simp [writeLabels]
        rw [hsplit, readLabels, readLabel_write hl]
        simp
      | cons l' ls =>
        have hsplit : writeLabels (l :: l' :: ls) ++ rest =
            writeLabel l ++ ',' :: (writeLabels (l' :: ls) ++ rest) := by
          simp [writeLabels]
        have hrest := ih (List.cons_ne_nil _ _) hls hlength
        rw [hsplit, readLabels, readLabel_write hl]
        simp [after_cons_ne, hrest]

/-! ## Samples -/

theorem readSample_write {s : Sample} (h : s.WellFormed) : readSample (writeSample s) = some s := by
  have hname : ∀ c ∈ s.name.toList, (c ≠ '{' && c ≠ ' ') = true := by
    intro c hc
    have hbrace : c ≠ '{' := h.name.ne hc (by decide) (by decide) (by decide)
    have hblank : c ≠ ' ' := h.name.ne hc (by decide) (by decide) (by decide)
    simp [hbrace, hblank]
  by_cases hlabels : s.labels = []
  · have hsplit : writeSample s = s.name.toList ++ ' ' :: s.value.toList := by
      simp [writeSample, hlabels]
    rw [hsplit, readSample, takeWhile_run hname (by decide), List.drop_left]
    simp [after_cons_ne, ← hlabels]
  · have hsplit : writeSample s =
        s.name.toList ++ '{' :: (writeLabels s.labels ++ ' ' :: s.value.toList) := by
      simp [writeSample, hlabels]
    have hlength : s.labels.length ≤ (writeLabels s.labels ++ ' ' :: s.value.toList).length := by
      have := length_writeLabels s.labels
      rw [List.length_append]
      omega
    have hread := readLabels_write hlabels h.labels hlength (' ' :: s.value.toList)
    rw [hsplit, readSample, takeWhile_run hname (by decide), List.drop_left]
    simp only [after_cons_self, hread, Option.bind_some, Option.map_some, String.ofList_toList]

theorem newline_notMem_writeLabel {l : String × String} (h : IsName l.1) :
    '\n' ∉ writeLabel l := by
  have hname : '\n' ∉ l.1.toList := fun hmem =>
    h.ne hmem (by decide) (by decide) (by decide) rfl
  have hvalue : '\n' ∉ substitute labelRules l.2.toList :=
    notMem_substitute_of_rule ⟨('\n', "\\n".toList), by decide, rfl⟩ (by decide) _
  simp [writeLabel, hname, hvalue]

theorem newline_notMem_writeLabels {ls : List (String × String)} (h : ∀ l ∈ ls, IsName l.1) :
    '\n' ∉ writeLabels ls := by
  induction ls with
  | nil => decide
  | cons l ls ih =>
    obtain ⟨hl, hls⟩ := List.forall_mem_cons.mp h
    have hlabel := newline_notMem_writeLabel hl
    cases ls with
    | nil => simp [writeLabels, hlabel]
    | cons l' ls => simp [writeLabels, hlabel, ih hls]

theorem newline_notMem_writeLine {line : Line} (h : line.WellFormed) : '\n' ∉ writeLine line := by
  cases line with
  | comment text =>
    have htext : '\n' ∉ text.toList := h
    simp [writeLine, htext]
  | sample s =>
    have hs : s.WellFormed := h
    have hname : '\n' ∉ s.name.toList := fun hmem =>
      hs.name.ne hmem (by decide) (by decide) (by decide) rfl
    have hlabels := newline_notMem_writeLabels hs.labels
    have hvalue := hs.value
    simp only [writeLine, writeSample]
    split <;> simp [hname, hlabels, hvalue]

/-! ## The text -/

/-- Lines without line feeds, each ended by one. -/
theorem splitOn_lines {lines : List (List Char)} (h : ∀ l ∈ lines, '\n' ∉ l) :
    (lines.flatMap (· ++ ['\n'])).splitOn '\n' = lines ++ [[]] := by
  induction lines with
  | nil => rfl
  | cons l lines ih =>
    obtain ⟨hl, hlines⟩ := List.forall_mem_cons.mp h
    rw [List.flatMap_cons, List.append_assoc, List.singleton_append,
      List.splitOn_append_cons_self_of_not_mem hl, ih hlines]
    rfl

theorem isSample_comment (text : String) : isSample (writeLine (.comment text)) = false := by
  simp [isSample, writeLine]

theorem isSample_sample {s : Sample} (h : s.WellFormed) :
    isSample (writeLine (.sample s)) = true := by
  have hname := h.name
  cases hchars : s.name.toList with
  | nil => exact absurd hchars hname.1
  | cons c rest =>
    have hhash : c ≠ '#' :=
      hname.ne (by rw [hchars]; exact List.mem_cons_self) (by decide) (by decide) (by decide)
    simp [isSample, writeLine, writeSample, hchars, hhash]

/-- **What is written line by line is read back**: the samples, in order. -/
theorem readExposition_lines {lines : List Line} (h : ∀ line ∈ lines, line.WellFormed) :
    readExposition (lines.flatMap fun line => writeLine line ++ ['\n']) =
      some (lines.filterMap Line.sample?) := by
  have hsplit : (lines.flatMap fun line => writeLine line ++ ['\n']).splitOn '\n' =
      lines.map writeLine ++ [[]] := by
    have hlines : ∀ l ∈ lines.map writeLine, '\n' ∉ l := by
      intro l hl
      obtain ⟨line, hline, rfl⟩ := List.mem_map.mp hl
      exact newline_notMem_writeLine (h line hline)
    rw [← splitOn_lines hlines, List.flatMap_map]
  rw [readExposition, hsplit, List.filter_append]
  have hlast : [([] : List Char)].filter isSample = [] := rfl
  rw [hlast, List.append_nil]
  clear hsplit hlast
  induction lines with
  | nil => rfl
  | cons line lines ih =>
    obtain ⟨hline, hlines⟩ := List.forall_mem_cons.mp h
    rw [List.map_cons]
    cases line with
    | comment text =>
      rw [List.filter_cons_of_neg (by simp [isSample_comment]), ih hlines]
      rfl
    | sample s =>
      rw [List.filter_cons_of_pos (isSample_sample hline), List.mapM_cons]
      have hs : readSample (writeLine (.sample s)) = some s := readSample_write hline
      rw [hs, ih hlines]
      rfl

end McpFramework.Lib.Exposition
