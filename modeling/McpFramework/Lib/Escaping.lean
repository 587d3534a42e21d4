import Mathlib.Data.List.Basic
import Mathlib.Data.List.Pairwise

/-!
# Lib — Escaping

Escaping by one replacement after another, and reading it back.

Replacing one character after another is one substitution as long as no
replacement is replaced again (`replaceAll_eq`). A reader that undoes the
substitution of one character undoes that of a text, up to where it has to stop
(`readTo_substitute`).
-/

namespace McpFramework.Lib.Escaping

/-- `str::replace` of one character. -/
def replace (c : Char) (by_ : List Char) (text : List Char) : List Char :=
  text.flatMap fun x => if x = c then by_ else [x]

/-- One replacement after another. -/
def replaceAll (rules : List (Char × List Char)) (text : List Char) : List Char :=
  rules.foldl (fun text rule => replace rule.1 rule.2 text) text

/-- What stands for a character. -/
def image (rules : List (Char × List Char)) (c : Char) : List Char :=
  (rules.lookup c).getD [c]

/-- All replacements at once. -/
def substitute (rules : List (Char × List Char)) (text : List Char) : List Char :=
  text.flatMap (image rules)

/-- No replacement is replaced again. -/
def Ordered (rules : List (Char × List Char)) : Prop :=
  rules.Pairwise fun earlier later => later.1 ∉ earlier.2

instance (rules : List (Char × List Char)) : Decidable (Ordered rules) :=
  inferInstanceAs (Decidable (List.Pairwise _ rules))

section Substitution

variable {rules : List (Char × List Char)}

theorem substitute_append (text text' : List Char) :
    substitute rules (text ++ text') = substitute rules text ++ substitute rules text' :=
  List.flatMap_append

theorem substitute_cons (c : Char) (text : List Char) :
    substitute rules (c :: text) = image rules c ++ substitute rules text :=
  List.flatMap_cons

theorem image_cons (rule : Char × List Char) (rules : List (Char × List Char)) (c : Char) :
    image (rule :: rules) c = if c = rule.1 then rule.2 else image rules c := by
  obtain ⟨k, text⟩ := rule
  rw [image, List.lookup_cons]
  by_cases hc : c = k
  · simp [hc]
  · have hbeq : (c == k) = false := by simpa using hc
    rw [if_neg hc, hbeq, image]

theorem image_of_forall_ne {c : Char} (h : ∀ rule ∈ rules, rule.1 ≠ c) : image rules c = [c] := by
  have hnone : rules.lookup c = none := by
    refine List.lookup_eq_none_iff.mpr fun rule hrule => ?_
    simpa using Ne.symm (h rule hrule)
  rw [image, hnone]
  rfl

/-- Text that no rule is about stays. -/
theorem substitute_of_notMem {text : List Char} (h : ∀ rule ∈ rules, rule.1 ∉ text) :
    substitute rules text = text := by
  induction text with
  | nil => rfl
  | cons c text ih =>
    have himage : image rules c = [c] :=
      image_of_forall_ne fun rule hrule heq => h rule hrule (heq ▸ List.mem_cons_self)
    have hrest : substitute rules text = text :=
      ih fun rule hrule hmem => h rule hrule (List.mem_cons_of_mem c hmem)
    rw [substitute_cons, himage, hrest]
    rfl

/-- **One replacement after another is one substitution.** -/
theorem replaceAll_eq (h : Ordered rules) (text : List Char) :
    replaceAll rules text = substitute rules text := by
  induction rules generalizing text with
  | nil =>
    have hnone : substitute [] text = text := substitute_of_notMem fun _ hmem => by cases hmem
    rw [hnone]
    rfl
  | cons rule rules ih =>
    obtain ⟨hrule, hrest⟩ := List.pairwise_cons.mp h
    have hfirst : replaceAll (rule :: rules) text =
        replaceAll rules (replace rule.1 rule.2 text) := rfl
    rw [hfirst, ih hrest]
    induction text with
    | nil => rfl
    | cons c text iht =>
      have hsplit : replace rule.1 rule.2 (c :: text) =
          (if c = rule.1 then rule.2 else [c]) ++ replace rule.1 rule.2 text := List.flatMap_cons
      rw [hsplit, substitute_append, iht rfl, substitute_cons]
      congr 1
      by_cases hc : c = rule.1
      · rw [if_pos hc, image_cons, if_pos hc]
        exact substitute_of_notMem hrule
      · rw [if_neg hc, image_cons, if_neg hc, substitute_cons]
        exact List.append_nil _

/-- A character that stands in no image stands in no substituted text. -/
theorem notMem_substitute {c : Char} (h : ∀ x, c ∉ image rules x) (text : List Char) :
    c ∉ substitute rules text := by
  intro hmem
  obtain ⟨x, -, hx⟩ := List.mem_flatMap.mp hmem
  exact h x hx

/-- Where a character of an image comes from. -/
theorem mem_image {c x : Char} (h : c ∈ image rules x) :
    (∃ rule ∈ rules, c ∈ rule.2) ∨ (c = x ∧ ∀ rule ∈ rules, rule.1 ≠ x) := by
  induction rules with
  | nil => exact Or.inr ⟨List.mem_singleton.mp h, fun _ hmem => by cases hmem⟩
  | cons rule rules ih =>
    rw [image_cons] at h
    by_cases hx : x = rule.1
    · rw [if_pos hx] at h
      exact Or.inl ⟨rule, List.mem_cons_self, h⟩
    · rw [if_neg hx] at h
      rcases ih h with ⟨rule', hrule', hmem⟩ | ⟨rfl, hnone⟩
      · exact Or.inl ⟨rule', List.mem_cons_of_mem _ hrule', hmem⟩
      · exact Or.inr ⟨rfl, List.forall_mem_cons.mpr ⟨Ne.symm hx, hnone⟩⟩

/-- A character that is replaced, by texts without it, is gone. -/
theorem notMem_substitute_of_rule {c : Char} (hrule : ∃ rule ∈ rules, rule.1 = c)
    (htexts : ∀ rule ∈ rules, c ∉ rule.2) (text : List Char) : c ∉ substitute rules text := by
  refine notMem_substitute (fun x hmem => ?_) text
  rcases mem_image hmem with ⟨rule, hmem', hc⟩ | ⟨rfl, hnone⟩
  · exact htexts rule hmem' hc
  · obtain ⟨rule, hmem', heq⟩ := hrule
    exact hnone rule hmem' heq

end Substitution

/-! ## Reading back -/

/-- Read characters until it is time to stop; the fuel bounds how many. -/
def readUntil (one : List Char → Option (Char × List Char)) (stop : List Char → Bool) :
    Nat → List Char → Option (List Char × List Char)
  | 0, _ => none
  | fuel + 1, text =>
    if stop text then some ([], text)
    else (one text).bind fun r => (readUntil one stop fuel r.2).map fun s => (r.1 :: s.1, s.2)

/-- The reader undoes the substitution of one character, and does not stop
before it. -/
structure Undoes (rules : List (Char × List Char)) (one : List Char → Option (Char × List Char))
    (stop : List Char → Bool) : Prop where
  nonempty : ∀ c, image rules c ≠ []
  one : ∀ c rest, one (image rules c ++ rest) = some (c, rest)
  goes : ∀ c rest, stop (image rules c ++ rest) = false

/-- Read as far as there is text. -/
def readTo (one : List Char → Option (Char × List Char)) (stop : List Char → Bool)
    (text : List Char) : Option (List Char × List Char) :=
  readUntil one stop (text.length + 1) text

section Reading

variable {rules : List (Char × List Char)} {one : List Char → Option (Char × List Char)}
  {stop : List Char → Bool}

theorem readUntil_substitute (h : Undoes rules one stop) {text rest : List Char}
    (hstop : stop rest = true) {fuel : Nat} (hfuel : text.length < fuel) :
    readUntil one stop fuel (substitute rules text ++ rest) = some (text, rest) := by
  induction text generalizing fuel with
  | nil =>
    cases fuel with
    | zero => omega
    | succ fuel =>
      show (if stop rest then some ([], rest) else _) = _
      rw [if_pos hstop]
  | cons c text ih =>
    cases fuel with
    | zero => omega
    | succ fuel =>
      have hlength : text.length < fuel := by
        rw [List.length_cons] at hfuel
        omega
      rw [substitute_cons, List.append_assoc, readUntil, h.goes, h.one]
      simp only [Bool.false_eq_true, if_false, Option.bind_some, ih hlength, Option.map_some]

theorem length_le_substitute (h : Undoes rules one stop) (text : List Char) :
    text.length ≤ (substitute rules text).length := by
  induction text with
  | nil => exact Nat.zero_le _
  | cons c text ih =>
    have himage : 0 < (image rules c).length := List.length_pos_of_ne_nil (h.nonempty c)
    rw [substitute_cons, List.length_append, List.length_cons]
    omega

/-- **The reader undoes the substitution of a text**, up to where it stops. -/
theorem readTo_substitute (h : Undoes rules one stop) (text : List Char) {rest : List Char}
    (hstop : stop rest = true) :
    readTo one stop (substitute rules text ++ rest) = some (text, rest) := by
  refine readUntil_substitute h hstop ?_
  have hlength := length_le_substitute h text
  rw [List.length_append]
  omega

end Reading

end McpFramework.Lib.Escaping
