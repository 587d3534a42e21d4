import McpFramework.Lib.Escaping

/-!
# Auth — SuccessPage

The page at the end of a login (`auth/templates.rs`).

A browser splits the page at `<` into tags and the text after each. The names put
into the page are read back as text, whatever they are, and the tags are those of
the template.
-/

namespace McpFramework.SuccessPage

open Lib.Escaping

/-- The replacements of `escape_html`, in its order. -/
def htmlRules : List (Char × List Char) :=
  [('&', "&amp;".toList), ('<', "&lt;".toList), ('>', "&gt;".toList), ('"', "&quot;".toList),
    ('\x27', "&#x27;".toList)]

def escapeHtml (s : String) : String := String.ofList (replaceAll htmlRules s.toList)

/-- The page up to the paragraphs with the names. -/
def pageHead : String :=
  "<!DOCTYPE html>\n<html>\n<head>\n    <meta charset=\"utf-8\">\n" ++
  "    <title>Authentication Successful</title>\n    <style>\n" ++
  "        body \x7b font-family: system-ui, sans-serif; max-width: 600px; margin: 50px auto; " ++
  "padding: 20px; \x7d\n" ++
  "        .success \x7b color: #059669; \x7d\n" ++
  "        code \x7b background: #f3f4f6; padding: 2px 6px; border-radius: 4px; \x7d\n" ++
  "    </style>\n</head>\n<body>\n" ++
  "    <h1 class=\"success\">Authentication Successful!</h1>\n    "

/-- The page after them. -/
def pageTail : String :=
  "\n    <p>You can now close this window and return to your MCP client.</p>\n</body>\n</html>"

def successPage (sessionId appName : String) : String :=
  let sessionId := escapeHtml sessionId
  let appName := escapeHtml appName
  pageHead ++ "<p>You have been authenticated with " ++ appName ++ ".</p>\n" ++
    "    <p>Session ID: <code>" ++ sessionId ++ "</code></p>" ++ pageTail

/-! ## What a browser reads -/

/-- The character references the page uses, after their `&`. -/
def references : List (List Char × Char) :=
  [("amp;".toList, '&'), ("lt;".toList, '<'), ("gt;".toList, '>'), ("quot;".toList, '"'),
    ("#x27;".toList, '\x27')]

/-- A character of text. -/
def readChar : List Char → Option (Char × List Char)
  | [] => none
  | c :: rest =>
    if c = '&' then
      some ((references.findSome? fun r =>
        if r.1.isPrefixOf rest then some (r.2, rest.drop r.1.length) else none).getD ('&', rest))
    else some (c, rest)

def readText (text : List Char) : Option (List Char) :=
  (readTo readChar List.isEmpty text).map Prod.fst

/-- A piece of the page from a `<` on: the tag, and the text after it. -/
def readPiece (piece : List Char) : List Char × Option (List Char) :=
  (piece.takeWhile (· ≠ '>'), readText ((piece.dropWhile (· ≠ '>')).drop 1))

def readPage (page : String) : List (List Char × Option (List Char)) :=
  (page.toList.splitOn '<').map readPiece

/-! ## Reading back what was escaped -/

theorem ordered_htmlRules : Ordered htmlRules := by decide

theorem toList_escapeHtml (s : String) :
    (escapeHtml s).toList = substitute htmlRules s.toList := by
  rw [escapeHtml, String.toList_ofList, replaceAll_eq ordered_htmlRules]

/-- A character is one of the five, or stands for itself and is no `&`. -/
theorem image_cases (c : Char) :
    (c ∈ htmlRules.map Prod.fst) ∨ (image htmlRules c = [c] ∧ c ≠ '&') := by
  by_cases h : c ∈ htmlRules.map Prod.fst
  · exact Or.inl h
  · refine Or.inr ⟨image_of_forall_ne fun rule hrule heq => h ?_, fun heq => h ?_⟩
    · rw [← heq]
      exact List.mem_map_of_mem hrule
    · rw [heq]
      decide

/-- One of the five is read back from its reference. -/
theorem readChar_reference {c : Char} (h : c ∈ htmlRules.map Prod.fst) (rest : List Char) :
    readChar (image htmlRules c ++ rest) = some (c, rest) := by
  have hcases : c = '&' ∨ c = '<' ∨ c = '>' ∨ c = '"' ∨ c = '\x27' := by
    simpa [htmlRules] using h
  rcases hcases with rfl | rfl | rfl | rfl | rfl
  · show readChar ("&amp;".toList ++ rest) = some ('&', rest)
    simp [readChar, references]
  · show readChar ("&lt;".toList ++ rest) = some ('<', rest)
    simp [readChar, references]
  · show readChar ("&gt;".toList ++ rest) = some ('>', rest)
    simp [readChar, references]
  · show readChar ("&quot;".toList ++ rest) = some ('"', rest)
    simp [readChar, references]
  · show readChar ("&#x27;".toList ++ rest) = some ('\x27', rest)
    simp [readChar, references]

theorem image_ne_nil (c : Char) : image htmlRules c ≠ [] := by
  intro hnil
  have hread : readChar (image htmlRules c ++ []) ≠ none := by
    rcases image_cases c with h | ⟨h, hne⟩
    · rw [readChar_reference h]
      exact Option.some_ne_none _
    · rw [h]
      simp [readChar, hne]
  rw [hnil] at hread
  exact hread rfl

theorem undoes_html : Undoes htmlRules readChar List.isEmpty where
  nonempty := image_ne_nil
  one c rest := by
    rcases image_cases c with h | ⟨h, hne⟩
    · exact readChar_reference h rest
    · rw [h]
      simp [readChar, hne]
  goes c rest := by
    have hne : image htmlRules c ++ rest ≠ [] := by
      intro hnil
      exact image_ne_nil c (List.append_eq_nil_iff.mp hnil).1
    exact List.isEmpty_eq_false_iff.mpr hne

/-- Escaped text is read back. -/
theorem readText_substitute (text : List Char) :
    readText (substitute htmlRules text) = some text := by
  have hread : readTo readChar List.isEmpty (substitute htmlRules text ++ []) = some (text, []) :=
    readTo_substitute undoes_html text rfl
  rw [List.append_nil] at hread
  rw [readText, hread]
  rfl

theorem notMem_escapeHtml (s : String) : '<' ∉ (escapeHtml s).toList := by
  rw [toList_escapeHtml]
  exact notMem_substitute_of_rule ⟨('<', "&lt;".toList), by decide, rfl⟩ (by decide) s.toList

/-- Text of the template around an escaped name. -/
theorem readText_around {before after : String}
    (hbefore : ∀ rule ∈ htmlRules, rule.1 ∉ before.toList)
    (hafter : ∀ rule ∈ htmlRules, rule.1 ∉ after.toList) (s : String) :
    readText (before.toList ++ (escapeHtml s).toList ++ after.toList) =
      some (before ++ s ++ after).toList := by
  have hjoin : before.toList ++ (escapeHtml s).toList ++ after.toList =
      substitute htmlRules (before ++ s ++ after).toList := by
    rw [String.toList_append, String.toList_append, substitute_append, substitute_append,
      substitute_of_notMem hbefore, substitute_of_notMem hafter, toList_escapeHtml]
  rw [hjoin, readText_substitute]

/-- The text of a piece is what follows the tag. -/
theorem readPiece_tag {tag : List Char} (htag : '>' ∉ tag) (text : List Char) :
    readPiece (tag ++ '>' :: text) = (tag, readText text) := by
  have hne : ∀ c ∈ tag, decide (c ≠ '>') = true := by
    intro c hc
    have hc' : c ≠ '>' := fun heq => htag (heq ▸ hc)
    exact decide_eq_true hc'
  rw [readPiece, List.takeWhile_append_of_pos hne, List.dropWhile_append_of_pos hne]
  simp

/-- The page is the template around the two names. -/
theorem toList_successPage (sessionId appName : String) :
    (successPage sessionId appName).toList =
      pageHead.toList ++ '<' :: ("p".toList ++ '>' :: ("You have been authenticated with ".toList ++
        (escapeHtml appName).toList ++ ".".toList) ++ '<' :: ("/p>\n    ".toList ++
        '<' :: ("p>Session ID: ".toList ++ '<' :: ("code".toList ++ '>' :: ("".toList ++
        (escapeHtml sessionId).toList ++ "".toList) ++ '<' :: ("/code>".toList ++
        '<' :: ("/p>".toList ++ pageTail.toList)))))) := by
  simp [successPage, String.toList_append]

/-- **The page shows the names as they are, and no name changes the page**: the
tags, and the text of every other one, are the same for all names. -/
theorem successPage_reads :
    ∃ before between after : List (List Char × Option (List Char)),
      ∀ sessionId appName : String,
        readPage (successPage sessionId appName) =
          before ++ ("p".toList,
            some ("You have been authenticated with " ++ appName ++ ".").toList) :: between ++
            ("code".toList, some sessionId.toList) :: after := by
  refine ⟨(pageHead.toList.splitOn '<').map readPiece,
    ["/p>\n    ".toList, "p>Session ID: ".toList].map readPiece,
    "/code>".toList :: (("/p>".toList ++ pageTail.toList).splitOn '<') |>.map readPiece,
    fun sessionId appName => ?_⟩
  have hname : '<' ∉ "p".toList ++ '>' :: ("You have been authenticated with ".toList ++
      (escapeHtml appName).toList ++ ".".toList) := by
    have happ := notMem_escapeHtml appName
    simp [happ]
  have hid : '<' ∉ "code".toList ++ '>' :: ("".toList ++ (escapeHtml sessionId).toList ++
      "".toList) := by
    have hsession := notMem_escapeHtml sessionId
    simp [hsession]
  rw [readPage, toList_successPage, List.splitOn_append_cons_self,
    List.splitOn_append_cons_self_of_not_mem hname,
    List.splitOn_append_cons_self_of_not_mem (by decide),
    List.splitOn_append_cons_self_of_not_mem (by decide),
    List.splitOn_append_cons_self_of_not_mem hid,
    List.splitOn_append_cons_self_of_not_mem (by decide)]
  simp only [List.map_append, List.map_cons, List.map_nil]
  rw [readPiece_tag (by decide), readPiece_tag (by decide),
    readText_around (by decide) (by decide), readText_around (by decide) (by decide)]
  simp

end McpFramework.SuccessPage
