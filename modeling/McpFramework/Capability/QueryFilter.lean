import McpFramework.Capability.Resolution
import McpFramework.Core.Text
import McpFramework.Lib.PercentEncoding

/-!
# Capability — QueryFilter

The tools a client hides from itself with `?filter=` in the URL it connects to
(`capability/filter.rs`), and `query_param` (`capability/request.rs`), which reads
a parameter of the same URL.

A query names the tools percent-encoded and separated by commas. Which names can
be hidden is what this leaves of a name: no comma and no white space around it.
-/

namespace McpFramework

open Lib

/-! ## Queries -/

/-- `urlencoding::decode`, or the text itself where that fails. -/
def urlDecode (text : List Char) : String :=
  (String.fromUTF8? (percentDecode text).toByteArray).getD (String.ofList text)

/-- The names of a decoded value. -/
def filterNames (decoded : String) : List String :=
  ((decoded.toList.splitOn ',').map fun piece => trim (String.ofList piece)).filter (· ≠ "")

/-- The value after `filter=`. -/
def filterValue (pair : List Char) : Option (List Char) :=
  if "filter=".toList <+: pair then some (pair.drop "filter=".toList.length) else none

theorem filterValue_append (value : List Char) :
    filterValue ("filter=".toList ++ value) = some value := by
  have hpre : "filter=".toList <+: "filter=".toList ++ value := List.prefix_append _ _
  rw [filterValue, if_pos hpre, List.drop_left]

/-- `resolve_query_filter`: the first pair counts. -/
def resolveQueryFilter (query : Option String) : List String :=
  match query with
  | none => []
  | some query =>
    match (query.toList.splitOn '&').findSome? filterValue with
    | some value => filterNames (urlDecode value)
    | none => []

/-- `CallRequest::query_param`. -/
def queryParam (query : Option String) (name : String) : Option String :=
  query.bind fun query => (query.toList.splitOn '&').findSome? fun pair =>
    if String.ofList (splitPair pair).1 = name then some (urlDecode (splitPair pair).2) else none

/-- The two read the same value unless a `filter` without `=` comes first. -/
theorem resolveQueryFilter_eq_queryParam {query : String}
    (h : "filter".toList ∉ query.toList.splitOn '&') :
    resolveQueryFilter (some query) =
      ((queryParam (some query) "filter").map filterNames).getD [] := by
  have hpair : ∀ pair ∈ query.toList.splitOn '&', (filterValue pair).map urlDecode =
      if String.ofList (splitPair pair).1 = "filter" then some (urlDecode (splitPair pair).2)
      else none := by
    intro pair hmem
    have hkey : String.ofList (splitPair pair).1 = "filter" ↔
        (splitPair pair).1 = "filter".toList := by
      rw [← String.toList_inj, String.toList_ofList]
    rcases splitPair_cases pair with hsplit | ⟨hname, heq⟩
    · by_cases hfilter : (splitPair pair).1 = "filter".toList
      · rw [if_pos (hkey.mpr hfilter)]
        rw [hfilter] at hsplit
        rw [hsplit, show filterValue ("filter".toList ++ '=' :: (splitPair pair).2) =
          some (splitPair pair).2 from filterValue_append _]
        rfl
      · rw [if_neg fun hf => hfilter (hkey.mp hf), filterValue, if_neg]
        · rfl
        · rintro ⟨value, rfl⟩
          have hname : '=' ∉ "filter".toList := by decide
          exact hfilter (congrArg Prod.fst (splitPair_append hname value))
    · have hfilter : (splitPair pair).1 ≠ "filter".toList := by
        intro hf
        exact h (hf ▸ hname ▸ hmem)
      rw [if_neg fun hf => hfilter (hkey.mp hf), filterValue, if_neg]
      · rfl
      · rintro ⟨value, rfl⟩
        exact heq (List.mem_append_left value (by decide))
  rw [resolveQueryFilter, queryParam, Option.bind_some, ← List.head?_filterMap,
    ← List.head?_filterMap, ← List.filterMap_congr hpair]
  have hmap : ((query.toList.splitOn '&').filterMap fun pair => (filterValue pair).map urlDecode)
      = ((query.toList.splitOn '&').filterMap filterValue).map urlDecode :=
    (List.map_filterMap ..).symm
  rw [hmap, List.head?_map]
  cases ((query.toList.splitOn '&').filterMap filterValue).head? <;> rfl

/-! ## Names -/

/-- What a query can name. -/
structure Hideable (name : String) : Prop where
  nonempty : name ≠ ""
  trimmed : trim name = name
  noComma : ',' ∉ name.toList

theorem trim_trim (s : String) : trim (trim s) = trim s := by
  have hhead : ∀ cs : List Char, (cs.dropWhile isWhitespace).rdropWhile isWhitespace =
      ((cs.dropWhile isWhitespace).rdropWhile isWhitespace).dropWhile isWhitespace := by
    intro cs
    cases hdrop : (cs.dropWhile isWhitespace).rdropWhile isWhitespace with
    | nil => rfl
    | cons c rest =>
      have hpre : c :: rest <+: cs.dropWhile isWhitespace := by
        rw [← hdrop]
        exact List.rdropWhile_prefix ..
      obtain ⟨tail, htail⟩ := hpre
      have hfirst := List.head?_dropWhile_not isWhitespace cs
      rw [← htail] at hfirst
      have hc : isWhitespace c = false := by simpa using hfirst
      rw [List.dropWhile_cons_of_neg (by simp [hc])]
  unfold trim trimEnd
  simp only [String.toList_ofList]
  rw [← hhead, List.rdropWhile_idempotent]

/-- A query names what can be named. -/
theorem hideable_of_mem {query : Option String} {name : String}
    (h : name ∈ resolveQueryFilter query) : Hideable name := by
  have hnames : ∀ decoded, name ∈ filterNames decoded → Hideable name := by
    intro decoded hmem
    obtain ⟨hmem, hne⟩ := List.mem_filter.mp hmem
    obtain ⟨piece, hpiece, rfl⟩ := List.mem_map.mp hmem
    refine ⟨of_decide_eq_true hne, trim_trim _, fun hcomma => ?_⟩
    have hsub : ∀ c ∈ (trim (String.ofList piece)).toList, c ∈ piece := by
      intro c hc
      rw [trim, trimEnd, String.toList_ofList, String.toList_ofList, String.toList_ofList] at hc
      exact List.dropWhile_subset _ ((List.rdropWhile_prefix ..).subset hc)
    exact notMem_of_mem_splitOn hpiece (hsub ',' hcomma)
  unfold resolveQueryFilter at h
  split at h
  · cases h
  · split at h
    · exact hnames _ h
    · cases h

/-- The value that names them. -/
def writtenFilter (names : List String) : List Char :=
  "filter=".toList ++ encodeText uriByte (String.intercalate "," names)

theorem amp_notMem_writtenFilter (names : List String) : '&' ∉ writtenFilter names := by
  have hkey : '&' ∉ "filter=".toList := by decide
  intro hmem
  unfold writtenFilter at hmem
  rcases List.mem_append.mp hmem with hmem | hmem
  · exact hkey hmem
  · exact absurd (plain_uri.text hmem) (by decide)

theorem filterNames_intercalate {names : List String} (h : ∀ name ∈ names, Hideable name) :
    filterNames (String.intercalate "," names) = names := by
  by_cases hnil : names = []
  · rw [hnil]
    decide
  have hpieces : (String.intercalate "," names).toList.splitOn ',' = names.map String.toList := by
    rw [String.toList_intercalate]
    refine List.splitOn_intercalate ',' (fun piece hpiece => ?_) (by simpa using hnil)
    obtain ⟨name, hname, rfl⟩ := List.mem_map.mp hpiece
    exact (h name hname).noComma
  have htrim : (names.map String.toList).map (fun piece => trim (String.ofList piece)) = names := by
    rw [List.map_map]
    conv_rhs => rw [← List.map_id names]
    refine List.map_congr_left fun name hname => ?_
    rw [Function.comp, String.ofList_toList]
    exact (h name hname).trimmed
  rw [filterNames, hpieces, htrim, List.filter_eq_self]
  exact fun name hname => decide_eq_true (h name hname).nonempty

theorem urlDecode_encodeText (s : String) : urlDecode (encodeText uriByte s) = s := by
  rw [urlDecode, encodeText, reads_uri.bytes, fromUTF8?_bytes]
  rfl

/-- What is written is read, wherever it stands in the query, if no other filter
is before it. -/
theorem resolveQueryFilter_written {query : String} {before after : List (List Char)}
    {names : List String}
    (hsplit : query.toList.splitOn '&' = before ++ writtenFilter names :: after)
    (hbefore : ∀ pair ∈ before, filterValue pair = none) (h : ∀ name ∈ names, Hideable name) :
    resolveQueryFilter (some query) = names := by
  have hwritten : filterValue (writtenFilter names) =
      some (encodeText uriByte (String.intercalate "," names)) := filterValue_append _
  have hfirst : (query.toList.splitOn '&').findSome? filterValue =
      some (encodeText uriByte (String.intercalate "," names)) := by
    rw [hsplit, List.findSome?_append, List.findSome?_eq_none_iff.mpr hbefore, Option.none_or,
      List.findSome?_cons, hwritten]
  rw [resolveQueryFilter, hfirst]
  show filterNames (urlDecode _) = names
  rw [urlDecode_encodeText, filterNames_intercalate h]

theorem resolveQueryFilter_alone {query : String} {names : List String}
    (hquery : query.toList = writtenFilter names) (h : ∀ name ∈ names, Hideable name) :
    resolveQueryFilter (some query) = names := by
  have hsplit : query.toList.splitOn '&' = [] ++ writtenFilter names :: [] := by
    rw [hquery]
    exact List.splitOn_eq_singleton (amp_notMem_writtenFilter names)
  exact resolveQueryFilter_written hsplit (fun _ hnil => absurd hnil List.not_mem_nil) h

/-! ## Hiding -/

section Hiding

variable {Ctx : Type} (toJson : Json → String)

namespace ToolHandler

/-- The handler as a request with this query meets it. -/
def forQuery (handler : ToolHandler Ctx) (query : Option String) : ToolHandler Ctx :=
  { handler with queryFilter := resolveQueryFilter query }

/-- On no page of the list, and every call is refused before anything runs. -/
structure Hidden (handler : ToolHandler Ctx) (name : String) : Prop where
  unlisted : ∀ request page, handler.listTools toJson request = .ok page →
    ∀ tool ∈ page.items, tool.name ≠ name
  refused : ∀ arguments context, ∃ error,
    handler.callTool ⟨name, arguments⟩ context = (.error error, none)

/-- Listed and called as it would be without the query. -/
structure Untouched (handler : ToolHandler Ctx) (query : Option String) (name : String) :
    Prop where
  listed : ∀ request, ((handler.forQuery query).listTools toJson request).map
      (fun page => (page.items.filter (fun tool => decide (tool.name = name)), page.nextCursor)) =
    ((handler.forQuery none).listTools toJson request).map
      fun page => (page.items.filter (fun tool => decide (tool.name = name)), page.nextCursor)
  called : ∀ arguments context, (handler.forQuery query).callTool ⟨name, arguments⟩ context =
    (handler.forQuery none).callTool ⟨name, arguments⟩ context

variable {handler : ToolHandler Ctx} {query : Option String} {name : String}

/-- A page is what it would be without the query, but for the names of the query. -/
theorem listTools_forQuery (request : Option String) :
    (handler.forQuery query).listTools toJson request =
      ((handler.forQuery none).listTools toJson request).map fun page =>
        ⟨page.items.filter fun tool => !(resolveQueryFilter query).contains tool.name,
          page.nextCursor⟩ := by
  unfold listTools DynamicHandler.listTools lists forQuery
  dsimp only
  cases handler.inner.listTools request with
  | error e => rfl
  | ok page =>
    have hnone : (resolveQueryFilter none).isEmpty = true := rfl
    simp only [Except.map, hnone, if_true, Except.ok.injEq, Page.mk.injEq, and_true]
    cases hnames : resolveQueryFilter query with
    | nil => simp
    | cons n names => simp

theorem hidden_of_mem (h : name ∈ resolveQueryFilter query) :
    (handler.forQuery query).Hidden toJson name where
  unlisted request page hlisted tool htool heq := by
    rw [listTools_forQuery] at hlisted
    cases hplain : (handler.forQuery none).listTools toJson request with
    | error e =>
      rw [hplain] at hlisted
      cases hlisted
    | ok plain =>
      rw [hplain] at hlisted
      cases hlisted
      have hout := (List.mem_filter.mp htool).2
      rw [heq] at hout
      simp [h] at hout
  refused arguments context := by
    have hcontains : (resolveQueryFilter query).contains name = true := List.contains_iff_mem.mpr h
    unfold callTool
    cases hrefusal : (handler.forQuery query).refusal ⟨name, arguments⟩ context with
    | some error => exact ⟨error, rfl⟩
    | none =>
      unfold refusal forQuery at hrefusal
      dsimp only at hrefusal
      split at hrefusal
      · cases hrefusal
      · rw [if_pos hcontains] at hrefusal
        cases hrefusal

theorem untouched_of_notMem (h : name ∉ resolveQueryFilter query) :
    handler.Untouched toJson query name where
  listed request := by
    rw [listTools_forQuery]
    cases (handler.forQuery none).listTools toJson request with
    | error e => rfl
    | ok page =>
      simp only [Except.map, List.filter_filter, Except.ok.injEq, Prod.mk.injEq, and_true]
      refine List.filter_congr fun tool _ => ?_
      by_cases hname : tool.name = name
      · simp [hname, h]
      · simp [hname]
  called arguments context := by
    have hcontains : (resolveQueryFilter query).contains name = false := by simpa using h
    have hrefusal : (handler.forQuery query).refusal ⟨name, arguments⟩ context =
        (handler.forQuery none).refusal ⟨name, arguments⟩ context := by
      unfold refusal forQuery
      dsimp only
      rw [hcontains]
      rfl
    unfold callTool
    rw [hrefusal]
    rfl

end ToolHandler

/-- A query hides these names and no others, whatever it meets. -/
def HidesExactly (Ctx : Type) (query : Option String) (names : List String) : Prop :=
  ∀ (handler : ToolHandler Ctx) (name : String),
    (name ∈ names → (handler.forQuery query).Hidden toJson name) ∧
    (name ∉ names → handler.Untouched toJson query name)

/-- A handler that runs every tool. -/
def runsAll (Ctx : Type) : ToolHandler Ctx :=
  { inner :=
      { listTools := nothing, listPrompts := nothing, listResources := nothing
        getTool := fun _ => none
        runs := fun _ => some fun _ _ => .ok (.complete .null)
        notFound := fun _ _ => .ok (.complete .null) }
    registry := ⟨HashMap.empty, HashMap.empty, HashMap.empty, 0, by simp⟩
    filter := none
    queryFilter := []
    accessValidator := none }

/-- **What a query can hide.** For a set of names there is a query that hides them
and nothing else, on every page of the list and in every call, whatever the
handler, its filter and its validator, if and only if each name has no comma, no
white space around it and at least one character. -/
theorem hides_exactly_iff [Inhabited Ctx] (names : List String) :
    (∃ query : String, HidesExactly toJson Ctx (some query) names) ↔
      ∀ name ∈ names, Hideable name := by
  constructor
  · rintro ⟨query, hquery⟩ name hname
    by_cases hmem : name ∈ resolveQueryFilter (some query)
    · exact hideable_of_mem hmem
    · obtain ⟨error, hrefused⟩ := ((hquery (runsAll Ctx) name).1 hname).refused none default
      rw [(ToolHandler.untouched_of_notMem toJson hmem).called] at hrefused
      cases hrefused
  · intro h
    have hnames := resolveQueryFilter_alone String.toList_ofList h
    refine ⟨String.ofList (writtenFilter names), fun handler name => ?_⟩
    refine ⟨fun hname => ?_, fun hname => ?_⟩
    · refine ToolHandler.hidden_of_mem toJson ?_
      rw [hnames]
      exact hname
    · refine ToolHandler.untouched_of_notMem toJson ?_
      rw [hnames]
      exact hname

end Hiding

end McpFramework
