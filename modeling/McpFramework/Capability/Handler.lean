import McpFramework.Capability.Registry
import McpFramework.Lib.Pagination

/-!
# Capability — Handler

The lists of a `DynamicHandler` (`capability/handler.rs`): what the inner handler
answers to a page request, with the items of the registry merged in.

The merge knows nothing of pages. It removes from every page what the registry
defines, and it appends the whole registry to every page, so a client that
follows the cursors gets the registry once for each page.
-/

namespace McpFramework

open Lib

/-! ## The handler -/

/-- `ErrorData`. -/
structure McpError where
  code : Int
  message : String

/-- Cursors are strings. -/
abbrev PageLister (α : Type) := Lister String McpError α

/-- The lists of a `ServerHandler`. -/
structure ServerHandler where
  listTools : PageLister Tool
  listPrompts : PageLister Prompt
  listResources : PageLister Resource

/-- A filter, with what it is told of the call. -/
structure CapabilityFilter where
  filterTools : List Tool → List Tool
  filterPrompts : List Prompt → List Prompt
  filterResources : List Resource → List Resource

/-- Merge the registry's items into the inner ones: the registry wins. -/
def mergeRegistryItems {α : Type} (inner registry : List α) (keyEq : α → α → Bool) : List α :=
  registry.foldl (fun inner ri => inner.filter fun item => !keyEq item ri) inner ++ registry

/-- `filter` is that of the context, `queryFilter` the tool names of `?filter=`. -/
structure DynamicHandler where
  inner : ServerHandler
  registry : CapabilityRegistry
  filter : Option CapabilityFilter
  queryFilter : List String

namespace DynamicHandler

-- `sanitizeOne` is what happens to one tool's schemas on the way out.
variable (sanitizeOne : Tool → Tool) (handler : DynamicHandler)

def listTools : PageLister Tool := fun request =>
  (handler.inner.listTools request).map fun innerResult =>
    let merged := mergeRegistryItems innerResult.items handler.registry.tools.values
      fun a b => a.name == b.name
    let tools := merged.map sanitizeOne
    let tools :=
      match handler.filter with
      | some filter => filter.filterTools tools
      | none => tools
    let tools :=
      if handler.queryFilter.isEmpty then tools
      else tools.filter fun t => !handler.queryFilter.contains t.name
    ⟨tools, innerResult.nextCursor⟩

def listPrompts : PageLister Prompt := fun request =>
  (handler.inner.listPrompts request).map fun innerResult =>
    let prompts := mergeRegistryItems innerResult.items handler.registry.prompts.values
      fun a b => a.name == b.name
    let prompts :=
      match handler.filter with
      | some filter => filter.filterPrompts prompts
      | none => prompts
    ⟨prompts, innerResult.nextCursor⟩

def listResources : PageLister Resource := fun request =>
  (handler.inner.listResources request).map fun innerResult =>
    let resources := mergeRegistryItems innerResult.items handler.registry.resources.values
      fun a b => a.uri == b.uri
    let resources :=
      match handler.filter with
      | some filter => filter.filterResources resources
      | none => resources
    ⟨resources, innerResult.nextCursor⟩

end DynamicHandler

/-! ## One page -/

section Merge

variable {α : Type} {keyEq : α → α → Bool}

/-- What the registry does not define. -/
def unshadowed (keyEq : α → α → Bool) (registry inner : List α) : List α :=
  inner.filter fun item => registry.all fun ri => !keyEq item ri

/-- Removing item by item is removing what any item collides with. -/
theorem mergeRegistryItems_eq (inner registry : List α) :
    mergeRegistryItems inner registry keyEq = unshadowed keyEq registry inner ++ registry := by
  have hfold : ∀ (registry inner : List α),
      registry.foldl (fun inner ri => inner.filter fun item => !keyEq item ri) inner =
        unshadowed keyEq registry inner := by
    intro registry
    induction registry with
    | nil => simp [unshadowed]
    | cons ri registry ih =>
      intro inner
      rw [List.foldl_cons, ih, unshadowed, unshadowed, List.filter_filter]
      exact List.filter_congr fun item _ => by rw [List.all_cons, Bool.and_comm]
  rw [mergeRegistryItems, hfold]

/-- The registry comes with every page. -/
theorem flatten_merged_perm (pages : List (List α)) (registry : List α) :
    (pages.map fun inner => mergeRegistryItems inner registry keyEq).flatten.Perm
      (unshadowed keyEq registry pages.flatten ++
        (List.replicate pages.length registry).flatten) := by
  induction pages with
  | nil => simp [unshadowed]
  | cons inner pages ih =>
    have hsplit : unshadowed keyEq registry (inner :: pages).flatten =
        unshadowed keyEq registry inner ++ unshadowed keyEq registry pages.flatten := by
      simp [unshadowed]
    rw [List.map_cons, List.flatten_cons, mergeRegistryItems_eq, hsplit, List.length_cons,
      List.replicate_succ, List.flatten_cons, List.append_assoc, List.append_assoc]
    refine .append_left _ ((ih.append_left registry).trans ?_)
    rw [← List.append_assoc, ← List.append_assoc]
    exact List.perm_append_comm.append_right _

/-- What is sent with every page and should be sent once is nothing, or there is
one page. -/
theorem one_page_of_length {pages : List (List α)} {registry : List α} (hne : pages ≠ [])
    (h : (pages.map fun inner => mergeRegistryItems inner registry keyEq).flatten.length =
      (unshadowed keyEq registry pages.flatten ++ registry).length) :
    pages.length = 1 ∨ registry = [] := by
  have hpos : 0 < pages.length := List.length_pos_iff.mpr hne
  rw [(flatten_merged_perm pages registry).length_eq] at h
  simp only [List.length_append, List.length_flatten, List.map_replicate,
    List.sum_replicate_nat] at h
  have hmul : pages.length * registry.length = registry.length := by omega
  rcases Nat.eq_zero_or_pos registry.length with hzero | hreg
  · exact .inr (List.length_eq_zero_iff.mp hzero)
  · exact .inl (Nat.eq_of_mul_eq_mul_right hreg (by rw [hmul, Nat.one_mul]))

theorem flatten_merged_perm_of_one_page {pages : List (List α)} {registry : List α}
    (h : pages.length = 1 ∨ registry = []) :
    (pages.map fun inner => mergeRegistryItems inner registry keyEq).flatten.Perm
      (unshadowed keyEq registry pages.flatten ++ registry) := by
  have hperm : (pages.map fun inner => mergeRegistryItems inner registry keyEq).flatten.Perm _ :=
    flatten_merged_perm pages registry
  rcases h with hone | rfl
  · rw [hone] at hperm
    simpa using hperm
  · simpa using hperm

/-- A client that follows the cursors to the end gets these items, in some
order. -/
def Gets {κ ε β : Type} (list : Lister κ ε β) (items : List β) : Prop :=
  ∃ pages, Follows list none pages ∧ pages.flatten.Perm items

/-- **Once for each page.** Of a lister that merges page by page a client gets
what it should if and only if there is one page or nothing is registered. -/
theorem gets_merged_iff {κ ε β : Type} {inner : Lister κ ε α} {list : Lister κ ε β}
    {pages : List (List α)} (f : α → β) (registry : List α)
    (hlist : ∀ cursor, list cursor = (inner cursor).map fun page =>
      ⟨(mergeRegistryItems page.items registry keyEq).map f, page.nextCursor⟩)
    (h : Follows inner none pages) :
    Gets list ((unshadowed keyEq registry pages.flatten ++ registry).map f) ↔
      pages.length = 1 ∨ registry = [] := by
  have hmerged := h.map (fun inner => (mergeRegistryItems inner registry keyEq).map f) hlist
  have hflatten :
      (pages.map fun inner => (mergeRegistryItems inner registry keyEq).map f).flatten =
        (pages.map fun inner => mergeRegistryItems inner registry keyEq).flatten.map f := by
    rw [List.map_flatten, List.map_map]
    rfl
  constructor
  · rintro ⟨got, hgot, hperm⟩
    rw [hgot.unique hmerged, hflatten] at hperm
    -- `f` may send two items to one, but it keeps their number.
    have hlength := hperm.length_eq
    rw [List.length_map, List.length_map] at hlength
    exact one_page_of_length h.ne_nil hlength
  · intro hone
    refine ⟨_, hmerged, ?_⟩
    rw [hflatten]
    exact (flatten_merged_perm_of_one_page hone).map f

end Merge

/-! ## The whole list -/

/-- **Where the pages together are the whole list.** Whatever pages the inner
handler serves, without a filter a client that follows the cursors gets every
registered item once and every inner item the registry does not define once if
and only if there is one page or nothing of that kind is registered. -/
theorem lists_exact_iff (sanitizeOne : Tool → Tool) (handler : DynamicHandler)
    (hfilter : handler.filter = none) (hquery : handler.queryFilter = []) :
    (∀ pages, Follows handler.inner.listTools none pages →
      (Gets (handler.listTools sanitizeOne)
          ((unshadowed (fun a b => a.name == b.name) handler.registry.tools.values pages.flatten ++
            handler.registry.tools.values).map sanitizeOne) ↔
        pages.length = 1 ∨ handler.registry.tools.values = [])) ∧
    (∀ pages, Follows handler.inner.listPrompts none pages →
      (Gets handler.listPrompts
          (unshadowed (fun a b => a.name == b.name) handler.registry.prompts.values
            pages.flatten ++ handler.registry.prompts.values) ↔
        pages.length = 1 ∨ handler.registry.prompts.values = [])) ∧
    (∀ pages, Follows handler.inner.listResources none pages →
      (Gets handler.listResources
          (unshadowed (fun a b => a.uri == b.uri) handler.registry.resources.values
            pages.flatten ++ handler.registry.resources.values) ↔
        pages.length = 1 ∨ handler.registry.resources.values = [])) := by
  refine ⟨fun pages h => ?_, fun pages h => ?_, fun pages h => ?_⟩
  · refine gets_merged_iff sanitizeOne _ (fun cursor => ?_) h
    simp only [DynamicHandler.listTools, hfilter, hquery, List.isEmpty_nil, if_true]
  · have hlist : ∀ cursor, handler.listPrompts cursor =
        (handler.inner.listPrompts cursor).map fun page =>
          ⟨(mergeRegistryItems page.items handler.registry.prompts.values
            fun a b => a.name == b.name).map id, page.nextCursor⟩ := fun cursor => by
      simp only [DynamicHandler.listPrompts, hfilter, List.map_id]
    simpa only [List.map_id] using gets_merged_iff id _ hlist h
  · have hlist : ∀ cursor, handler.listResources cursor =
        (handler.inner.listResources cursor).map fun page =>
          ⟨(mergeRegistryItems page.items handler.registry.resources.values
            fun a b => a.uri == b.uri).map id, page.nextCursor⟩ := fun cursor => by
      simp only [DynamicHandler.listResources, hfilter, List.map_id]
    simpa only [List.map_id] using gets_merged_iff id _ hlist h

/-! ## Two pages -/

def toolNamed (name : String) : Tool := ⟨name, .null, none, .null⟩

/-- Tools a, x on the first page and b on the second, which cursor 2 leads to. -/
def twoPages : PageLister Tool := fun request =>
  match request with
  | none => .ok ⟨[toolNamed "a", toolNamed "x"], some "2"⟩
  | some _ => .ok ⟨[toolNamed "b"], none⟩

/-- Tools a and x on one page. -/
def onePage : PageLister Tool := fun _ => .ok ⟨[toolNamed "a", toolNamed "x"], none⟩

/-- One empty page. -/
def nothing {α : Type} : PageLister α := fun _ => .ok ⟨[], none⟩

/-- Nothing but tool x is registered. -/
def withX (listTools : PageLister Tool) : DynamicHandler :=
  { inner := ⟨listTools, nothing, nothing⟩
    registry :=
      { tools := HashMap.empty.insert "x" (toolNamed "x"), prompts := HashMap.empty
        resources := HashMap.empty, version := 0 }
    filter := none
    queryFilter := [] }

theorem follows_twoPages :
    Follows twoPages none [[toolNamed "a", toolNamed "x"], [toolNamed "b"]] :=
  .next rfl (.last rfl)

theorem list_exact_on_one_page :
    Gets ((withX onePage).listTools id) [toolNamed "a", toolNamed "x"] :=
  ((lists_exact_iff id (withX onePage) rfl rfl).1 [[toolNamed "a", toolNamed "x"]]
    (.last rfl)).mpr (.inl rfl)

/-- Tool x is sent with both pages. -/
theorem registry_sent_with_every_page :
    ¬ ∀ handler : DynamicHandler, handler.filter = none → handler.queryFilter = [] →
      ∀ pages, Follows handler.inner.listTools none pages →
        Gets (handler.listTools id)
          (unshadowed (fun a b => a.name == b.name) handler.registry.tools.values pages.flatten ++
            handler.registry.tools.values) := by
  intro h
  obtain ⟨got, hgot, hperm⟩ := h (withX twoPages) rfl rfl _ follows_twoPages
  have hfollows : Follows ((withX twoPages).listTools id) none
      [[toolNamed "a", toolNamed "x"], [toolNamed "b", toolNamed "x"]] :=
    .next rfl (.last rfl)
  rw [hgot.unique hfollows] at hperm
  exact absurd hperm.length_eq (by decide)

end McpFramework
