import Mathlib.Data.List.Basic

/-!
# Lib — Pagination

Lists served in pages: a page names the cursor of the next one, and a client
follows the cursors until a page has none.
-/

namespace McpFramework.Lib

variable {κ ε α β : Type*}

structure Page (κ α : Type*) where
  items : List α
  nextCursor : Option κ

/-- A page for a cursor; the first one without. -/
abbrev Lister (κ ε α : Type*) := Option κ → Except ε (Page κ α)

/-- What a client gets that follows the cursors from one of them to the end. -/
inductive Follows (list : Lister κ ε α) : Option κ → List (List α) → Prop
  | last {cursor : Option κ} {items : List α} (h : list cursor = .ok ⟨items, none⟩) :
    Follows list cursor [items]
  | next {cursor : Option κ} {items : List α} {next : κ} {pages : List (List α)}
      (h : list cursor = .ok ⟨items, some next⟩) (hrest : Follows list (some next) pages) :
    Follows list cursor (items :: pages)

namespace Follows

variable {list : Lister κ ε α} {cursor : Option κ} {pages pages' : List (List α)}

theorem ne_nil (h : Follows list cursor pages) : pages ≠ [] := by
  cases h <;> simp

/-- The pages are determined by the cursor they start at. -/
theorem unique (h : Follows list cursor pages) (h' : Follows list cursor pages') :
    pages = pages' := by
  induction h generalizing pages' with
  | last hlist =>
    cases h' with
    | last hlist' =>
      rw [hlist] at hlist'
      cases hlist'
      rfl
    | next hlist' _ =>
      rw [hlist] at hlist'
      cases hlist'
  | next hlist _ ih =>
    cases h' with
    | last hlist' =>
      rw [hlist] at hlist'
      cases hlist'
    | next hlist' hrest' =>
      rw [hlist] at hlist'
      cases hlist'
      rw [ih hrest']

/-- A lister that changes each page of another by itself. -/
theorem map {list' : Lister κ ε β} (f : List α → List β)
    (hlist : ∀ cursor, list' cursor = (list cursor).map fun page => ⟨f page.items, page.nextCursor⟩)
    (h : Follows list cursor pages) : Follows list' cursor (pages.map f) := by
  induction h with
  | last h => exact .last (by rw [hlist, h]; rfl)
  | next h _ ih => exact .next (by rw [hlist, h]; rfl) ih

end Follows
end McpFramework.Lib
