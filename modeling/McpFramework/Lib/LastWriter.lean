import Mathlib.Data.List.Nodup

/-!
# Lib — LastWriter

A register that keeps the newest of the values written to it, by a stamp the
values carry. With distinct stamps what it ends with does not depend on the
order of the writes.
-/

namespace McpFramework.Lib

variable {α : Type*} (stamp : α → Nat)

/-- The register after a write. -/
def keepNewer (held new : α) : α := if stamp held < stamp new then new else held

/-- The value with the greatest stamp of some. -/
structure Newest (newest : α) (values : List α) : Prop where
  mem : newest ∈ values
  le : ∀ value ∈ values, stamp value ≤ stamp newest

theorem keepNewer_mem (held new : α) :
    keepNewer stamp held new = held ∨ keepNewer stamp held new = new := by
  unfold keepNewer
  split
  · exact .inr rfl
  · exact .inl rfl

theorem le_keepNewer (held new : α) : stamp held ≤ stamp (keepNewer stamp held new) ∧
    stamp new ≤ stamp (keepNewer stamp held new) := by
  unfold keepNewer
  split
  · omega
  · omega

variable {stamp} {held newest newest' : α} {values values' : List α}

/-- After any writes the register holds the newest value. -/
theorem newest_foldl (held : α) (values : List α) :
    Newest stamp (values.foldl (keepNewer stamp) held) (held :: values) := by
  induction values generalizing held with
  | nil =>
    refine ⟨List.mem_cons_self, ?_⟩
    intro value hvalue
    rw [List.mem_singleton.mp hvalue]
    exact Nat.le_refl _
  | cons new values ih =>
    obtain ⟨hmem, hle⟩ := ih (keepNewer stamp held new)
    obtain ⟨hheld, hnew⟩ := le_keepNewer stamp held new
    have hkept := hle _ List.mem_cons_self
    rw [List.foldl_cons]
    constructor
    · rcases List.mem_cons.mp hmem with heq | hlater
      · rw [heq]
        rcases keepNewer_mem stamp held new with h | h
        · rw [h]
          exact List.mem_cons_self
        · rw [h]
          exact List.mem_cons_of_mem held List.mem_cons_self
      · exact List.mem_cons_of_mem held (List.mem_cons_of_mem new hlater)
    · intro value hvalue
      rcases List.mem_cons.mp hvalue with rfl | hvalue
      · exact Nat.le_trans hheld hkept
      · rcases List.mem_cons.mp hvalue with rfl | hvalue
        · exact Nat.le_trans hnew hkept
        · exact hle value (List.mem_cons_of_mem _ hvalue)

/-- With distinct stamps there is one newest value. -/
theorem Newest.unique (hdistinct : (values.map stamp).Nodup) (h : Newest stamp newest values)
    (h' : Newest stamp newest' values) : newest = newest' :=
  List.inj_on_of_nodup_map hdistinct h.mem h'.mem (Nat.le_antisymm (h'.le _ h.mem) (h.le _ h'.mem))

theorem Newest.perm (h : Newest stamp newest values) (hp : values.Perm values') :
    Newest stamp newest values' :=
  ⟨hp.mem_iff.mp h.mem, fun value hvalue => h.le value (hp.mem_iff.mpr hvalue)⟩

/-- The order of the writes does not matter. -/
theorem foldl_keepNewer_perm (hdistinct : ((held :: values).map stamp).Nodup)
    (hp : values'.Perm values) :
    values'.foldl (keepNewer stamp) held = values.foldl (keepNewer stamp) held :=
  Newest.unique hdistinct ((newest_foldl held values').perm (hp.cons held))
    (newest_foldl held values)

end McpFramework.Lib
