import Mathlib

/-!
# First appearances

Without repetitions a list holds its items in the order in which they appear first. A list that grows
item by item grows by a first appearance exactly where the item was not there before; the colours of a
palette and the maps of the spots of a script come about in this way.
-/

namespace Interlude

variable {α : Type} [DecidableEq α] {items firsts : List α} {a : α}

/-- The items of a list, each one once, in the order in which they appear first. -/
structure AreFirsts (items firsts : List α) : Prop where
  mem_iff : ∀ a, a ∈ firsts ↔ a ∈ items
  ordered : firsts.Pairwise fun a b => items.idxOf a < items.idxOf b

/-- One more item is one more first appearance if it was not there before. -/
theorem eraseDups_concat (items : List α) (a : α) :
    (items ++ [a]).eraseDups = if a ∈ items then items.eraseDups else items.eraseDups ++ [a] := by
  rw [List.eraseDups_append, List.cons_removeAll]
  by_cases h : a ∈ items
  · simp [h]
  · simp [h, List.eraseDups_cons]

/-- Without repetitions a list holds its items in the order in which they appear first. -/
theorem areFirsts_eraseDups (items : List α) : AreFirsts items items.eraseDups := by
  refine ⟨fun a => List.mem_eraseDups, ?_⟩
  induction items using List.reverseRecOn with
  | nil => exact List.Pairwise.nil
  | append_singleton items a ih =>
    have hold : items.eraseDups.Pairwise fun b c =>
        (items ++ [a]).idxOf b < (items ++ [a]).idxOf c := by
      refine ih.imp_of_mem fun {b c} hb hc hlt => ?_
      rwa [List.idxOf_append_of_mem (List.mem_eraseDups.mp hb),
        List.idxOf_append_of_mem (List.mem_eraseDups.mp hc)]
    rw [eraseDups_concat]
    split
    · exact hold
    · rename_i hnew
      refine List.pairwise_append.mpr ⟨hold, List.pairwise_singleton _ _, fun b hb c hc => ?_⟩
      obtain rfl := List.mem_singleton.mp hc
      have hb := List.mem_eraseDups.mp hb
      rw [List.idxOf_append_of_mem hb, List.idxOf_append_of_notMem hnew]
      exact Nat.lt_add_right _ (List.idxOf_lt_length_of_mem hb)

/-- No first appearance comes again. -/
theorem AreFirsts.nodup (h : AreFirsts items firsts) : firsts.Nodup :=
  h.ordered.imp fun {a b} hlt => by
    rintro rfl
    exact Nat.lt_irrefl _ hlt

/-- There are as many first appearances as different items. -/
theorem AreFirsts.length_eq (h : AreFirsts items firsts) : firsts.length = items.toFinset.card := by
  rw [← List.toFinset_card_of_nodup h.nodup]
  congr 1
  ext a
  rw [List.mem_toFinset, List.mem_toFinset, h.mem_iff]

end Interlude
