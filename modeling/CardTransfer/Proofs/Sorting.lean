import CardTransfer.Sorting
import Mathlib.Data.List.Chain

/-!
# Lists in order

Putting a list in order leaves each item in a place where it may precede the next (`isChain_sort`), and
does nothing to a list of which that holds already (`sort_eq_self`). So it does nothing the second time.
For both it is enough that any two items compare; the comparison need not be transitive.
-/

namespace CardTransfer
namespace Sorting

variable {α : Type} {le : α → α → Bool} {items : List α}

/-- A list in which each item may precede the next is in order already. -/
theorem sort_eq_self (h : items.IsChain fun a b => le a b = true) : sort le items = items := by
  induction items with
  | nil => rfl
  | cons a rest ih =>
    change place le a (sort le rest) = a :: rest
    rw [ih h.tail]
    cases rest with
    | nil => rfl
    | cons b rest =>
      unfold place
      rw [if_pos (List.isChain_cons_cons.1 h).1]

/-- An item placed into a list in which each item may precede the next leaves it such a list. -/
theorem isChain_place {a : α} (total : ∀ b ∈ items, le a b = true ∨ le b a = true)
    (h : items.IsChain fun a b => le a b = true) :
    (place le a items).IsChain fun a b => le a b = true := by
  induction items with
  | nil => exact .singleton a
  | cons b rest ih =>
    rw [List.forall_mem_cons] at total
    have hrest := ih total.2 h.tail
    unfold place
    split
    · rename_i hab
      exact .cons_cons hab h
    · rename_i hab
      have hba : le b a = true := total.1.resolve_left hab
      cases rest with
      | nil => exact .cons_cons hba (.singleton a)
      | cons c rest =>
        unfold place at hrest ⊢
        split at hrest
        · rename_i hac
          rw [if_pos hac]
          exact .cons_cons hba hrest
        · rename_i hac
          rw [if_neg hac]
          exact .cons_cons (List.isChain_cons_cons.1 h).1 hrest

/-- Where any two items compare, each item of the result may precede the next. -/
theorem isChain_sort (total : ∀ a ∈ items, ∀ b ∈ items, le a b = true ∨ le b a = true) :
    (sort le items).IsChain fun a b => le a b = true := by
  induction items with
  | nil => exact .nil
  | cons a rest ih =>
    have hrest := fun b hb c hc =>
      total b (List.mem_cons_of_mem a hb) c (List.mem_cons_of_mem a hc)
    exact isChain_place (fun b hb => total a (List.mem_cons_self ..) b
      (List.mem_cons_of_mem a (mem_sort.1 hb))) (ih hrest)

end Sorting
end CardTransfer
