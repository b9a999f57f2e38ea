/-!
# Putting things in order

A list is put in order by placing its items one by one, the last first, each in front of the first
item that it need not follow. Items that may stand either way keep the order that they had.
-/

namespace CardTransfer
namespace Sorting

variable {α β : Type}

/-- Puts an item in front of the first that it may precede. -/
def place (le : α → α → Bool) (a : α) : List α → List α
  | [] => [a]
  | b :: rest => if le a b then a :: b :: rest else b :: place le a rest

/-- The items in order. -/
def sort (le : α → α → Bool) (items : List α) : List α := items.foldr (place le) []

/-- Placing an item adds just that item. -/
theorem place_perm (le : α → α → Bool) (a : α) (items : List α) :
    (place le a items).Perm (a :: items) := by
  induction items with
  | nil => exact .refl _
  | cons b rest ih =>
    unfold place
    split
    · exact .refl _
    · exact (ih.cons b).trans (.swap a b rest)

/-- Putting a list in order neither adds items nor loses any. -/
theorem sort_perm (le : α → α → Bool) (items : List α) : (sort le items).Perm items := by
  induction items with
  | nil => exact .refl _
  | cons a rest ih => exact (place_perm le a _).trans (ih.cons a)

theorem mem_sort {le : α → α → Bool} {items : List α} {a : α} : a ∈ sort le items ↔ a ∈ items :=
  (sort_perm le items).mem_iff

@[simp] theorem length_sort (le : α → α → Bool) (items : List α) :
    (sort le items).length = items.length :=
  (sort_perm le items).length_eq

/-- An item that is placed where two things compare alike lands in the same place. -/
theorem map_place {le : α → α → Bool} {le' : β → β → Bool} {f : α → β}
    (h : ∀ a b, le' (f a) (f b) = le a b) (a : α) (items : List α) :
    (place le a items).map f = place le' (f a) (items.map f) := by
  induction items with
  | nil => rfl
  | cons b rest ih =>
    unfold place
    rw [List.map_cons]
    simp only [h]
    split
    · rfl
    · rw [List.map_cons, ih]

/-- Items may be replaced by others that compare alike before they are put in order or after. -/
theorem map_sort {le : α → α → Bool} {le' : β → β → Bool} {f : α → β}
    (h : ∀ a b, le' (f a) (f b) = le a b) (items : List α) :
    (sort le items).map f = sort le' (items.map f) := by
  induction items with
  | nil => rfl
  | cons a rest ih =>
    rw [List.map_cons]
    exact (map_place h a (sort le rest)).trans (congrArg (place le' (f a)) ih)

/-- An item placed into a list in order leaves it in order. -/
theorem place_pairwise {le : α → α → Bool} (total : ∀ a b, le a b = true ∨ le b a = true)
    (trans : ∀ a b c, le a b = true → le b c = true → le a c = true) (a : α) {items : List α}
    (h : items.Pairwise fun a b => le a b = true) :
    (place le a items).Pairwise fun a b => le a b = true := by
  induction items with
  | nil => exact List.pairwise_singleton _ _
  | cons b rest ih =>
    rw [List.pairwise_cons] at h
    obtain ⟨hb, hrest⟩ := h
    unfold place
    split
    · rename_i hab
      refine List.pairwise_cons.2 ⟨fun c hc => ?_, List.pairwise_cons.2 ⟨hb, hrest⟩⟩
      rcases List.mem_cons.1 hc with rfl | hc
      · exact hab
      · exact trans a b c hab (hb c hc)
    · rename_i hab
      refine List.pairwise_cons.2 ⟨fun c hc => ?_, ih hrest⟩
      rcases List.mem_cons.1 ((place_perm le a rest).mem_iff.1 hc) with rfl | hc
      · exact (total c b).resolve_left hab
      · exact hb c hc

/-- Where any two items compare and the comparison is transitive, the result is in order. -/
theorem sort_pairwise {le : α → α → Bool} (total : ∀ a b, le a b = true ∨ le b a = true)
    (trans : ∀ a b c, le a b = true → le b c = true → le a c = true) (items : List α) :
    (sort le items).Pairwise fun a b => le a b = true := by
  induction items with
  | nil => exact .nil
  | cons a rest ih => exact place_pairwise total trans a ih

end Sorting
end CardTransfer
