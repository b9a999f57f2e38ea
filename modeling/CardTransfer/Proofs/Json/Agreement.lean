import CardTransfer.Proofs.Json.Entry
import Mathlib.Data.Set.Defs
import Mathlib.Tactic.Common

/-!
# Places in documents

A place is a sequence of steps into a document, each into an object by a key or into a list by a
number; `at?` is the part of the document that it leads to.
-/

namespace CardTransfer
namespace Json

/-- A step into a document. -/
inductive Step where
  | key (key : String)
  | item (n : Nat)
  deriving DecidableEq, Repr

/-- The part of a document that a step leads to. -/
def part? : Json → Step → Option Json
  | obj ms, .key key => Members.get? ms key
  | arr vs, .item n => vs[n]?
  | _, _ => none

/-- The part of a document at a place. -/
def at? (v : Json) : List Step → Option Json
  | [] => some v
  | s :: p => (v.part? s).bind fun w => w.at? p

/-- A place in a part is a place in the document. -/
theorem at?_append (v : Json) (p q : List Step) : v.at? (p ++ q) = (v.at? p).bind (·.at? q) := by
  induction p generalizing v with
  | nil => rfl
  | cons s p ih =>
    rw [List.cons_append, at?, at?]
    cases v.part? s with
    | none => rfl
    | some w => exact ih w

variable {v w : Json} {s : Step}

/-- With a document, its parts have each key once. -/
theorem keysOnce_of_part? (hv : v.keysOnce = true) (h : v.part? s = some w) :
    w.keysOnce = true := by
  unfold part? at h
  split at h
  · rename_i ms key
    rw [keysOnce, Bool.and_eq_true, membersKeysOnce_eq] at hv
    exact List.all_eq_true.1 hv.2 _ (Members.mem_of_get? h)
  · rename_i vs n
    rw [keysOnce, itemsKeysOnce_eq] at hv
    exact List.all_eq_true.1 hv _ (List.mem_of_getElem? h)
  · cases h

end Json
end CardTransfer

/-!
## Documents that agree

What a document shows at a place is its part there, lists and objects by their kind alone: their items
and members show at places of their own. Two documents are `Alike` if they show the same at every
place, that is if they are equal but for the order of members. They agree off some places if they show
the same at every place that is not at or below one of those.

No document is like one of its own parts (`not_alike_part`): it would have places of every length.
-/

namespace CardTransfer
namespace Json

/-- A value by itself, without its items and members. -/
def outline : Json → Json
  | arr _ => arr []
  | obj _ => obj []
  | v => v

/-- What a document shows at a place. -/
def shows (v : Json) (p : List Step) : Option Json := (v.at? p).map outline

/-- Equality but for the order of members. -/
def Alike (v w : Json) : Prop := ∀ p, v.shows p = w.shows p

/-- Equality, but for the order of members and for what stands at or below some places. -/
def AgreeOff (places : Set (List Step)) (v w : Json) : Prop :=
  ∀ p, (∀ a ∈ places, ¬ a <+: p) → v.shows p = w.shows p

variable {v w v' w' : Json} {s : Step} {p : List Step}

theorem Alike.refl (v : Json) : Alike v v := fun _ => rfl

theorem shows_nil (v : Json) : v.shows [] = some v.outline := rfl

theorem shows_cons (v : Json) (s : Step) (p : List Step) :
    v.shows (s :: p) = (v.part? s).bind fun w => w.shows p := by
  rw [shows, at?, Option.map_bind]
  rfl

/-- Parts are alike, or missing in both, if they show the same at every place. -/
theorem rel_alike_iff {a b : Option Json} :
    Option.Rel Alike a b ↔ ∀ p, (a.bind fun v => v.shows p) = b.bind fun w => w.shows p := by
  constructor
  · rintro (⟨h⟩ | _) p
    · exact h p
    · rfl
  · intro h
    cases a with
    | none =>
      cases b with
      | none => exact .none
      | some w => cases h []
    | some v =>
      cases b with
      | none => cases h []
      | some w => exact .some h

/-- Documents are alike if they show the same and their parts are alike. -/
theorem alike_iff : Alike v w ↔
    v.outline = w.outline ∧ ∀ s, Option.Rel Alike (v.part? s) (w.part? s) := by
  simp only [rel_alike_iff, ← shows_cons]
  constructor
  · intro h
    exact ⟨Option.some.inj (h []), fun s p => h (s :: p)⟩
  · rintro ⟨hnil, hparts⟩ p
    cases p with
    | nil => exact congrArg some hnil
    | cons s p => exact hparts s p

theorem Alike.part (h : Alike v w) (hv : v.part? s = some v') (hw : w.part? s = some w') :
    Alike v' w' := by
  have hs := (alike_iff.1 h).2 s
  rw [hv, hw] at hs
  cases hs with
  | some hs => exact hs

/-- What is like a document has the same parts. -/
theorem Alike.exists_part (h : Alike v w) (hw : w.part? s = some w') :
    ∃ v', v.part? s = some v' ∧ Alike v' w' := by
  have hs := (alike_iff.1 h).2 s
  rw [hw] at hs
  cases hv : v.part? s with
  | none =>
    rw [hv] at hs
    cases hs
  | some v' =>
    rw [hv] at hs
    cases hs with
    | some hs => exact ⟨v', rfl, hs⟩

/-! ### A document and its parts -/

theorem sizeOf_of_part? (h : v.part? s = some w) : sizeOf w < sizeOf v := by
  unfold part? at h
  split at h
  · rename_i ms key
    have hsize := List.sizeOf_lt_of_mem (Members.mem_of_get? h)
    rw [Prod.mk.sizeOf_spec] at hsize
    rw [obj.sizeOf_spec]
    omega
  · rename_i vs n
    have hsize := List.sizeOf_lt_of_mem (List.mem_of_getElem? h)
    rw [arr.sizeOf_spec]
    omega
  · cases h

/-- A document with a part at a place is at least as large as the place is long. -/
theorem length_le_of_at? (h : v.at? p = some w) : p.length ≤ sizeOf v := by
  induction p generalizing v with
  | nil => exact Nat.zero_le _
  | cons s p ih =>
    rw [at?, Option.bind_eq_some_iff] at h
    obtain ⟨u, hu, h⟩ := h
    have hsize := sizeOf_of_part? hu
    have hlength := ih h
    rw [List.length_cons]
    omega

/-- **No document is like one of its own parts.** -/
theorem not_alike_part (hw : v.part? s = some w) : ¬ Alike w v := by
  intro h
  have hdeep (n : Nat) : ∃ u, v.at? (List.replicate n s) = some u := by
    induction n with
    | zero => exact ⟨v, rfl⟩
    | succ n ih =>
      obtain ⟨u, hu⟩ := ih
      have hshows := h (List.replicate n s)
      rw [shows, shows, hu, Option.map_some, Option.map_eq_some_iff] at hshows
      obtain ⟨u', hu', -⟩ := hshows
      refine ⟨u', ?_⟩
      rw [List.replicate_succ, at?, hw, Option.bind_some, hu']
  obtain ⟨u, hu⟩ := hdeep (sizeOf v + 1)
  have hlength := length_le_of_at? hu
  rw [List.length_replicate] at hlength
  omega

end Json
end CardTransfer
