import CardTransfer.Proofs.Json.Lasting
import CardTransfer.Proofs.Store.State
import CardTransfer.Store.CardMap
import CardTransfer.Store.Mappings

/-!
# The places of the store

The store has a file each for the mappings of tables, those of fields and the cards, and a folder with
a file for each state. In a directory that has files in these places only (`Tidy`), no place is in the
way of another: a document can be written in a place unless the name of the file is too long
(`Tidy.write`), is read back there (`readJson_writeJson`), and leaves all other places as they are
(`Place.sameAt`).
-/

namespace CardTransfer

/-- **A document that lasts is read back in order.** -/
theorem Directory.readJson_writeJson {d d' : Directory} {path : String} {v : Json} (hv : v.Lasting)
    (h : d.writeJson path v = .ok d') (hparent : path ∉ parents path) (fallback : Json) :
    d'.readJson path fallback = .ok v.inOrder := by
  rw [readJson, readJson?_writeJson h hparent, hv.reread?_eq]
  rfl

namespace Store

open Directory (SameAt parents)

variable {d d' : Directory} {p q key other text : String}

/-- Where the store keeps what it has, renderings apart. -/
inductive Place : String → Prop
  | tables : Place tableFile.path
  | fields : Place fieldFile.path
  | cards : Place cardPath
  | state {key : String} (h : isKey key = true) : Place (statePath key)

theorem isTooLong_tables : Directory.isTooLong tableFile.path = false := by decide +kernel

theorem isTooLong_fields : Directory.isTooLong fieldFile.path = false := by decide +kernel

theorem isTooLong_cards : Directory.isTooLong cardPath = false := by decide +kernel

theorem statePath_inj (h : statePath key = statePath other) : key = other := by
  unfold statePath at h
  have hlist : "state/".toList ++ key.toList ++ ".json".toList =
      "state/".toList ++ other.toList ++ ".json".toList := by
    rw [← String.toList_append, ← String.toList_append, ← String.toList_append,
      ← String.toList_append, h]
  exact String.toList_inj.1 (List.append_cancel_left (List.append_cancel_right hlist))

/-- A state is in a file of its own. -/
theorem statePath_ne (hpath : p.toList.head? ≠ some 's') : statePath key ≠ p := by
  rintro rfl
  refine hpath ?_
  rw [statePath, String.toList_append, String.toList_append]
  rfl

/-- The folder for states is all that is on the way to a place. -/
theorem Place.eq_of_mem_parents (h : Place p) (hq : q ∈ parents p) : q = "state" := by
  cases h with
  | tables => exact absurd hq (by revert q; decide)
  | fields => exact absurd hq (by revert q; decide)
  | cards => exact absurd hq (by revert q; decide)
  | state hkey =>
    rw [statePath_eq, Directory.parents_append (by decide)
      (slash_not_mem_of_isKey hkey (by decide))] at hq
    exact List.mem_singleton.1 hq

/-- No place is that folder. -/
theorem Place.ne_folder (h : Place p) : p ≠ "state" := by
  cases h with
  | tables => decide
  | fields => decide
  | cards => decide
  | @state key _ =>
    intro heq
    have hlength := congrArg (·.toList.length) heq
    rw [statePath_eq] at hlength
    simp only [String.toList_append, List.length_append] at hlength
    have hslash : "/".toList.length = 1 := rfl
    omega

/-- No place is on the way to another, or to itself. -/
theorem Place.not_mem_parents (hp : Place p) (hq : Place q) : p ∉ parents q :=
  fun h => hp.ne_folder (hq.eq_of_mem_parents h)

/-- What is written in a place leaves the other places as they are. -/
theorem Place.sameAt (hp : Place p) (hq : Place q) (hne : p ≠ q) (h : d.write p text = .ok d') :
    SameAt q d d' :=
  Directory.sameAt_write h hne (hq.not_mem_parents hp) (hp.not_mem_parents hq)

/-- A directory that has files only in the places of the store. -/
def Tidy (d : Directory) : Prop := ∀ f ∈ d.files, Place f.1

theorem tidy_empty : Tidy .empty := fun _ h => nomatch h

theorem Tidy.put (h : Tidy d) (hp : Place p) : Tidy ⟨Directory.put d.files p text⟩ := by
  obtain ⟨files⟩ := d
  induction files with
  | nil => exact List.forall_mem_singleton.2 hp
  | cons f files ih =>
    obtain ⟨hf, hfiles⟩ := List.forall_mem_cons.1 h
    show ∀ g ∈ Directory.put (f :: files) p text, Place g.1
    unfold Directory.put
    split
    · rename_i heq
      exact List.forall_mem_cons.2 ⟨hf, hfiles⟩
    · exact List.forall_mem_cons.2 ⟨hf, ih hfiles⟩

/-- Where a document can be written in a place, and what becomes of the directory. -/
theorem Tidy.write (h : Tidy d) (hp : Place p) (text : String) :
    (Directory.isTooLong p = true → d.write p text = .error (Directory.tooLong p)) ∧
      (Directory.isTooLong p = false → ∃ d', d.write p text = .ok d' ∧ Tidy d') := by
  have hway : d.isObstructed p = false := by
    rw [Bool.eq_false_iff, Ne, Directory.isObstructed, List.any_eq_true]
    rintro ⟨q, hq, hsome⟩
    obtain ⟨text, htext⟩ := Option.isSome_iff_exists.1 hsome
    obtain ⟨before, after, hfiles, -⟩ := List.lookup_eq_some_iff.1 htext
    have hplace : Place q := h (q, text) (by rw [hfiles]; simp)
    exact hplace.ne_folder (hp.eq_of_mem_parents hq)
  have hfolder : d.isDirectory p = false := by
    rw [Bool.eq_false_iff, Ne, Directory.isDirectory, List.any_eq_true]
    rintro ⟨f, hf, hmem⟩
    exact hp.not_mem_parents (h f hf) (List.contains_iff_mem.1 hmem)
  constructor
  · intro hlong
    rw [Directory.write, hway, hlong]
    rfl
  · intro hshort
    refine ⟨⟨Directory.put d.files p text⟩, ?_, h.put hp⟩
    rw [Directory.write, hway, hshort, hfolder]
    rfl

/-- Where there is no file, the fallback is read. -/
theorem readJson_empty (hshort : Directory.isTooLong p = false) (fallback : Json) :
    Directory.empty.readJson p fallback = .ok fallback := by
  rw [Directory.readJson, Directory.readJson?, Directory.read?, hshort]
  rfl

end Store
end CardTransfer
