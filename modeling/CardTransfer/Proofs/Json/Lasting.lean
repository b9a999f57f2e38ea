import CardTransfer.Proofs.Except
import CardTransfer.Proofs.Json.Agreement
import CardTransfer.Proofs.Json.Double
import CardTransfer.Proofs.Json.Entry
import CardTransfer.Proofs.Json.RoundTrip
import CardTransfer.Proofs.Sorting

/-!
# Documents that last

A document *lasts* if its texts are read back as they were written, no key of it stands twice in an
object, and no integer in it is too long to be read; doubles are always read back. Then it is read back
with nothing changed but the order of members, and since a file has members in the order of their keys,
it is written the second time as it was the first (`Lasting.exists_reread`).
-/

namespace CardTransfer

namespace Members

/-- Members with each key once are put in as they are. -/
theorem ofList_eq_self {ps : List (String × Json)} (h : (ps.map (·.1)).Nodup) : ofList ps = ps := by
  induction ps using List.reverseRecOn with
  | nil => rfl
  | append_singleton ps p ih =>
    rw [List.map_append, List.nodup_append] at h
    obtain ⟨hps, -, hne⟩ := h
    have hnew {ms : Members} (hms : ∀ m ∈ ms, m.1 ≠ p.1) : insert ms p.1 p.2 = ms ++ [p] := by
      induction ms with
      | nil => rfl
      | cons m ms ihms =>
        rw [List.forall_mem_cons] at hms
        unfold insert
        rw [if_neg (by simpa using hms.1), ihms hms.2, List.cons_append]
    have hlast : ofList (ps ++ [p]) = insert (ofList ps) p.1 p.2 := List.foldl_append ..
    rw [hlast, ih hps]
    exact hnew fun m hm => hne m.1 (List.mem_map_of_mem hm) p.1 (List.mem_singleton_self _)

end Members

namespace Json

/-- A document that is read back as it was written, but for the order of members. -/
inductive Lasting : Json → Prop
  | null : Lasting null
  | bool (b : Bool) : Lasting (bool b)
  | int {n : Int} (short : Text.digitCount n ≤ Text.digitLimit) : Lasting (int n)
  | float (x : Float) : Lasting (float x)
  | str {s : String} (same : rereadText s = s) : Lasting (str s)
  | arr {vs : List Json} (items : ∀ v ∈ vs, Lasting v) : Lasting (arr vs)
  | obj {ms : Members} (once : (ms.map (·.1)).Nodup) (keys : ∀ m ∈ ms, rereadText m.1 = m.1)
    (values : ∀ m ∈ ms, Lasting m.2) : Lasting (obj ms)

/-- The members of an object that are in order already stay as they are. -/
theorem arrange_arrange {α : Type} (style : Style) (parts : List (String × α)) :
    style.arrange (style.arrange parts) = style.arrange parts := by
  unfold Style.arrange
  split
  · refine Sorting.sort_eq_self (Sorting.isChain_sort fun a _ b _ => ?_)
    rw [Bool.not_eq_true', decide_eq_false_iff_not, Bool.not_eq_true', decide_eq_false_iff_not]
    by_cases h : b.1 < a.1
    · exact .inr (String.lt_asymm h)
    · exact .inl h
  · rfl

/-- Members in order are the same members. -/
theorem arrange_perm {α : Type} (style : Style) (parts : List (String × α)) :
    (style.arrange parts).Perm parts := by
  unfold Style.arrange
  split
  · exact Sorting.sort_perm _ parts
  · exact .refl _

/-- A value that is read as another one, which is written in the same way. -/
def ReadsAlike (style : Style) (v w : Json) : Prop :=
  reread? style v = .ok w ∧ ∀ depth, writeAt style depth w = writeAt style depth v

/-- Items that are read as others which are written in the same way. -/
theorem exists_readsAlike_items {style : Style} {vs : List Json}
    (h : ∀ v ∈ vs, ∃ w, ReadsAlike style v w) : ∃ ws, vs.mapM (reread? style) = .ok ws ∧
      ∀ depth, ws.map (writeAt style depth) = vs.map (writeAt style depth) := by
  induction vs with
  | nil => exact ⟨[], rfl, fun _ => rfl⟩
  | cons v vs ih =>
    rw [List.forall_mem_cons] at h
    obtain ⟨w, hread, hwrite⟩ := h.1
    obtain ⟨ws, hreads, hwrites⟩ := ih h.2
    refine ⟨w :: ws, mapM_cons_eq_ok.2 ⟨w, ws, hread, hreads, rfl⟩, fun depth => ?_⟩
    rw [List.map_cons, List.map_cons, hwrite, hwrites]

/-- Members under lasting keys, whose values are read as others which are written in the same way. -/
theorem exists_readsAlike_members {style : Style} {ms : Members}
    (hkeys : ∀ m ∈ ms, rereadText m.1 = m.1) (h : ∀ m ∈ ms, ∃ w, ReadsAlike style m.2 w) :
    ∃ ns, (ms.mapM fun p => (reread? style p.2).map fun v => (rereadText p.1, v)) = .ok ns ∧
      ns.map (·.1) = ms.map (·.1) ∧ ∀ depth, (ns.map fun p => (p.1, writeAt style depth p.2)) =
        ms.map fun p => (p.1, writeAt style depth p.2) := by
  induction ms with
  | nil => exact ⟨[], rfl, rfl, fun _ => rfl⟩
  | cons m ms ih =>
    rw [List.forall_mem_cons] at hkeys h
    obtain ⟨w, hread, hwrite⟩ := h.1
    obtain ⟨ns, hreads, hsame, hwrites⟩ := ih hkeys.2 h.2
    refine ⟨(m.1, w) :: ns, mapM_cons_eq_ok.2 ⟨(m.1, w), ns, ?_, hreads, rfl⟩, ?_, fun depth => ?_⟩
    · rw [hread, hkeys.1]
      rfl
    · rw [List.map_cons, List.map_cons, hsame]
    · rw [List.map_cons, List.map_cons, hwrite, hwrites]

/-- **A lasting document is read back as one that is written in the same way.** -/
theorem Lasting.exists_reread {v : Json} (h : Lasting v) (style : Style) :
    ∃ w, ReadsAlike style v w := by
  induction h with
  | null => exact ⟨_, rfl, fun _ => rfl⟩
  | bool b => exact ⟨_, rfl, fun _ => rfl⟩
  | int short =>
    refine ⟨_, ?_, fun _ => rfl⟩
    rw [reread?, if_neg (Nat.not_lt.2 short)]
  | float x =>
    refine ⟨_, ?_, fun _ => rfl⟩
    rw [reread?, rereadFloat_eq_self]
  | str same =>
    refine ⟨_, ?_, fun _ => rfl⟩
    rw [reread?, same]
  | arr _ ih =>
    obtain ⟨ws, hread, hwrite⟩ := exists_readsAlike_items ih
    refine ⟨.arr ws, ?_, fun depth => ?_⟩
    · rw [reread?, rereadItems_eq_mapM, hread]
      rfl
    · rw [writeAt, writeAt, writeItems_eq_map, writeItems_eq_map, hwrite]
  | @obj ms once keys _ ih =>
    have hmem {m : String × Json} (hm : m ∈ style.arrange ms) : m ∈ ms := mem_arrange.1 hm
    obtain ⟨ns, hread, hsame, hwrite⟩ := exists_readsAlike_members (fun m hm => keys m (hmem hm))
      (fun m hm => ih m (hmem hm))
    have honce : (ns.map (·.1)).Nodup := by
      rw [hsame]
      exact (((arrange_perm style ms).map _).nodup_iff).2 once
    refine ⟨.obj ns, ?_, fun depth => ?_⟩
    · rw [reread?_obj, hread]
      exact congrArg (fun ns => Except.ok (Json.obj ns)) (Members.ofList_eq_self honce)
    · rw [writeAt, writeAt, writeMembers_eq_map, writeMembers_eq_map, hwrite, ← arrange_map,
        arrange_arrange]

end Json
end CardTransfer

/-!
## Documents in order

A file holds the members of every object in the order of their keys. `inOrder` puts them there and
leaves a document as it is otherwise, so the two are `Alike` (`Lasting.alike_inOrder`). What lasts is
read back in order (`Lasting.reread?_eq`), and stays as it is whenever it is written again
(`Lasting.inOrder_inOrder`).
-/

namespace CardTransfer
namespace Json

mutual

/-- A document with the members of every object in the order of their keys. -/
def inOrder : Json → Json
  | arr vs => arr (itemsInOrder vs)
  | obj ms => obj (Style.file.arrange (membersInOrder ms))
  | v => v

/-- Items with the members of every object in order. -/
def itemsInOrder : List Json → List Json
  | [] => []
  | v :: vs => inOrder v :: itemsInOrder vs

/-- Members whose values have the members of every object in order. -/
def membersInOrder : List (String × Json) → List (String × Json)
  | [] => []
  | (k, v) :: ms => (k, inOrder v) :: membersInOrder ms

end

theorem inOrder_arr (vs : List Json) : (arr vs).inOrder = arr (vs.map inOrder) := by
  have hitems : itemsInOrder vs = vs.map inOrder := by
    induction vs with
    | nil => rfl
    | cons v vs ih => rw [itemsInOrder, List.map_cons, ih]
  rw [inOrder, hitems]

theorem inOrder_obj (ms : Members) :
    (obj ms).inOrder = obj ((Style.file.arrange ms).map fun m => (m.1, m.2.inOrder)) := by
  have hmembers : membersInOrder ms = ms.map fun m => (m.1, m.2.inOrder) := by
    induction ms with
    | nil => rfl
    | cons m ms ih => rw [membersInOrder, List.map_cons, ih]
  rw [inOrder, hmembers, arrange_map]

variable {v : Json}

theorem map_fst_arrange_nodup {ms : Members} (once : (ms.map (·.1)).Nodup) :
    ((Style.file.arrange ms).map (·.1)).Nodup :=
  (((arrange_perm .file ms).map _).nodup_iff).2 once

/-- **What lasts is read back in order.** -/
theorem Lasting.reread?_eq (h : Lasting v) : v.reread? .file = .ok v.inOrder := by
  induction h with
  | null => rfl
  | bool b => rfl
  | int short =>
    rw [reread?, if_neg (Nat.not_lt.2 short)]
    rfl
  | float x =>
    rw [reread?, rereadFloat_eq_self]
    rfl
  | str same =>
    rw [reread?, same]
    rfl
  | arr _ ih =>
    rw [reread?, rereadItems_eq_mapM, mapM_eq_ok_map ih, inOrder_arr]
    rfl
  | @obj ms once keys _ ih =>
    have hread : ∀ m ∈ Style.file.arrange ms, ((reread? .file m.2).map fun v => (rereadText m.1, v)) =
        .ok (m.1, m.2.inOrder) := by
      intro m hm
      rw [ih m (mem_arrange.1 hm), keys m (mem_arrange.1 hm)]
      rfl
    have honce : (((Style.file.arrange ms).map fun m => (m.1, m.2.inOrder)).map (·.1)).Nodup := by
      rw [List.map_map]
      exact map_fst_arrange_nodup once
    rw [reread?_obj, mapM_eq_ok_map hread, inOrder_obj]
    exact congrArg (fun ns => Except.ok (Json.obj ns)) (Members.ofList_eq_self honce)

/-- What lasts also lasts in order. -/
theorem Lasting.inOrder (h : Lasting v) : Lasting v.inOrder := by
  induction h with
  | null => exact .null
  | bool b => exact .bool b
  | int short => exact .int short
  | float x => exact .float x
  | str same => exact .str same
  | arr _ ih =>
    rw [inOrder_arr]
    exact .arr (List.forall_mem_map.2 ih)
  | obj once keys _ ih =>
    rw [inOrder_obj]
    refine .obj ?_ ?_ ?_
    · rw [List.map_map]
      exact map_fst_arrange_nodup once
    · exact List.forall_mem_map.2 fun m hm => keys m (mem_arrange.1 hm)
    · exact List.forall_mem_map.2 fun m hm => ih m (mem_arrange.1 hm)

/-- Putting a document in order a second time does nothing. -/
theorem Lasting.inOrder_inOrder (h : Lasting v) : v.inOrder.inOrder = v.inOrder := by
  induction h with
  | arr _ ih =>
    rw [inOrder_arr, inOrder_arr, List.map_map]
    exact congrArg Json.arr (List.map_congr_left ih)
  | obj _ _ _ ih =>
    rw [inOrder_obj, inOrder_obj, arrange_map, arrange_arrange, List.map_map]
    refine congrArg Json.obj (List.map_congr_left fun m hm => ?_)
    exact congrArg (Prod.mk m.1) (ih m (mem_arrange.1 hm))
  | _ => rfl

/-- A document in order is written in the same way. -/
theorem Lasting.write_inOrder (h : Lasting v) : v.inOrder.write .file = v.write .file := by
  obtain ⟨w, hread, hwrite⟩ := h.exists_reread .file
  cases h.reread?_eq.symm.trans hread
  exact hwrite 0

/-- **A document and the same one in order are alike.** -/
theorem Lasting.alike_inOrder (h : Lasting v) : Alike v v.inOrder := by
  induction h with
  | @arr vs _ ih =>
    rw [inOrder_arr, alike_iff]
    refine ⟨rfl, fun s => ?_⟩
    cases s with
    | key k => exact .none
    | item n =>
      show Option.Rel Alike vs[n]? (vs.map Json.inOrder)[n]?
      rw [List.getElem?_map]
      cases hn : vs[n]? with
      | none => exact .none
      | some w => exact .some (ih w (List.mem_of_getElem? hn))
  | @obj ms once _ _ ih =>
    rw [inOrder_obj, alike_iff]
    refine ⟨rfl, fun s => ?_⟩
    cases s with
    | item n => exact .none
    | key k =>
      show Option.Rel Alike (Members.get? ms k)
        (Members.get? ((Style.file.arrange ms).map fun m => (m.1, m.2.inOrder)) k)
      rw [Members.get?_map, Members.get?_perm once (arrange_perm .file ms).symm]
      cases hk : Members.get? (Style.file.arrange ms) k with
      | none => exact .none
      | some w => exact .some (ih (k, w) (mem_arrange.1 (Members.mem_of_get? hk)))
  | _ => exact .refl _

end Json
end CardTransfer
