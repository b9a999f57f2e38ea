import CardTransfer.Proofs.Json.IdMap
import CardTransfer.Proofs.Store.CardMap
import CardTransfer.Proofs.Store.Place
import CardTransfer.Proofs.Store.Rows

/-!
# What the stored cards stand for

The stored object stands for a map of cards if it has an entry for each id that has a value, and no
others (`HoldsCards`). Then the map that is read tells the same (`HoldsCards.cardMap`). Setting an
entry and taking one away writes an object that stands for the map after the same change
(`HoldsCards.setCard`, `HoldsCards.deleteCard`).
-/

namespace CardTransfer
namespace Store

open Directory (parents)

variable {d d' : Directory} {ms : Members} {f : Int → Option ShortInt}

/-- A short integer is read as it was written. -/
theorem toInt_ofInt (n : ShortInt) : (Json.str (Text.ofInt n.1)).toInt = .ok n.1 := by
  unfold Json.toInt
  simp only [Text.excess?_ofInt]
  rw [if_neg (Nat.not_lt.2 n.2), Text.toInt?_ofInt n.2]

/-- Integers with the same text are the same, if one of them is short. -/
theorem ofInt_inj {n : ShortInt} {k : Int} (h : Text.ofInt k = Text.ofInt n.1) : k = n.1 :=
  (eq_of_toInt_ofInt (h ▸ toInt_ofInt n)).symm

/-- The members that stand for a map of cards. -/
structure Entries (ms : Members) (f : Int → Option ShortInt) : Prop where
  once : (ms.map (·.1)).Nodup
  short : ∀ n t, f n = some t → Text.digitCount n ≤ Text.digitLimit
  mem : ∀ key v, (key, v) ∈ ms ↔ ∃ n t, f n = some t ∧ key = Text.ofInt n ∧ v = t.json

theorem entries_nil : Entries [] fun _ => none where
  once := List.nodup_nil
  short _ _ h := nomatch h
  mem _ _ := by simp

namespace Entries

/-- The members last. -/
theorem lasting (h : Entries ms f) : (Json.obj ms).Lasting := by
  refine .obj h.once ?_ ?_
  · rintro ⟨key, v⟩ hm
    obtain ⟨n, t, -, rfl, -⟩ := (h.mem key v).1 hm
    exact rereadText_ofInt n
  · rintro ⟨key, v⟩ hm
    obtain ⟨n, t, -, -, rfl⟩ := (h.mem key v).1 hm
    exact t.lasting

/-- The order of the members does not matter, and the values are in order. -/
theorem inOrder (h : Entries ms f) : ∃ ns, (Json.obj ms).inOrder = .obj ns ∧ Entries ns f := by
  have hsame : (Json.Style.file.arrange ms).map (fun m => (m.1, m.2.inOrder)) =
      Json.Style.file.arrange ms := by
    refine (List.map_congr_left fun m hm => ?_).trans (List.map_id _)
    obtain ⟨n, t, -, -, hv⟩ := (h.mem m.1 m.2).1 (Json.mem_arrange.1 hm)
    refine Prod.ext rfl ?_
    show m.2.inOrder = m.2
    rw [hv]
    rfl
  refine ⟨Json.Style.file.arrange ms, ?_, ?_, h.short, fun key v => ?_⟩
  · rw [Json.inOrder_obj, hsame]
  · exact Json.map_fst_arrange_nodup h.once
  · rw [Json.mem_arrange, h.mem]

/-- The entry of a card. -/
theorem get? (h : Entries ms f) (n : ShortInt) :
    Members.get? ms (Text.ofInt n.1) = (f n.1).map ShortInt.json := by
  refine Option.ext fun v => ?_
  rw [Members.get?_eq_some_iff h.once, h.mem, Option.map_eq_some_iff]
  constructor
  · rintro ⟨k, t, ht, hkey, rfl⟩
    rw [ofInt_inj hkey.symm] at ht
    exact ⟨t, ht, rfl⟩
  · rintro ⟨t, ht, rfl⟩
    exact ⟨n.1, t, ht, rfl, rfl⟩

theorem insert (h : Entries ms f) (n t : ShortInt) :
    Entries (Members.insert ms (Text.ofInt n.1) t.json) (Function.update f n.1 (some t)) where
  once := Members.nodup_insert h.once
  short k u hk := by
    by_cases hkn : k = n.1
    · exact hkn ▸ n.2
    · rw [Function.update_of_ne hkn] at hk
      exact h.short k u hk
  mem key v := by
    rw [← Members.get?_eq_some_iff (Members.nodup_insert h.once)]
    by_cases hkey : key = Text.ofInt n.1
    · rw [hkey, Members.get?_insert_self]
      constructor
      · rintro ⟨⟩
        exact ⟨n.1, t, Function.update_self .., rfl, rfl⟩
      · rintro ⟨k, u, hu, hk, rfl⟩
        rw [ofInt_inj hk.symm, Function.update_self] at hu
        cases hu
        rfl
    · rw [Members.get?_insert_of_ne _ _ hkey, Members.get?_eq_some_iff h.once, h.mem]
      refine exists_congr fun k => exists_congr fun u => and_congr_left fun hk => ?_
      have hkn : k ≠ n.1 := fun hkn => hkey (hkn ▸ hk.1)
      rw [Function.update_of_ne hkn]

theorem erase (h : Entries ms f) (n : ShortInt) :
    Entries (Members.erase ms (Text.ofInt n.1)) (Function.update f n.1 none) where
  once := (List.filter_sublist.map _).nodup h.once
  short k u hk := by
    by_cases hkn : k = n.1
    · exact hkn ▸ n.2
    · rw [Function.update_of_ne hkn] at hk
      exact h.short k u hk
  mem key v := by
    unfold Members.erase
    rw [List.mem_filter, h.mem, bne_iff_ne]
    constructor
    · rintro ⟨⟨k, u, hu, rfl, rfl⟩, hne⟩
      have hkn : k ≠ n.1 := fun hkn => hne (congrArg Text.ofInt hkn)
      exact ⟨k, u, by rw [Function.update_of_ne hkn, hu], rfl, rfl⟩
    · rintro ⟨k, u, hu, rfl, rfl⟩
      have hkn : k ≠ n.1 := by
        rintro rfl
        rw [Function.update_self] at hu
        cases hu
      rw [Function.update_of_ne hkn] at hu
      exact ⟨⟨k, u, hu, rfl, rfl⟩, fun hk => hkn (ofInt_inj hk)⟩

/-- An entry reads as the integers that it stands for. -/
theorem cardEntry (h : Entries ms f) {n : Int} {t : ShortInt} (ht : f n = some t) :
    cardEntry (Text.ofInt n, t.json) = .ok (.int n, t.json) := by
  rw [Store.cardEntry, toInt_ofInt ⟨n, h.short n t ht⟩]
  rfl

theorem holds_iff (h : Entries ms f) {n t : Int} : Holds ms n t ↔ ∃ u, f n = some u ∧ u.1 = t := by
  constructor
  · rintro ⟨⟨key, v⟩, hp, he⟩
    obtain ⟨k, u, hu, rfl, rfl⟩ := (h.mem key v).1 hp
    rw [h.cardEntry hu] at he
    cases he
    exact ⟨u, hu, rfl⟩
  · rintro ⟨u, hu, rfl⟩
    exact ⟨_, (h.mem _ _).2 ⟨n, u, hu, rfl, rfl⟩, h.cardEntry hu⟩

end Entries

/-- The stored object stands for a map of cards. -/
def HoldsCards (d : Directory) (f : Int → Option ShortInt) : Prop :=
  ∃ ms, cardObject d = .ok (.obj ms) ∧ Entries ms f

namespace HoldsCards

/-- **The map that is read tells the same.** -/
theorem cardMap (h : HoldsCards d f) :
    ∃ m, cardMap d = .ok m ∧ IdMap.Tells m fun n => (f n).map ShortInt.json := by
  obtain ⟨ms, ho, hms⟩ := h
  have hentries : ∀ p ∈ ms, ∃ q, Store.cardEntry p = .ok q := by
    rintro ⟨key, v⟩ hp
    obtain ⟨k, u, hu, rfl, rfl⟩ := (hms.mem key v).1 hp
    exact ⟨_, hms.cardEntry hu⟩
  obtain ⟨ps, hps⟩ := mapM_isOk hentries
  have hmap : Store.cardMap d = .ok (IdMap.ofList ps) := by
    rw [Store.cardMap, ho, ok_bind, Json.membersFor, ok_bind, hps]
    rfl
  refine ⟨_, hmap, fun a ha => ?_, IdMap.nodup_ofList, fun n => ?_⟩
  · obtain ⟨q, hq, rfl⟩ := List.mem_map.1 (IdMap.mem_of_mem_ofList ha)
    obtain ⟨p, -, hp⟩ := mem_of_mapM hps hq
    obtain ⟨k, t, -, -, rfl⟩ := cardEntry_eq_ok hp
    exact ⟨k, rfl⟩
  · refine Option.ext fun v => ?_
    constructor
    · intro hv
      obtain ⟨k, t, hk, hkey, rfl⟩ := holds_of_get? hmap ho hv
      cases hkey
      obtain ⟨u, hu, rfl⟩ := hms.holds_iff.1 hk
      rw [hu]
      rfl
    · intro hv
      obtain ⟨u, hu, rfl⟩ := Option.map_eq_some_iff.1 hv
      have hhas : (IdMap.ofList ps).has (.int n) = true :=
        (has_cardMap hmap ho).2 ⟨n, u.1, hms.holds_iff.2 ⟨u, hu, rfl⟩, rfl⟩
      obtain ⟨w, hw⟩ := IdMap.has_eq_true.1 hhas
      obtain ⟨k, t, hk, hkey, rfl⟩ := holds_of_get? hmap ho hw
      cases hkey
      obtain ⟨u', hu', rfl⟩ := hms.holds_iff.1 hk
      rw [hu] at hu'
      cases hu'
      exact hw

/-- A written object stands for the map that its entries stand for. -/
theorem of_writeJson (h : Entries ms f) (hwrite : d.writeJson cardPath (.obj ms) = .ok d') :
    HoldsCards d' f := by
  obtain ⟨ns, hns, hentries⟩ := h.inOrder
  refine ⟨ns, ?_, hentries⟩
  rw [cardObject, Directory.readJson_writeJson h.lasting hwrite cardPath_not_mem_parents, hns]

/-- **Setting an entry** writes an object that stands for the map with the entry. -/
theorem setCard (h : HoldsCards d f) (n t : ShortInt) :
    ∃ v, setCard d n.json t.json = d.writeJson cardPath v ∧
      ∀ d', d.writeJson cardPath v = .ok d' → HoldsCards d' (Function.update f n.1 (some t)) := by
  obtain ⟨ms, ho, hms⟩ := h
  refine ⟨.obj (Members.insert ms (Text.ofInt n.1) t.json), ?_, fun d' => of_writeJson (hms.insert n t)⟩
  rw [Store.setCard, ho]
  rfl

/-- **Taking an entry away** writes an object that stands for the map without it, if it was there. -/
theorem deleteCard (h : HoldsCards d f) (n : ShortInt) :
    (f n.1 = none ∧ deleteCard d n.json = .ok (false, d)) ∨
      ((f n.1).isSome ∧ ∃ v, deleteCard d n.json = (d.writeJson cardPath v).map (true, ·) ∧
        ∀ d', d.writeJson cardPath v = .ok d' → HoldsCards d' (Function.update f n.1 none)) := by
  obtain ⟨ms, ho, hms⟩ := h
  have hget := hms.get? n
  have hshown : n.json.shown = Text.ofInt n.1 := rfl
  cases hn : f n.1 with
  | none =>
    rw [hn] at hget
    refine .inl ⟨rfl, ?_⟩
    rw [Store.deleteCard, ho, ok_bind]
    simp only [hshown, hget]
    rfl
  | some t =>
    rw [hn] at hget
    refine .inr ⟨rfl, .obj (Members.erase ms (Text.ofInt n.1)), ?_, fun d' => of_writeJson (hms.erase n)⟩
    rw [Store.deleteCard, ho, ok_bind]
    simp only [hshown, hget]
    rfl

/-- The cards depend on what is at their place. -/
theorem congr (h : HoldsCards d f) (hsame : Directory.SameAt cardPath d d') : HoldsCards d' f := by
  obtain ⟨ms, ho, hms⟩ := h
  refine ⟨ms, ?_, hms⟩
  rw [← ho, cardObject, cardObject, hsame.readJson]

end HoldsCards
end Store
end CardTransfer
