import CardTransfer.Card.Reference
import CardTransfer.Mbql.Transfer
import CardTransfer.Proofs.Except
import CardTransfer.Proofs.Json.Entry
import CardTransfer.Sql.NativeQuery
import Mathlib.Tactic.Common

/-!
# The ids of cards that a document refers to

A reference is the number in a text or an integer in an object, so all ids that are found are integers
(`isInt_of_mem_cardIds`).
-/

namespace CardTransfer

/-- An id that is there after others have been added was there or is one of them. -/
theorem Ids.mem_of_mem_foldl_add {ids start : Ids} {a : Json} (h : a ∈ ids.foldl Ids.add start) :
    a ∈ start ∨ a ∈ ids := by
  induction ids generalizing start with
  | nil => exact .inl h
  | cons b ids ih =>
    rcases ih h with h | h
    · unfold Ids.add at h
      split at h
      · exact .inl h
      · rcases List.mem_append.1 h with h | h
        · exact .inl h
        · exact .inr (List.mem_singleton.1 h ▸ List.mem_cons_self ..)
    · exact .inr (List.mem_cons_of_mem _ h)

/-- Ids of which repetitions have been dropped were there before. -/
theorem Ids.mem_of_mem_distinct {ids : Ids} {a : Json} (h : a ∈ ids.distinct) : a ∈ ids :=
  (mem_of_mem_foldl_add h).resolve_left List.not_mem_nil

theorem Ids.length_distinct_le (ids : Ids) : ids.distinct.length ≤ ids.length := by
  have hadd (start : Ids) (b : Json) : (start.add b).length ≤ start.length + 1 := by
    unfold Ids.add
    split
    · exact Nat.le_succ _
    · exact Nat.le_of_eq List.length_append
  have hfold (ids start : Ids) : (ids.foldl Ids.add start).length ≤ start.length + ids.length := by
    induction ids generalizing start with
    | nil => exact Nat.le_refl _
    | cons b ids ih =>
      have hrest := ih (start.add b)
      have hfirst := hadd start b
      rw [List.foldl_cons, List.length_cons]
      omega
  have hall := hfold ids []
  rwa [List.length_nil, Nat.zero_add] at hall

/-- Dropping repetitions loses no id. -/
theorem Ids.has_distinct (ids : Ids) (a : Json) : ids.distinct.has a = ids.has a := by
  have hfold : ∀ (ids start : Ids), Ids.has (ids.foldl Ids.add start) a = (start.has a || ids.has a) := by
    intro ids
    induction ids with
    | nil => exact fun start => (Bool.or_false _).symm
    | cons b ids ih =>
      intro start
      rw [List.foldl_cons, ih, Ids.has_add, Bool.or_assoc]
      rfl
  exact hfold ids []

namespace Json

/-- The id of a described card is an integer. -/
theorem isInt_of_describedCard? {ms : Members} {a : Json} (h : describedCard? ms = some a) :
    a.isInt = true := by
  unfold describedCard? at h
  split at h
  · split at h
    · rename_i hint
      cases h
      exact hint
    · cases h
  · cases h

mutual

/-- **Cards are referred to by integers.** -/
theorem isInt_of_mem_cardIds {a : Json} : ∀ v : Json, a ∈ v.cardIds → a.isInt = true
  | .str s, h => by
    unfold cardIds at h
    rw [Option.mem_toList] at h
    obtain ⟨n, -, rfl⟩ := Option.map_eq_some_iff.1 h
    rfl
  | .arr items, h => by
    unfold cardIds at h
    exact isInt_of_mem_itemCardIds items h
  | .obj ms, h => by
    unfold cardIds at h
    rcases List.mem_append.1 h with h | h
    · exact isInt_of_describedCard? (Option.mem_toList.1 h)
    · exact isInt_of_mem_memberCardIds ms h
  | .null, h => nomatch h
  | .bool _, h => nomatch h
  | .int _, h => nomatch h
  | .float _, h => nomatch h
  | .moment _ _, h => nomatch h

theorem isInt_of_mem_itemCardIds {a : Json} :
    ∀ vs : List Json, a ∈ itemCardIds vs → a.isInt = true
  | [], h => nomatch h
  | v :: vs, h => by
    unfold itemCardIds at h
    rcases List.mem_append.1 h with h | h
    · exact isInt_of_mem_itemCardIds vs h
    · exact isInt_of_mem_cardIds v h

theorem isInt_of_mem_memberCardIds {a : Json} :
    ∀ ms : List (String × Json), a ∈ memberCardIds ms → a.isInt = true
  | [], h => nomatch h
  | (_, v) :: ms, h => by
    unfold memberCardIds at h
    rcases List.mem_append.1 h with h | h
    · exact isInt_of_mem_memberCardIds ms h
    · exact isInt_of_mem_cardIds v h

end

/-- The references of a document are the ids in it. -/
theorem has_references (v a : Json) : v.references.has a = v.cardIds.has a := by
  unfold references
  rw [← Ids.has_distinct v.cardIds, Bool.eq_iff_iff, Ids.has_iff, Ids.has_iff]
  simp only [Ids.mem_sorted]

/-- A document refers to the cards that a member of it refers to. -/
theorem mem_memberCardIds {ms : Members} {m : String × Json} {a : Json} (hm : m ∈ ms)
    (h : a ∈ m.2.cardIds) : a ∈ memberCardIds ms := by
  induction ms with
  | nil => cases hm
  | cons m' ms ih =>
    unfold memberCardIds
    rw [List.mem_append]
    rcases List.mem_cons.1 hm with rfl | hm
    · exact .inr h
    · exact .inl (ih hm)

/-- The card that a member describes is one that the object refers to. -/
theorem mem_cardIds_of_describedCard? {ms : Members} {a : Json} (h : describedCard? ms = some a) :
    a ∈ (obj ms).cardIds := by
  unfold cardIds
  exact List.mem_append_left _ (Option.mem_toList.2 h)

theorem mem_cardIds_of_mem {ms : Members} {m : String × Json} {a : Json} (hm : m ∈ ms)
    (h : a ∈ m.2.cardIds) : a ∈ (obj ms).cardIds := by
  unfold cardIds
  exact List.mem_append_right _ (mem_memberCardIds hm h)

theorem mem_cardIds_of_get? {ms : Members} {key : String} {v a : Json} (hv : ms.get? key = some v)
    (h : a ∈ v.cardIds) : a ∈ (obj ms).cardIds :=
  mem_cardIds_of_mem (Members.mem_of_get? hv) h

/-- A value whose members are asked for is an object. -/
theorem eq_obj_of_membersFor {v : Json} {part : String} {ms : Members}
    (h : v.membersFor part = .ok ms) : v = .obj ms := by
  cases v with
  | obj ns =>
    cases h
    rfl
  | _ => cases h

/-- A document refers to the cards that are referred to where it is found to have something. -/
theorem mem_cardIds_of_ofOption {ms : Members} {key : String} {a : Json}
    (h : a ∈ (ofOption (ms.get? key)).cardIds) : a ∈ (obj ms).cardIds := by
  cases hv : ms.get? key with
  | none =>
    rw [hv] at h
    cases h
  | some v =>
    rw [hv] at h
    exact mem_cardIds_of_get? hv h

theorem mem_cardIds_of_find {v w : Json} {key : String} {a : Json} (hw : v.find key = .ok w)
    (h : a ∈ w.cardIds) : a ∈ v.cardIds := by
  unfold find at hw
  obtain ⟨ms, hms, hw⟩ := bind_eq_ok.1 hw
  cases hw
  rw [eq_obj_of_membersFor hms]
  exact mem_cardIds_of_ofOption h

theorem mem_cardIds_of_orElse {v a : Json} (h : a ∈ (v.orElse (.obj [])).cardIds) : a ∈ v.cardIds := by
  unfold orElse at h
  split at h
  · exact h
  · cases h

/-- The references of a document are among the ids in it. -/
theorem mem_cardIds_of_mem_references {v a : Json} (h : a ∈ v.references) : a ∈ v.cardIds := by
  unfold references at h
  exact Ids.mem_of_mem_distinct (Ids.mem_sorted.1 h)

end Json

/-- The references that are found are those of the query. -/
theorem Card.eq_of_findReferences {card : Card} {ids : Ids} (h : card.findReferences = .ok ids) :
    card.references = ids := by
  unfold findReferences Json.findReferences at h
  obtain ⟨-, -, h⟩ := bind_eq_ok.1 h
  cases h
  rfl

/-- The references of a card are integers. -/
theorem Card.isInt_of_mem_references {card : Card} {a : Json} (ha : a ∈ card.references) : a.isInt = true :=
  Json.isInt_of_mem_cardIds _ (Json.mem_cardIds_of_mem_references ha)

theorem Card.isInt_of_mem_findReferences {card : Card} {ids : Ids} {a : Json}
    (h : card.findReferences = .ok ids) (ha : a ∈ ids) : a.isInt = true := by
  rw [← Card.eq_of_findReferences h] at ha
  exact Card.isInt_of_mem_references ha

end CardTransfer

/-!
## Which cards are found

Two scans look for cards: one collects the references of a query from all of its texts and objects, the
other replaces them where it reads them. What a structured query reads as a card is a text under
`source-table`, so it is a reference (`has_references_of_unresolved`). A native query has cards in the
tags of its text and in the descriptions of its tags. A description is a reference, while the text is
not searched for any: a card that only stands in a tag of the text is replaced, or is without
counterpart, but is no reference (`unresolvedCards_native`).
-/

namespace CardTransfer

variable {a : Json}

/-! ### Structured queries -/

/-- Clauses use no cards. -/
theorem Clause.card_not_mem_idUses (c : Clause) : IdUse.card a ∉ c.idUses := by
  cases c with
  | literal v =>
    unfold idUses
    exact List.not_mem_nil
  | field op id rest =>
    unfold idUses
    split <;> simp
  | operation name args =>
    unfold idUses
    exact card_not_mem_itemUses args
  | list items =>
    unfold idUses
    exact card_not_mem_itemUses items
where
  card_not_mem_itemUses (cs : List Clause) : IdUse.card a ∉ itemUses cs := by
    cases cs with
    | nil => exact List.not_mem_nil
    | cons c cs =>
      unfold itemUses
      rw [List.mem_append, not_or]
      exact ⟨card_not_mem_idUses c, card_not_mem_itemUses cs⟩

theorem Clause.card_not_mem_namedUses (clauses : List (String × Clause)) :
    IdUse.card a ∉ namedUses clauses := by
  unfold namedUses
  rw [List.mem_flatMap]
  rintro ⟨c, -, h⟩
  exact card_not_mem_idUses c.2 h

namespace InnerQuery

open Json (cardIds memberCardIds itemCardIds)

/-- An inner query uses the cards of its source and of its joins. -/
theorem card_mem_idUses_assemble {ms : Members} {source : Source} {joins : List InnerQuery} :
    IdUse.card a ∈ (assemble ms source joins).idUses ↔
      IdUse.card a ∈ sourceUses source ∨ IdUse.card a ∈ joinUses joins := by
  unfold assemble idUses
  simp only [List.mem_append, Clause.card_not_mem_namedUses, or_false]

/-- So its cards are references if those are. -/
theorem mem_cardIds_of_assemble {ms : Members} {source : Source} {joins : List InnerQuery}
    (hsource : IdUse.card a ∈ sourceUses source → a ∈ memberCardIds ms)
    (hjoins : IdUse.card a ∈ joinUses joins → a ∈ memberCardIds ms)
    (h : IdUse.card a ∈ (assemble ms source joins).idUses) : a ∈ (Json.obj ms).cardIds := by
  unfold cardIds
  exact List.mem_append_right _ ((card_mem_idUses_assemble.1 h).elim hsource hjoins)

/-- A card under `source-table` is a reference. -/
theorem mem_cardIds_ofTable {v : Json} (h : IdUse.card a ∈ sourceUses (Source.ofTable v)) :
    a ∈ v.cardIds := by
  unfold Source.ofTable at h
  split at h
  · split at h
    · rename_i n hn
      cases List.mem_singleton.1 h
      unfold cardIds
      rw [hn]
      exact List.mem_singleton_self _
    · cases h
  · unfold sourceUses at h
    split at h <;> simp at h

mutual

/-- **The cards that an inner query uses are references**, by the recursion in which it is read. -/
theorem mem_cardIds_of_join : ∀ v : Json, IdUse.card a ∈ (join v).idUses → a ∈ v.cardIds
  | .obj ms, h => by
    unfold join at h
    exact mem_cardIds_of_assemble (mem_cardIds_of_sourceOf ms) (mem_cardIds_of_joinsOf ms) h
  | .arr vs, h => nomatch h
  | .str s, h => nomatch h
  | .null, h => nomatch h
  | .bool _, h => nomatch h
  | .int _, h => nomatch h
  | .float _, h => nomatch h
  | .moment _ _, h => nomatch h

theorem mem_cardIds_of_sourceOf : ∀ ms : List (String × Json),
    IdUse.card a ∈ sourceUses (sourceOf ms) → a ∈ memberCardIds ms
  | [], h => nomatch h
  | (key, v) :: ms, h => by
    unfold sourceOf at h
    unfold memberCardIds
    rw [List.mem_append]
    split at h
    · split at h
      · exact .inr (mem_cardIds_ofTable h)
      · split at h
        · exact .inr (mem_cardIds_of_subquery v h)
        · cases h
    · exact .inl (mem_cardIds_of_sourceOf ms h)

theorem mem_cardIds_of_subquery : ∀ v : Json,
    IdUse.card a ∈ sourceUses (subquery v) → a ∈ v.cardIds
  | .obj ms, h => by
    unfold subquery sourceUses at h
    exact mem_cardIds_of_assemble (mem_cardIds_of_sourceOf ms) (mem_cardIds_of_joinsOf ms) h
  | .arr vs, h => nomatch h
  | .str s, h => nomatch h
  | .null, h => nomatch h
  | .bool _, h => nomatch h
  | .int _, h => nomatch h
  | .float _, h => nomatch h
  | .moment _ _, h => nomatch h

theorem mem_cardIds_of_joinsOf : ∀ ms : List (String × Json),
    IdUse.card a ∈ joinUses (joinsOf ms) → a ∈ memberCardIds ms
  | [], h => nomatch h
  | (key, v) :: ms, h => by
    unfold joinsOf at h
    unfold memberCardIds
    rw [List.mem_append]
    split at h
    · exact .inr (mem_cardIds_of_joinList v h)
    · exact .inl (mem_cardIds_of_joinsOf ms h)

theorem mem_cardIds_of_joinList : ∀ v : Json,
    IdUse.card a ∈ joinUses (joinList v) → a ∈ v.cardIds
  | .arr vs, h => by
    unfold joinList at h
    unfold cardIds
    exact mem_cardIds_of_joinItems vs h
  | .obj ms, h => nomatch h
  | .str s, h => nomatch h
  | .null, h => nomatch h
  | .bool _, h => nomatch h
  | .int _, h => nomatch h
  | .float _, h => nomatch h
  | .moment _ _, h => nomatch h

theorem mem_cardIds_of_joinItems : ∀ vs : List Json,
    IdUse.card a ∈ joinUses (joinItems vs) → a ∈ itemCardIds vs
  | [], h => nomatch h
  | v :: vs, h => by
    unfold joinItems joinUses at h
    unfold itemCardIds
    rw [List.mem_append]
    rcases List.mem_append.1 h with h | h
    · exact .inr (mem_cardIds_of_join v h)
    · exact .inl (mem_cardIds_of_joinItems vs h)

end

end InnerQuery

namespace StructuredTransfer

variable {c : Correspondence} {cards : IdMap Json} {source target : Int} {q : Members}

/-- A card of a structured query without counterpart has none in the map, and is used. -/
theorem mem_unresolvedCards (h : a ∈ (ofQuery c cards source target q).unresolvedCards) :
    ((cards.get? a).bind Json.toOption) = none ∧
      IdUse.card a ∈ (StructuredQuery.ofMembers q).query.idUses := by
  obtain ⟨u, hu, ha⟩ := List.mem_filterMap.1 h
  obtain ⟨huse, hgap⟩ := List.mem_filter.1 hu
  cases u with
  | card id =>
    cases ha
    exact ⟨Option.isNone_iff_eq_none.1 hgap, huse⟩
  | table id => cases ha
  | field id => cases ha
  | sourceField id => cases ha

/-- **The cards of a structured query without counterpart are references.** -/
theorem has_references_of_unresolved (h : a ∈ (ofQuery c cards source target q).unresolvedCards) :
    (Json.obj q).references.has a = true := by
  have huse := (mem_unresolvedCards h).2
  rw [Json.has_references, Ids.has_iff]
  refine ⟨a, ?_, rfl⟩
  unfold StructuredQuery.ofMembers InnerQuery.ofJson at huse
  cases hquery : Members.get? q "query" with
  | none =>
    rw [hquery] at huse
    cases huse
  | some v =>
    rw [hquery] at huse
    refine Json.mem_cardIds_of_get? hquery ?_
    cases v with
    | obj ms => exact InnerQuery.mem_cardIds_of_join (.obj ms) huse
    | _ => cases huse

end StructuredTransfer

/-! ### Native queries -/

/-- The cards of the tags in the text of a native query. -/
def taggedCards (q : Members) : Ids :=
  match nativeText q with
  | .ok (.str sql) => (Text.matchesOf Sql.tagRule sql.toList).map Sql.CardTag.card
  | _ => []

namespace Sql

variable {cards : IdMap Json} {table : Members}

/-- The cards of descriptions that have not been replaced are references. -/
theorem mem_cardIds_of_unknownEntries (h : a ∈ unknownEntries cards table) :
    a ∈ (Json.obj table).cardIds ∧ cards.has a = false := by
  obtain ⟨ha, hcards⟩ := List.mem_filter.1 h
  obtain ⟨p, hp, hcard⟩ := List.mem_filterMap.1 ha
  refine ⟨?_, by rwa [Bool.not_eq_true'] at hcards⟩
  unfold taggedCard? at hcard
  obtain ⟨ms, hms, hdescribed⟩ := Option.bind_eq_some_iff.1 hcard
  refine Json.mem_cardIds_of_mem hp ?_
  cases hv : p.2 with
  | obj ns =>
    rw [hv] at hms
    cases hms
    exact Json.mem_cardIds_of_describedCard? hdescribed
  | _ =>
    rw [hv] at hms
    cases hms

theorem mem_of_unknownTags {cs : List Char} (h : a ∈ unknownTags cards cs) :
    a ∈ (Text.matchesOf tagRule cs).map CardTag.card ∧ cards.has a = false := by
  obtain ⟨ha, hcards⟩ := List.mem_filter.1 (Ids.mem_of_mem_distinct h)
  exact ⟨ha, by rwa [Bool.not_eq_true'] at hcards⟩

end Sql

/-- What is left unresolved when the cards of a text and of a table of descriptions are replaced. -/
theorem Sql.mem_unknown_of_renameCards {cards : IdMap Json} {sql table : Json} {text : String}
    {tags : Members} {unknown : Ids} (h : renameCards cards sql table = .ok (text, tags, unknown))
    (ha : a ∈ unknown) : cards.has a = false ∧ (a ∈ table.cardIds ∨
      ∃ s, sql = .str s ∧ a ∈ (Text.matchesOf tagRule s.toList).map CardTag.card) := by
  unfold renameCards at h
  split at h
  · rename_i s
    obtain ⟨-, -, h⟩ := bind_eq_ok.1 h
    obtain ⟨ms, hms, h⟩ := bind_eq_ok.1 h
    obtain ⟨entries, -, h⟩ := bind_eq_ok.1 h
    cases h
    rcases Ids.mem_of_mem_foldl_add ha with ha | ha
    · obtain ⟨htag, hcards⟩ := mem_of_unknownTags ha
      exact ⟨hcards, .inr ⟨s, rfl, htag⟩⟩
    · obtain ⟨hentry, hcards⟩ := mem_cardIds_of_unknownEntries ha
      refine ⟨hcards, .inl (Json.mem_cardIds_of_orElse ?_)⟩
      rwa [Json.eq_obj_of_membersFor hms]
  · cases h

/-- **A card of a native query without counterpart has none in the map, and it is a reference or stands
in a tag of the text.** -/
theorem unresolvedCards_native {c : Correspondence} {cards : IdMap Json} {q : Members} {d : NativeDraft}
    (hd : NativeDraft.ofQuery c cards q = .ok d) (h : a ∈ d.unresolvedCards) :
    cards.has a = false ∧ ((Json.obj q).references.has a = true ∨ a ∈ taggedCards q) := by
  unfold NativeDraft.ofQuery at hd
  obtain ⟨table, htable, hd⟩ := bind_eq_ok.1 hd
  obtain ⟨text, htext, hd⟩ := bind_eq_ok.1 hd
  obtain ⟨⟨sql, tags, unresolved⟩, hrename, hd⟩ := bind_eq_ok.1 hd
  obtain ⟨names, -, hd⟩ := bind_eq_ok.1 hd
  obtain ⟨replaced, -, hd⟩ := bind_eq_ok.1 hd
  cases hd
  obtain ⟨hcards, hwhere⟩ := Sql.mem_unknown_of_renameCards hrename h
  refine ⟨hcards, ?_⟩
  rcases hwhere with ha | ⟨s, rfl, ha⟩
  · refine .inl ?_
    rw [Json.has_references, Ids.has_iff]
    refine ⟨a, ?_, rfl⟩
    have hnative : a ∈ (nativePart q).cardIds := Json.mem_cardIds_of_find htable ha
    exact Json.mem_cardIds_of_ofOption (Json.mem_cardIds_of_orElse hnative)
  · refine .inr ?_
    unfold taggedCards
    rwa [htext]

end CardTransfer
