import CardTransfer.Proofs.Card.Reference
import CardTransfer.Proofs.Transfer.ProvidersFirst
import CardTransfer.Proofs.Transfer.Reports

/-!
# Cards that are left unresolved

A query that refers to a card without counterpart is not transferred. In a live request that cannot
happen to a structured card, for whatever its query reads as a card is a reference, and all references
are in the card map before the query is transferred. It does happen to a native card that has a tag in
its text and no description of the tag: the card of such a tag is no reference, so it is not transferred
beforehand (`unresolved_undeclared`).
-/

namespace CardTransfer

/-- The start of the message for cards without counterpart. -/
def unresolvedText : String := "Referenced cards have no migrated counterpart: "

/-- A failure for cards without counterpart. -/
structure Failure.IsUnresolved (f : Failure) : Prop where
  kind : f.kind = .dependency
  message : unresolvedText.toList <+: f.message.toList

instance {f : Failure} : Decidable f.IsUnresolved :=
  decidable_of_iff (f.kind = .dependency ∧ unresolvedText.toList <+: f.message.toList)
    ⟨fun h => ⟨h.1, h.2⟩, fun h => ⟨h.kind, h.message⟩⟩

/-- A failure of a native card for cards that it does not refer to: they only stand in tags of its
text. -/
def Failure.Undeclared (f : Failure) : Prop := ∃ (card : Card) (ids : Ids),
  f.source = some card.query ∧ card.isNative = true ∧
    f.message = unresolvedText ++ Json.shownList ids ∧ ids ≠ [] ∧
      ∀ id ∈ ids, id ∈ taggedCards card.query ∧ card.references.has id = false

namespace Session

variable {s t : Session} {terms : Terms} {id : Json} {card : Card} {path : Ids} {cards : IdMap Json}
  {f : Failure}

/-- A failure for cards without counterpart lists them all. -/
theorem unresolved_of_unlessUnresolved {query : Members} {warnings : List String} {ids : Ids}
    (h : NewQuery.unlessUnresolved false card query warnings ids = .ok (.error f)) :
    ∃ sorted : Ids, f.source = some card.query ∧
      f.message = unresolvedText ++ Json.shownList sorted ∧ sorted ≠ [] ∧ sorted ⊆ ids := by
  unfold NewQuery.unlessUnresolved at h
  split at h
  · cases h
  rename_i hids
  obtain ⟨f', hf, h⟩ := bind_eq_ok.1 h
  cases h
  obtain ⟨sorted, hsorted, hf⟩ := bind_eq_ok.1 hf
  cases hf
  have hmem (a : Json) : a ∈ sorted ↔ a ∈ Ids.distinct ids := by
    unfold Ids.sort at hsorted
    split at hsorted
    · cases hsorted
      exact Ids.mem_sorted
    · cases hsorted
  refine ⟨sorted, rfl, rfl, ?_, fun a ha => Ids.mem_of_mem_distinct ((hmem a).1 ha)⟩
  rintro rfl
  cases ids with
  | nil => exact hids rfl
  | cons a ids =>
    have hhas : (Ids.distinct (a :: ids)).has a = true := by
      rw [Ids.has_distinct, Ids.has_iff]
      exact ⟨a, List.mem_cons_self .., rfl⟩
    obtain ⟨b, hb, -⟩ := (Ids.has_iff _ _).1 hhas
    cases (hmem b).2 hb

/-- **A structured card is not left unresolved** if all its references are in the card map. -/
theorem not_isUnresolved_structured (hmap : Store.cardMap s.directory = .ok cards)
    (hheld : ∀ i ∈ card.references, cards.has i = true)
    (h : NewQuery.ofStructured false card (s.structured cards card) = .ok (.error f)) :
    ¬ f.IsUnresolved := by
  intro hf
  unfold NewQuery.ofStructured at h
  split at h
  · obtain ⟨names, -, h⟩ := bind_eq_ok.1 h
    cases h
    cases hf.kind
  split at h
  · obtain ⟨names, -, h⟩ := bind_eq_ok.1 h
    cases h
    cases hf.kind
  obtain ⟨sorted, -, -, hne, hsub⟩ := unresolved_of_unlessUnresolved h
  obtain ⟨a, ha⟩ := List.exists_mem_of_ne_nil _ hne
  -- its first card is a reference, so it has a counterpart
  obtain ⟨b, hb, hkey⟩ := (Ids.has_iff _ _).1
    (StructuredTransfer.has_references_of_unresolved (hsub ha))
  have hnone := (StructuredTransfer.mem_unresolvedCards (hsub ha)).1
  obtain ⟨v, hv⟩ := IdMap.has_eq_true.1 (hheld b hb)
  rw [← IdMap.get?_congr hkey, hv] at hnone
  obtain ⟨ms, ps, ho, -⟩ := Store.cardMap_eq_ok hmap
  obtain ⟨n, t, -, -, rfl⟩ := Store.holds_of_get? hmap ho hv
  cases hnone

/-- A native card that is left unresolved is so for cards of its draft. -/
theorem exists_draft_of_transferQuery (hkind : card.kind? ≠ some .structured)
    (h : (transferQuery false cards card).run s = (.ok (.error f), t)) (hf : f.IsUnresolved) :
    ∃ d query warnings, NativeDraft.ofQuery s.correspondence cards card.query = .ok d ∧
      NewQuery.unlessUnresolved false card query warnings d.unresolvedCards = .ok (.error f) := by
  unfold transferQuery at h
  rw [if_neg (by rwa [beq_iff_eq]), Steps.run_outcome_bind] at h
  generalize hrun : (transferNative cards card.query).run s = p at h
  obtain ⟨r, u⟩ := p
  cases r with
  | error f' =>
    simp only at h
    split at h
    · cases h
      cases hf.kind
    · cases h
  | ok q =>
    unfold transferNative at hrun
    rw [Steps.run_get_bind] at hrun
    obtain ⟨d, v, hd, hrun⟩ := Steps.run_bind_eq_ok.1 hrun
    obtain ⟨context, v, -, hrun⟩ := Steps.run_bind_eq_ok.1 hrun
    obtain ⟨rendered, v, -, hrun⟩ := Steps.run_bind_eq_ok.1 hrun
    cases hrun
    exact ⟨d, _, _, congrArg Prod.fst hd, congrArg Prod.fst h⟩

/-- **A card that is left unresolved although all its references are in the card map** is a native one,
and only stands for cards in tags of its text. -/
theorem undeclared_of_transferQuery (hkind : card.kind?.isSome = true)
    (hmap : Store.cardMap s.directory = .ok cards) (hheld : ∀ i ∈ card.references, cards.has i = true)
    (h : (transferQuery false cards card).run s = (.ok (.error f), t)) (hf : f.IsUnresolved) :
    f.Undeclared := by
  by_cases hstructured : card.kind? = some .structured
  · exact absurd hf
      (not_isUnresolved_structured hmap hheld (ofStructured_of_transferQuery hstructured h))
  obtain ⟨d, query, warnings, hd, hunresolved⟩ := exists_draft_of_transferQuery hstructured h hf
  obtain ⟨sorted, hsource, hmessage, hne, hsub⟩ := unresolved_of_unlessUnresolved hunresolved
  have hnative : card.isNative = true := by
    unfold Card.isNative
    cases hk : card.kind? with
    | none =>
      rw [hk] at hkind
      cases hkind
    | some k =>
      cases k with
      | structured => exact absurd hk hstructured
      | native => rfl
  refine ⟨card, sorted, hsource, hnative, hmessage, hne, fun a ha => ?_⟩
  obtain ⟨hcards, hwhere⟩ := unresolvedCards_native hd (hsub ha)
  have hreferences : card.references.has a = false := by
    rw [Bool.eq_false_iff]
    intro hreference
    obtain ⟨b, hb, hkey⟩ := (Ids.has_iff _ _).1 hreference
    have hsame : cards.has b = cards.has a := congrArg Option.isSome (IdMap.get?_congr hkey)
    rw [← hsame, hheld b hb] at hcards
    cases hcards
  refine ⟨hwhere.resolve_left ?_, hreferences⟩
  change ¬card.references.has a = true
  rw [hreferences]
  exact Bool.false_ne_true

/-- **The same at the end of a live transfer** whose references are all in the card map. -/
theorem undeclared_of_ready {ids : Ids} (hlive : terms.dryRun.truthy = false)
    (hkind : card.kind?.isSome = true) (hfound : card.findReferences = .ok ids)
    (hheld : ∀ i ∈ ids, Held i s) (h : ReadyRun terms id card s (.ok (.failed f), t))
    (hf : f.IsUnresolved) : f.Undeclared := by
  obtain rfl := Card.eq_of_findReferences hfound
  cases h with
  | unwritten idle failed why =>
    rcases why f rfl with htime | ⟨cards, hmap, hquery⟩
    · rw [hf.kind] at htime
      cases htime
    · rw [hlive] at hquery
      exact undeclared_of_transferQuery hkind hmap (fun i hi => hheld i hi cards hmap)
        (Prod.ext hquery rfl) hf
  | dry dry idle =>
    rw [hlive] at dry
    cases dry
  | refused d tried answer attempted failed why =>
    have htarget := why f rfl
    rw [hf.kind] at htarget
    cases htarget

/-! ### Whole requests -/

/-- What the outcome of the transfer of each of some cards has, all outcomes have if they are
transferred in turn. -/
theorem outcomes_transferProviders {Q : Outcome → Prop} {deadline : Option Number}
    {transfer : Json → Action Outcome} {mapped : IdMap Json} {ids : Ids}
    (htransfer : ∀ i s o t, (transfer i).run s = (.ok o, t) → Q o) {outcomes outcomes' : List Outcome}
    {stop : Option Stop} (houtcomes : ∀ o ∈ outcomes, Q o)
    (h : (transferProviders deadline transfer mapped ids outcomes).run s =
      (.ok (outcomes', stop), t)) : ∀ o ∈ outcomes', Q o := by
  induction ids generalizing s outcomes with
  | nil =>
    cases h
    exact houtcomes
  | cons i ids ih =>
    unfold transferProviders at h
    split at h
    · exact ih houtcomes h
    rw [Steps.run_get_bind] at h
    split at h
    · cases h
      exact houtcomes
    obtain ⟨o, u, hrun, h⟩ := Steps.run_bind_eq_ok.1 h
    have hmore : ∀ o' ∈ outcomes ++ [o], Q o' :=
      List.forall_mem_append.2 ⟨houtcomes, List.forall_mem_singleton.2 (htransfer i s o u hrun)⟩
    split at h
    · exact ih hmore h
    · cases h
      exact hmore

/-- Whether each card of an outcome that is left unresolved is so for undeclared cards. -/
def OnlyUndeclared (o : Outcome) : Prop := ∀ f, .failed f ∈ o.reports → f.IsUnresolved → f.Undeclared

theorem OnlyUndeclared.mk {report : Report} {outcomes : List Outcome}
    (houtcomes : ∀ o ∈ outcomes, OnlyUndeclared o)
    (hreport : ∀ f, report = .failed f → f.IsUnresolved → f.Undeclared) :
    OnlyUndeclared (.mk report outcomes) := by
  intro f hf
  rcases mem_reports_mk.1 hf with ⟨o, ho, hf⟩ | hf
  · exact houtcomes o ho f hf
  · exact hreport f hf.symm

/-- A card is not left unresolved because the transfer of those that it refers to has stopped. -/
theorem not_isUnresolved_stopFailure (id : Json) (card : Card) (stop : Stop) :
    ¬ (stopFailure id card stop).IsUnresolved := by
  rintro ⟨hkind, hmessage⟩
  cases stop with
  | deadline => cases hkind
  | provider i o =>
    simp only [stopFailure] at hkind hmessage
    split at hmessage
    · rename_i hcircular
      rw [if_pos hcircular] at hkind
      cases hkind
    · -- the messages differ in their first letter
      simp [Failure.fetched, Failure.unfetched, unresolvedText] at hmessage

/-- **In the live transfer of a card only undeclared cards are left unresolved**, at any level. -/
theorem onlyUndeclared_transferCard {n : Nat} {o : Outcome} (hlive : terms.dryRun.truthy = false)
    (h : (transferCard n terms path id).run s = (.ok o, t)) : OnlyUndeclared o := by
  induction n generalizing terms path id s t o with
  | zero => cases h
  | succ n ih =>
    have hlive' : terms.forProviders.dryRun.truthy = false := hlive
    have hproviders (g : Fetched path id s) {outcomes : List Outcome} {stop : Option Stop}
        {u : Session} (hg : g.transferProviders terms (transferCard n terms.forProviders (path.add id)) =
          (.ok (outcomes, stop), u)) : ∀ o ∈ outcomes, OnlyUndeclared o :=
      outcomes_transferProviders (fun _ _ _ _ => ih hlive') (List.forall_mem_nil _) hg
    have hrun := cardRun terms (transferCard n terms.forProviders (path.add id)) path id s
    change (transferVia terms _ path id).run s = _ at h
    rw [h] at hrun
    generalize hr : (Except.ok o : Except Fault Outcome) = r at hrun
    cases hrun with
    | left idle failed alone =>
      obtain ⟨f, rfl, hf, -⟩ := alone o hr.symm
      exact .mk (List.forall_mem_nil _) (by rintro _ ⟨⟩ h; exact absurd h.kind hf)
    | stopped g run unfinished failed reported =>
      obtain ⟨stop, rfl, hreport⟩ := reported o hr.symm
      obtain ⟨report, outcomes⟩ := o
      refine .mk (hproviders g run) fun f hf hunresolved => ?_
      change report = _ at hreport
      rw [hreport] at hf
      cases hf
      exact absurd hunresolved (not_isUnresolved_stopFailure id g.card stop)
    | ready g run ready =>
      obtain ⟨report, rfl, rfl⟩ := map_eq_ok.1 hr.symm
      refine .mk (hproviders g run) ?_
      rintro f rfl hf
      have hheld := (grown_providers (fun _ _ _ _ => grown_transferCard hlive') g run).2 _ rfl
      exact undeclared_of_ready hlive g.supported g.found hheld ready hf

/-- **Two scans for cards.** Each card of a structured query that has no counterpart is a reference of the
query. So is each of a native query, or it stands in a tag of the text. A live request leaves a card
unresolved, whichever card that is, only if it is native, and only for cards in tags of its text that are
no references. -/
theorem unresolved_undeclared :
    (∀ c cards source target q,
      ∀ a ∈ (StructuredTransfer.ofQuery c cards source target q).unresolvedCards,
        (Json.obj q).references.has a = true) ∧
    (∀ c cards q d, NativeDraft.ofQuery c cards q = .ok d → ∀ a ∈ d.unresolvedCards,
      (Json.obj q).references.has a = true ∨ a ∈ taggedCards q) ∧
    ∀ r s o, r.dryRun.truthy = false → ((transfer r).run s).1 = .ok o →
      ∀ f, .failed f ∈ o.reports → f.IsUnresolved → f.Undeclared := by
  refine ⟨fun _ _ _ _ _ _ => StructuredTransfer.has_references_of_unresolved,
    fun _ _ _ _ hd _ ha => (unresolvedCards_native hd ha).2, fun r s o hlive h => ?_⟩
  rcases transfer_cases (Prod.ext h rfl) with ⟨-, f, hf⟩ | ⟨deadline, path, x, u, hrun, -, houtcome⟩
  · cases hf
  · rw [houtcome o rfl]
    cases x with
    | ok o => exact onlyUndeclared_transferCard hlive hrun
    | error f => exact OnlyUndeclared.mk (List.forall_mem_nil _) (by rintro _ ⟨⟩ h; cases h.kind)

/-- A structured query on card 8. -/
def onCard : Members := [("database", .int 1), ("query", .obj [("source-table", .str "card__8")])]

/-- A native card with a tag for card 8 in its text, and no description of the tag. -/
def taggedQuery : Members :=
  [("type", .str "native"), ("database", .int 1),
    ("native", .obj [("query", .str "SELECT * FROM \x7b\x7b#8\x7d\x7d")])]

/-- A session with such a card. Card 8 is there and can be transferred. -/
def taggedSession : Session :=
  smallSession [(.int 7, .obj [("id", .int 7), ("name", .str "A"), ("dataset_query", .obj taggedQuery)]),
    structuredCard 8 (.int 5)] ⟨[]⟩

/-- A live request for the card fails for card 8. -/
theorem exists_unresolved_taggedSession : ∃ o f,
    ((transfer (liveRequest 7 false)).run taggedSession).1 = .ok o ∧ .failed f ∈ o.reports ∧
      f.IsUnresolved := by
  have hfailed : ((transfer (liveRequest 7 false)).run taggedSession).1.toOption.map
      (fun o => o.report.failure?.any fun f => f.IsUnresolved) = some true := by decide +kernel
  obtain ⟨⟨report, outcomes⟩, ho, hreport⟩ := exists_ok_of_toOption hfailed
  obtain ⟨f, hf, hunresolved⟩ := (Option.any_eq_true _ _).1 hreport
  cases report with
  | transferred result => cases hf
  | failed f' =>
    cases hf
    exact ⟨_, f, ho, mem_reports_mk.2 (.inr rfl), of_decide_eq_true hunresolved⟩

/-- A structured query on a card without counterpart refers to the card. Card 7 is left unresolved for
card 8, which stands in a tag of its text and is undeclared. -/
theorem unresolved_undeclared_taggedSession :
    (∃ a ∈ (StructuredTransfer.ofQuery default [] 1 2 onCard).unresolvedCards,
      (Json.obj onCard).references.has a = true) ∧
    (∃ d, NativeDraft.ofQuery taggedSession.correspondence [] taggedQuery = .ok d ∧
      ∃ a ∈ d.unresolvedCards, (Json.obj taggedQuery).references.has a = true ∨
        a ∈ taggedCards taggedQuery) ∧
    ∃ o f, ((transfer (liveRequest 7 false)).run taggedSession).1 = .ok o ∧ .failed f ∈ o.reports ∧
      f.IsUnresolved ∧ f.Undeclared := by
  have hstructured : (StructuredTransfer.ofQuery default [] 1 2 onCard).unresolvedCards.isEmpty =
      false := by decide +kernel
  have hnative : (NativeDraft.ofQuery taggedSession.correspondence [] taggedQuery).toOption.map
      (·.unresolvedCards.isEmpty) = some false := by decide +kernel
  obtain ⟨a, ha⟩ := List.exists_mem_of_ne_nil _ (List.isEmpty_eq_false_iff.1 hstructured)
  obtain ⟨d, hd, hcards⟩ := exists_ok_of_toOption hnative
  obtain ⟨b, hb⟩ := List.exists_mem_of_ne_nil _ (List.isEmpty_eq_false_iff.1 hcards)
  obtain ⟨o, f, ho, hf, hunresolved⟩ := exists_unresolved_taggedSession
  exact ⟨⟨a, ha, unresolved_undeclared.1 _ _ _ _ _ a ha⟩,
    ⟨d, hd, b, hb, unresolved_undeclared.2.1 _ _ _ d hd b hb⟩,
    o, f, ho, hf, hunresolved, unresolved_undeclared.2.2 _ _ o rfl ho f hf hunresolved⟩

/-- **A tag in the text is no reference.** The card of the tag has no counterpart, and so the request
for the card fails. -/
theorem taggedSession_unresolved :
    (∃ ids, (Json.obj taggedQuery).findReferences = .ok ids ∧ ids.has (.int 8) = false) ∧
    (∃ d, NativeDraft.ofQuery taggedSession.correspondence [] taggedQuery = .ok d ∧
      d.unresolvedCards.has (.int 8) = true) ∧
    ∃ o f, ((transfer (liveRequest 7 false)).run taggedSession).1 = .ok o ∧ .failed f ∈ o.reports ∧
      f.IsUnresolved := by
  have hreferences : (Json.obj taggedQuery).findReferences.toOption.map (·.has (.int 8)) =
      some false := by decide +kernel
  have hdraft : (NativeDraft.ofQuery taggedSession.correspondence [] taggedQuery).toOption.map
      (·.unresolvedCards.has (.int 8)) = some true := by decide +kernel
  exact ⟨exists_ok_of_toOption hreferences, exists_ok_of_toOption hdraft,
    exists_unresolved_taggedSession⟩

end Session
end CardTransfer
