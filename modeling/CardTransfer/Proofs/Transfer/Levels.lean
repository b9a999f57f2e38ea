import CardTransfer.Proofs.Transfer.Call
import CardTransfer.Proofs.Transfer.Frame

/-!
# How deep transfers go

The transfer of a card runs over a given number of levels, but the number is not a bound that shows: on
every level one more card of the instance is on the path, so there are never more levels than cards.
Two runs agree if each has more levels than there are cards, whatever they would do below
(`run_transferOver`).

Cards come and go while this happens. New ones get ids from the next one on; if no card refers to such
an id (`Settled`), then what is found under the ids that are referred to stays the same
(`beyond_transferCard`).
-/

namespace CardTransfer

open Steps (Keeps keeps_pure keeps_throw keeps_ofExcept keeps_get keeps_get_bind)

/-- Whether an id is no integer from `n` on. -/
def Below (n : Int) (id : Json) : Prop := ∀ k, id.key = .whole k → k < n

variable {α : Type} {n : Int} {id : Json}

theorem below_iff : Below n id ↔ (match id.key with | .whole k => decide (k < n) | _ => true) = true := by
  unfold Below
  cases id.key with
  | whole k =>
    rw [decide_eq_true_iff]
    constructor
    · exact fun h => h k rfl
    · rintro h _ ⟨⟩
      exact h
  | _ => exact ⟨fun _ => rfl, fun _ _ h => nomatch h⟩

instance : Decidable (Below n id) := decidable_of_iff _ below_iff.symm

/-! ### Instances -/

namespace Metabase.Instance

open Session (SameCards)

/-- The cards below `n` are the same, if new cards get ids from `n` on. -/
def Beyond (n : Int) (m m' : Instance) : Prop := n ≤ m.nextId →
  n ≤ m'.nextId ∧ ∀ id, Below n id → m'.cards.get? id = m.cards.get? id

variable {m m' m₁ : Instance}

theorem Beyond.of_sameCards (h : SameCards m m') : Beyond n m m' := by
  intro hn
  rw [h.1, h.2]
  exact ⟨hn, fun _ _ => rfl⟩

theorem Beyond.trans (h₁ : Beyond n m m₁) (h₂ : Beyond n m₁ m') : Beyond n m m' := by
  intro hn
  obtain ⟨hn₁, hcards₁⟩ := h₁ hn
  obtain ⟨hn', hcards'⟩ := h₂ hn₁
  exact ⟨hn', fun id hid => (hcards' id hid).trans (hcards₁ id hid)⟩

instance : Std.Refl (Beyond n) := ⟨fun _ => .of_sameCards (Std.Refl.refl _)⟩

instance : IsTrans Instance (Beyond n) := ⟨fun _ _ _ h₁ h₂ => h₁.trans h₂⟩

/-- A card from `n` on is put among the others. -/
theorem get?_insert_of_below {cards : IdMap Json} {payload : Json} {k : Int} (hk : n ≤ k)
    (hid : Below n id) : (cards.insert (.int k) payload).get? id = cards.get? id := by
  rw [IdMap.get?_insert, if_neg]
  intro hsame
  have hkey : id.key = .whole k := ((Json.sameId_iff _ _).1 hsame).symm
  have hlt : k < n := hid k hkey
  omega

/-- Creating a card leaves those below the next id alone. -/
theorem beyond_createCard (definition : Members) : Keeps (Beyond n) (createCard definition) := by
  have hmeet : Keeps (Beyond n) (meet .create) :=
    (Session.sameCards_meet _).imp fun _ _ h => .of_sameCards h
  refine hmeet.bind fun _ => keeps_get_bind fun m => ?_
  intro hn
  constructor
  · show n ≤ m.nextId + 1
    omega
  · intro id hid
    exact get?_insert_of_below hn hid

/-- Changing a card from `n` on leaves those below alone. -/
theorem beyond_updateCard {k : Int} (hk : n ≤ k) (changes : Members) :
    Keeps (Beyond n) (updateCard (.int k) changes) := by
  have hmeet : Keeps (Beyond n) (meet .update) :=
    (Session.sameCards_meet _).imp fun _ _ h => .of_sameCards h
  refine hmeet.bind fun _ => keeps_get_bind fun m => ?_
  split
  · intro hn
    constructor
    · exact hn
    · intro id hid
      exact get?_insert_of_below hk hid
  · exact Std.Refl.refl m

end Metabase.Instance

namespace Session

variable {s t u : Session} {terms : Terms} {card : Card} {path : Ids}

/-! ### Sessions -/

/-- The cards of the instance below `n` are the same, if new cards get ids from `n` on. -/
def Beyond (n : Int) (s t : Session) : Prop := s.metabase.Beyond n t.metabase

theorem Beyond.trans (h₁ : Beyond n s t) (h₂ : Beyond n t u) : Beyond n s u :=
  Metabase.Instance.Beyond.trans h₁ h₂

theorem Beyond.of_idle (h : Idle s t) : Beyond n s t := .of_sameCards ⟨h.cards, h.nextId⟩

instance : Std.Refl (Beyond n) := ⟨fun _ => .of_idle (Std.Refl.refl _)⟩

instance : IsTrans Session (Beyond n) := ⟨fun _ _ _ h₁ h₂ => h₁.trans h₂⟩

theorem Beyond.of_calm (s t : Session) (h : Calm s t) : Beyond n s t := .of_idle h.idle

theorem beyond_call {steps : Steps Metabase.Instance α}
    (h : Keeps (Metabase.Instance.Beyond n) steps) : Keeps (Beyond n) (call steps) :=
  fun s => h s.metabase

theorem beyond_repairCard {k : Int} (hk : n ≤ k) (query : Json) :
    Keeps (Beyond n) (repairCard (.int k) query) :=
  (beyond_call (Metabase.Instance.beyond_updateCard hk _)).bind fun _ => (calm_note _).imp Beyond.of_calm

theorem beyond_create (card : Card) (definition : Members) :
    Keeps (Beyond n) (create card definition) :=
  (beyond_call (Metabase.Instance.beyond_createCard definition)).bind fun _ =>
    ((calm_note _).imp Beyond.of_calm).bind fun _ => keeps_pure _

theorem beyond_enterCard (source target : Json) : Keeps (Beyond n) (enterCard source target) :=
  (keeps_writeStore fun _ _ _ => .of_sameCards ⟨rfl, rfl⟩).bind fun _ =>
    Steps.keeps_modify fun _ => .of_sameCards ⟨rfl, rfl⟩

/-- Verifying and entering a card from `n` on leaves those below alone. -/
theorem beyond_settle {k : Int} (hk : n ≤ k) (id : Json) (card : Card) (q : NewQuery) :
    Keeps (Beyond n) (settle id card (.int k) q) := by
  have hverify : Keeps (Beyond n) (verify card (.int k) q.query q.warnings) :=
    keeps_verify .of_calm (beyond_repairCard hk) card q.query q.warnings
  exact hverify.bind fun _ => (beyond_enterCard id _).bind fun _ => keeps_get.bind fun _ =>
    keeps_pure _

/-- A card that is written without force is a new one. -/
theorem run_writeCard_unforced {existing : Option Json} {definition : Members}
    {answer : Except Fault Json} (hforce : terms.force = false)
    (h : (writeCard terms id card existing definition).run s = (answer, t)) :
    Beyond n s t ∧ ∀ target, answer = .ok target → target = .int s.metabase.nextId := by
  unfold writeCard at h
  rw [hforce] at h
  have hbeyond : Beyond n s ((create card definition).run s).2 := beyond_create card definition s
  cases h
  constructor
  · exact hbeyond
  · intro target htarget
    obtain ⟨new, u, hcall, hcreate⟩ := Steps.run_bind_eq_ok.1 (Prod.ext htarget rfl)
    have hid : ((Metabase.Instance.createCard definition).run s.metabase).1 = .ok new :=
      congrArg Prod.fst hcall
    obtain ⟨_, v, -, hnote⟩ := Steps.run_bind_eq_ok.1 hcreate
    cases hnote
    exact id_of_createCard (Prod.ext hid rfl)

/-! ### Transfers without force -/

theorem beyond_commit (hforce : terms.force = false) (id : Json) (card : Card)
    (existing : Option Json) (q : NewQuery) : Keeps (Beyond n) (commit terms id card existing q) := by
  intro s
  have hrefl : Beyond n s s := Std.Refl.refl s
  unfold commit
  rw [Steps.run_get_bind]
  simp only
  split
  · exact hrefl
  rw [Steps.run_get_bind]
  cases card.definition (.obj q.query) s.settings.nameSuffix terms.collection with
  | error f => exact hrefl
  | ok definition =>
    rw [Steps.run_ofExcept_bind_ok, Steps.run_outcome_bind]
    generalize hwrite : (writeCard terms id card existing definition).run s = w
    obtain ⟨answer, u⟩ := w
    obtain ⟨hbeyond, hid⟩ := run_writeCard_unforced hforce hwrite
    cases answer with
    | error f =>
      simp only
      split
      · exact hbeyond
      · exact hbeyond
    | ok target =>
      obtain rfl := hid target rfl
      intro hn
      have hsettle := (beyond_settle hn id card q).bind fun result =>
        keeps_pure (R := Beyond n) (Report.transferred result)
      exact (hbeyond.trans (hsettle u)) hn

/-- **A transfer without force leaves the cards below the next id alone.** -/
theorem beyond_transferCard {levels : Nat} (hforce : terms.force = false) (path : Ids) (id : Json) :
    Keeps (Beyond n) (transferCard levels terms path id) :=
  keeps_transferCard (P := fun terms => terms.force = false) .of_calm (fun _ _ => rfl)
    (fun _ hforce => beyond_commit hforce) hforce levels path id

/-! ### Levels -/

/-- An outcome that is no failure is that of the transfer, which no fault has ended. -/
theorem eq_ok_of_outcomeOf {x : Except Fault Outcome} (h : (outcomeOf id x).ok = true) :
    x = .ok (outcomeOf id x) := by
  cases x with
  | ok o => rfl
  | error f => cases h

/-- The transfer of a card over some levels, with something else in the place of the levels below. -/
def transferOver (bottom : Terms → Ids → Json → Action Outcome) :
    Nat → Terms → Ids → Json → Action Outcome
  | 0, terms, path, id => bottom terms path id
  | levels + 1, terms, path, id =>
    transferVia terms (transferOver bottom levels terms.forProviders (path.add id)) path id

/-- No card of the instance refers to an id that is still to be given to a new card. -/
def Settled (s : Session) : Prop := ∀ p ∈ s.metabase.cards, ∀ card ids,
  Card.ofPayload p.2 = .ok card → card.findReferences = .ok ids →
    ∀ i ∈ ids, Below s.metabase.nextId i

theorem settled_iff : Settled s ↔ (s.metabase.cards.all fun p =>
    (Card.ofPayload p.2 >>= Card.findReferences).toOption.all fun ids =>
      ids.all fun i => decide (Below s.metabase.nextId i)) = true := by
  unfold Settled
  rw [List.all_eq_true]
  refine forall₂_congr fun p _ => ?_
  rw [Option.all_eq_true]
  constructor
  · intro h ids hids
    obtain ⟨card, hcard, hfound⟩ := bind_eq_ok.1 (eq_ok_of_toOption hids)
    rw [List.all_eq_true]
    exact fun i hi => decide_eq_true (h card ids hcard hfound i hi)
  · intro h card ids hcard hfound i hi
    have hids : (Card.ofPayload p.2 >>= Card.findReferences).toOption = some ids := by
      rw [bind_eq_ok.2 ⟨card, hcard, hfound⟩]
      rfl
    exact of_decide_eq_true (List.all_eq_true.1 (h ids hids) i hi)

instance : Decidable (Settled s) := decidable_of_iff _ settled_iff.symm

/-- How many cards of the instance are not on a path. -/
def room (s : Session) (path : Ids) : Nat :=
  (s.metabase.cards.filter fun p => !path.has p.1).length

/-- A card that is fetched is one of the instance. -/
theorem exists_payload_of_fetch (h : (fetch id).run s = (.ok card, t)) :
    ∃ payload, s.metabase.cards.get? id = some payload ∧ Card.ofPayload payload = .ok card := by
  unfold fetch at h
  rw [Steps.run_get_bind] at h
  obtain ⟨_, u, helapse, h⟩ := Steps.run_bind_eq_ok.1 h
  have hcards : u.metabase.cards = s.metabase.cards := by
    have hstill := still_elapse s.metabase.fetchTime s
    rw [helapse] at hstill
    rw [hstill.metabase]
  have hcard : ((Metabase.Instance.getCard id).run u.metabase).1 = .ok card := congrArg Prod.fst h
  unfold Metabase.Instance.getCard at hcard
  obtain ⟨_, m, hmeet, hget⟩ := Steps.run_bind_eq_ok.1 (Prod.ext hcard rfl)
  have hsame := (sameCards_meet (.get id.shown) u.metabase).1
  rw [hmeet] at hsame
  rw [Steps.run_get_bind, hsame, hcards] at hget
  cases hpayload : s.metabase.cards.get? id with
  | none =>
    rw [hpayload] at hget
    cases hget
  | some payload =>
    rw [hpayload] at hget
    exact ⟨payload, rfl, congrArg Prod.fst hget⟩

/-- A card that is fetched later is one of the instance as it was at the beginning. -/
theorem exists_card_of_fetch {s₀ : Session} (hbeyond : Beyond s₀.metabase.nextId s₀ s)
    (hid : s = s₀ ∨ Below s₀.metabase.nextId id) (h : (fetch id).run s = (.ok card, t)) :
    ∃ payload, s₀.metabase.cards.get? id = some payload ∧ Card.ofPayload payload = .ok card := by
  obtain ⟨payload, hget, hcard⟩ := exists_payload_of_fetch h
  rcases hid with rfl | hbelow
  · exact ⟨payload, hget, hcard⟩
  · have hsame := (hbeyond (Int.le_refl _)).2 id hbelow
    exact ⟨payload, hsame.symm.trans hget, hcard⟩

/-- A card of the instance that joins the path leaves less room. -/
theorem room_add_lt (hfresh : path.has id = false) {p : Json × Json} (hp : p ∈ s.metabase.cards)
    (hid : p.1.sameId id = true) : s.room (path.add id) < s.room path := by
  have hkey : p.1.key = id.key := (Json.sameId_iff _ _).1 hid
  have hsub : (s.metabase.cards.filter fun q => !(path.add id).has q.1) =
      (s.metabase.cards.filter fun q => !path.has q.1).filter fun q => !id.sameId q.1 := by
    rw [List.filter_filter]
    refine List.filter_congr fun q _ => ?_
    rw [Ids.has_add, Bool.not_or, Bool.and_comm]
  unfold room
  rw [hsub, List.length_filter_lt_length_iff_exists]
  refine ⟨p, List.mem_filter.2 ⟨hp, ?_⟩, ?_⟩
  · rw [Ids.has_congr hkey, hfresh]
    rfl
  · rw [(Json.sameId_iff _ _).2 hkey.symm]
    exact Bool.false_ne_true

/-- Runs for which the providers are transferred alike are alike. -/
theorem run_transferVia_congr {f f' : Json → Action Outcome}
    (h : ∀ g : Fetched path id s, g.transferProviders terms f = g.transferProviders terms f') :
    (transferVia terms f path id).run s = (transferVia terms f' path id).run s := by
  unfold transferVia
  refine Steps.run_bind_congr fun key t heq => ?_
  obtain ⟨hkey, rfl⟩ := Prod.mk.inj heq
  obtain rfl := Json.eq_of_asKey hkey
  split
  · rfl
  rename_i hfresh
  rw [Bool.not_eq_true] at hfresh
  refine Steps.run_bind_congr fun s' t hget => ?_
  cases hget
  split
  · rfl
  rw [Steps.run_outcome_bind, Steps.run_outcome_bind]
  cases hfetch : (fetch key).run s with
  | mk r start =>
    cases r with
    | error f => rfl
    | ok card =>
      simp only
      split
      · rfl
      rename_i hkind
      rw [Bool.not_eq_true, Option.isNone_eq_false_iff] at hkind
      refine Steps.run_bind_congr fun mapped t heq => ?_
      obtain ⟨hmapped, rfl⟩ := Prod.mk.inj heq
      refine Steps.run_bind_congr fun providers t heq => ?_
      obtain ⟨hfound, rfl⟩ := Prod.mk.inj heq
      let g : Fetched path key s :=
        ⟨card, start, mapped, providers, hfresh, hfetch, hkind, hmapped, hfound⟩
      have hg := h g
      unfold Fetched.transferProviders at hg
      rw [Steps.run_bind, Steps.run_bind, hg]

/-- Runs for which each provider is transferred alike are alike. -/
theorem run_transferProviders_congr {P : Session → Prop} {f f' : Json → Action Outcome}
    {deadline : Option Number} {mapped : IdMap Json} {ids : Ids} {outcomes : List Outcome}
    (hstep : ∀ i ∈ ids, ∀ v, P v → (f i).run v = (f' i).run v ∧ P ((f' i).run v).2) (hs : P s) :
    (transferProviders deadline f mapped ids outcomes).run s =
      (transferProviders deadline f' mapped ids outcomes).run s := by
  induction ids generalizing s outcomes with
  | nil => rfl
  | cons i ids ih =>
    have htail := fun j hj => hstep j (List.mem_cons_of_mem _ hj)
    obtain ⟨hrun, hP⟩ := hstep i (List.mem_cons_self ..) s hs
    unfold transferProviders
    split
    · exact ih htail hs
    refine Steps.run_bind_congr fun s' t heq => ?_
    cases heq
    split
    · rfl
    rw [Steps.run_bind, Steps.run_bind, hrun]
    split
    · rename_i o t heq
      rw [heq] at hP
      split
      · exact ih htail hP
      · rfl
    · rfl

/-- **The number of levels does not matter**, nor what would be done below them, if there are more
levels than cards that are not on the path. -/
theorem run_transferOver {s₀ : Session} (hsettled : Settled s₀)
    (bottom : Terms → Ids → Json → Action Outcome) {levels levels' : Nat}
    (hlevels : s₀.room path < levels) (hlevels' : s₀.room path < levels')
    (hbeyond : Beyond s₀.metabase.nextId s₀ s) (hid : s = s₀ ∨ Below s₀.metabase.nextId id) :
    (transferOver bottom levels terms path id).run s = (transferCard levels' terms path id).run s := by
  induction levels generalizing levels' terms path id s with
  | zero => omega
  | succ levels ih =>
    cases levels' with
    | zero => omega
    | succ levels' =>
      refine run_transferVia_congr fun g => ?_
      obtain ⟨payload, hget, hcard⟩ := exists_card_of_fetch hbeyond hid g.fetched
      obtain ⟨p, hp, hsame, rfl⟩ := IdMap.exists_mem_of_get? hget
      have hroom : s₀.room (path.add id) < s₀.room path := room_add_lt g.fresh hp hsame
      have hstart : Beyond s₀.metabase.nextId s₀ g.start := hbeyond.trans (.of_idle g.idle)
      refine run_transferProviders_congr (P := Beyond s₀.metabase.nextId s₀) (fun i hi v hv => ?_) hstart
      have hbelow : Below s₀.metabase.nextId i := hsettled p hp _ _ hcard g.found i hi
      constructor
      · exact ih (by omega) (by omega) hv (.inr hbelow)
      · exact hv.trans (beyond_transferCard rfl _ _ v)

end Session
end CardTransfer
