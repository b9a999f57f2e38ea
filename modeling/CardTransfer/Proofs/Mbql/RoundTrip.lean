import CardTransfer.Proofs.Except
import CardTransfer.Proofs.Json.Agreement
import CardTransfer.Proofs.Mbql.Member
import CardTransfer.Proofs.Text.Numeral
import Mathlib.Algebra.Group.Nat.Defs

/-!
# Queries that are written as they were read

Reading and writing a structured query gives the query back unless an inner query that is reached says
more than is kept of it: it has the member that is written for the whole, or two sources, or names a
card by digits that are not the ones the card is written with. The inner queries that are reached are
the query itself, its source and its joins, theirs, and so on (`Reaches`).

One level is settled first (`alike_written_iff`): an inner query is written alike exactly if it is
`Plain` and the inner queries right below it are written alike. The levels follow by induction on the
size of the document. A query that names a card by too many digits is not read at all, and so it is
not given back either, however plain it is (`longQuery_refused`).
-/

namespace CardTransfer

namespace Source

/-- The text that names a card by a number is read digit by digit. -/
theorem cardNumeral?_ofNat (n : Nat) :
    cardNumeral? ("card__" ++ Text.ofNat n) = some (Nat.toDigits 10 n) := by
  have hlist : ("card__" ++ Text.ofNat n).toList = "card__".toList ++ Nat.toDigits 10 n :=
    String.toList_append.trans (congrArg _ String.toList_ofList)
  have hisDigit {c : Char} (hc : c ∈ Nat.toDigits 10 n) : Text.isDigit c = true := by
    rw [Text.isDigit, Text.digitValue?_of_isDigit (Text.isDigit_of_mem_toDigits hc)]
    rfl
  have hend : (Nat.toDigits 10 n).getLast? ≠ some '\n' := by
    intro h
    exact absurd (hisDigit (List.mem_of_getLast? h)) (by decide)
  have hdrop : ("card__".toList ++ Nat.toDigits 10 n).drop 6 = Nat.toDigits 10 n := rfl
  unfold cardNumeral?
  simp only [hlist, hdrop]
  rw [if_pos (List.isPrefixOf_iff_prefix.2 (List.prefix_append ..)),
    if_neg (c := ((Nat.toDigits 10 n).getLast? == some '\n') = true) (by simpa using hend), if_neg]
  rw [Bool.or_eq_true, not_or, Bool.not_eq_true, Bool.not_eq_true, List.isEmpty_eq_false_iff,
    Bool.not_eq_false', List.all_eq_true]
  exact ⟨Nat.toDigits_ne_nil, fun c hc => hisDigit hc⟩

theorem namedCard?_ofNat (n : Nat) : namedCard? ("card__" ++ Text.ofNat n) = some n := by
  rw [namedCard?, cardNumeral?_ofNat, Option.map_some, Text.numberOf_toDigits]

/-- A card is named by too many digits if its number is too large. -/
theorem excessDigits?_ofNat (n : Nat) :
    excessDigits? ("card__" ++ Text.ofNat n) = none ↔ n < 10 ^ Text.digitLimit := by
  rw [excessDigits?, cardNumeral?_ofNat, Option.map_some, Option.filter_eq_none_iff]
  simp only [Option.some.injEq, forall_eq', decide_eq_true_eq, Nat.not_lt]
  exact Nat.length_toDigits_le_iff (by decide) (by decide)

theorem cardText_natCast (n : Nat) : cardText (.int n) = "card__" ++ Text.ofNat n := by
  change "card__" ++ Text.ofInt n = _
  rw [Text.ofInt, if_neg (by omega), Int.natAbs_natCast]

end Source

namespace Role

variable {r : Role}

/-- What is neither a query nor joins nor a source is written as it is. -/
theorem image_same (hquery : r ≠ query) (hjoins : r ≠ joins) (hsource : r ≠ source) (v : Json) :
    r.image .same v = v := by
  have hclause (w : Json) : ((Clause.ofJson w).mapFields id).toJson = w := by
    rw [Clause.mapFields_id, Clause.toJson_ofJson]
  have hchanged (w : Json) : changed id w = w := by
    unfold changed
    exact ite_self w
  cases r with
  | query => contradiction
  | joins => contradiction
  | source => contradiction
  | expressions =>
    cases v with
    | obj es =>
      have hes : es.map (fun e => (e.1, ((Clause.ofJson e.2).mapFields id).toJson)) = es := by
        simp only [hclause, List.map_id']
      exact congrArg Json.obj hes
    | _ => rfl
  | clause => exact hclause v
  | field => exact hchanged v
  | options =>
    cases v with
    | obj ms =>
      rw [image]
      split
      · rename_i w hw
        exact congrArg Json.obj (by rw [IdChange.same, hchanged, Members.insert_eq_self hw])
      · rfl
    | _ => rfl
  | sourceField => exact hchanged v

end Role

namespace InnerQuery

variable {ms ns os : Members} {key : String} {v w : Json} {vs : List Json}

/-! ### The inner queries of a query -/

/-- The inner queries that are reached from an inner query: itself, its source, its joins, and those
that are reached from them. -/
inductive Reaches : Members → Members → Prop where
  | self (ms : Members) : Reaches ms ms
  | source {ms ns os : Members} (h : Members.get? ms "source-query" = some (.obj ns))
      (rest : Reaches ns os) : Reaches ms os
  | join {ms ns os : Members} {vs : List Json} (h : Members.get? ms "joins" = some (.arr vs))
      (hmem : .obj ns ∈ vs) (rest : Reaches ns os) : Reaches ms os

/-- The inner queries right below an inner query: its source and its joins. -/
def Below (ms ns : Members) : Prop :=
  Members.get? ms "source-query" = some (.obj ns) ∨
    ∃ vs, Members.get? ms "joins" = some (.arr vs) ∧ .obj ns ∈ vs

theorem sizeOf_below (h : Below ms ns) : sizeOf ns < sizeOf ms := by
  rcases h with h | ⟨vs, h, hmem⟩
  · have hsize := List.sizeOf_lt_of_mem (Members.mem_of_get? h)
    rw [Prod.mk.sizeOf_spec, Json.obj.sizeOf_spec] at hsize
    omega
  · have hsize := List.sizeOf_lt_of_mem (Members.mem_of_get? h)
    have hitem := List.sizeOf_lt_of_mem hmem
    rw [Prod.mk.sizeOf_spec, Json.arr.sizeOf_spec] at hsize
    rw [Json.obj.sizeOf_spec] at hitem
    omega

theorem keysOnce_below (hms : (Json.obj ms).keysOnce = true) (h : Below ms ns) :
    (Json.obj ns).keysOnce = true := by
  rcases h with h | ⟨vs, h, hmem⟩
  · exact Json.keysOnce_of_part? (s := .key "source-query") hms h
  · have hvs : (Json.arr vs).keysOnce = true := Json.keysOnce_of_part? (s := .key "joins") hms h
    rw [Json.keysOnce, Json.itemsKeysOnce_eq] at hvs
    exact List.all_eq_true.1 hvs _ hmem

/-- What holds of all inner queries that are reached holds of the query itself and of all that are
reached from those right below it. -/
theorem forall_reaches_iff {P : Members → Prop} : (∀ os, Reaches ms os → P os) ↔
    P ms ∧ ∀ ns, Below ms ns → ∀ os, Reaches ns os → P os := by
  constructor
  · intro h
    refine ⟨h ms (.self ms), ?_⟩
    rintro ns (hsource | ⟨vs, hjoins, hmem⟩) os hreaches
    · exact h os (.source hsource hreaches)
    · exact h os (.join hjoins hmem hreaches)
  · rintro ⟨hself, hbelow⟩ os hreaches
    cases hreaches with
    | self => exact hself
    | source hsource rest => exact hbelow _ (.inl hsource) os rest
    | join hjoins hmem rest => exact hbelow _ (.inr ⟨_, hjoins, hmem⟩) os rest

/-- What holds of an inner query exactly if something holds of it and the first holds of those right
below it holds exactly if the second holds of all that are reached. -/
theorem iff_forall_reaches {P Q : Members → Prop}
    (h : ∀ ms, (Json.obj ms).keysOnce = true → (P ms ↔ Q ms ∧ ∀ ns, Below ms ns → P ns)) (ms : Members)
    (hms : (Json.obj ms).keysOnce = true) : P ms ↔ ∀ os, Reaches ms os → Q os := by
  rw [h ms hms, forall_reaches_iff]
  refine and_congr_right fun _ => forall_congr' fun ns => ?_
  constructor
  · intro hP hbelow
    exact (iff_forall_reaches h ns (keysOnce_below hms hbelow)).1 (hP hbelow)
  · intro hQ hbelow
    exact (iff_forall_reaches h ns (keysOnce_below hms hbelow)).2 (hQ hbelow)
termination_by sizeOf ms
decreasing_by all_goals exact sizeOf_below hbelow

/-! ### Cards that are named by too many digits -/

/-- The text under `source-table` does not name a card by too many digits. -/
def Short (ms : Members) : Prop :=
  ∀ s, Members.get? ms "source-table" = some (.str s) → excessDigits? s = none

/-- A member is not refused. -/
def Passes (m : String × Json) : Prop :=
  (m.1 = "source-table" → m.2.str?.bind excessDigits? = none) ∧
    (m.1 = "source-query" → checkInner m.2 = .ok ()) ∧ (m.1 = "joins" → checkJoins m.2 = .ok ())

theorem checkSources_cons_eq_ok {m : String × Json} :
    checkSources (m :: ms) = .ok () ↔ Passes m ∧ checkSources ms = .ok () := by
  obtain ⟨key, v⟩ := m
  rw [checkSources, Passes]
  by_cases htable : key = "source-table"
  · subst htable
    cases v.str?.bind excessDigits? with
    | none => simp
    | some n => simp [check_bind_eq_ok, throw, throwThe, MonadExceptOf.throw]
  · by_cases hquery : key = "source-query"
    · subst hquery
      simp [check_bind_eq_ok]
    · by_cases hjoins : key = "joins"
      · subst hjoins
        simp [check_bind_eq_ok]
      · simp [htable, hquery, hjoins]

theorem checkSources_eq_ok : checkSources ms = .ok () ↔ ∀ m ∈ ms, Passes m := by
  induction ms with
  | nil => exact ⟨fun _ _ hm => (nomatch hm), fun _ => rfl⟩
  | cons m ms ih => rw [checkSources_cons_eq_ok, ih, List.forall_mem_cons]

theorem checkJoinItems_eq_ok : checkJoinItems vs = .ok () ↔ ∀ v ∈ vs, checkInner v = .ok () := by
  induction vs with
  | nil => exact ⟨fun _ _ hv => (nomatch hv), fun _ => rfl⟩
  | cons v vs ih => rw [checkJoinItems, check_bind_eq_ok, List.forall_mem_cons, ih]

/-- An inner query is refused for itself or for one right below it. -/
theorem checkSources_eq_ok_iff (hms : (Json.obj ms).keysOnce = true) :
    checkSources ms = .ok () ↔ Short ms ∧ ∀ ns, Below ms ns → checkSources ns = .ok () := by
  rw [checkSources_eq_ok]
  have hget {key : String} {v : Json} : Members.get? ms key = some v ↔ (key, v) ∈ ms :=
    Members.get?_eq_some_iff (Json.nodup_of_keysOnce hms)
  constructor
  · intro h
    refine ⟨fun s hs => (h _ (hget.1 hs)).1 rfl, ?_⟩
    rintro ns (hsource | ⟨vs, hjoins, hmem⟩)
    · exact (h _ (hget.1 hsource)).2.1 rfl
    · exact checkJoinItems_eq_ok.1 ((h _ (hget.1 hjoins)).2.2 rfl) _ hmem
  · rintro ⟨hshort, hbelow⟩ ⟨key, v⟩ hm
    refine ⟨?_, ?_, ?_⟩
    · rintro rfl
      cases v with
      | str s => exact hshort s (hget.2 hm)
      | _ => rfl
    · rintro rfl
      cases v with
      | obj ns => exact hbelow ns (.inl (hget.2 hm))
      | _ => rfl
    · rintro rfl
      cases v with
      | arr vs =>
        refine checkJoinItems_eq_ok.2 fun v hv => ?_
        cases v with
        | obj ns => exact hbelow ns (.inr ⟨vs, hget.2 hm, hv⟩)
        | _ => rfl
      | _ => rfl

/-! ### One level -/

/-- An inner query of which all is kept: nothing stands for the whole of it, it has one source, and a
card is named by the digits with which it is written. -/
structure Plain (ms : Members) : Prop where
  unwrapped : Members.get? ms rawKey = none
  oneSource : Members.get? ms "source-table" = none ∨ Members.get? ms "source-query" = none
  canonical : ∀ s n, Members.get? ms "source-table" = some (.str s) → namedCard? s = some n →
    s = "card__" ++ Text.ofNat n

/-- An inner query as it is written if no id is replaced. -/
def written (ms : Members) : Json := Role.query.image .same (.obj ms)

theorem written_eq (ms : Members) : written ms = (ofMembers ms).toJson := by
  rw [written, Role.image, mapIds_same]
  rfl

/-- Joins are written alike if each of them is. -/
theorem alike_joins (h : ∀ ns, .obj ns ∈ vs → Json.Alike (written ns) (.obj ns)) :
    Json.Alike (Role.joins.image .same (.arr vs)) (.arr vs) := by
  have hitem {v : Json} (hv : v ∈ vs) : Json.Alike (Role.query.image .same v) v := by
    cases v with
    | obj ns => exact h ns hv
    | _ => exact .refl _
  rw [Json.alike_iff]
  refine ⟨rfl, fun s => ?_⟩
  cases s with
  | key key => exact .none
  | item n =>
    change Option.Rel Json.Alike (vs.map (Role.query.image .same))[n]? vs[n]?
    rw [List.getElem?_map]
    cases hn : vs[n]? with
    | none => exact .none
    | some v => exact .some (hitem (List.mem_of_getElem? hn))

/-- A text that names a card is written with the digits of its number. -/
theorem image_source_card {s : String} {n : Nat} (h : namedCard? s = some n) :
    Role.source.image .same (.str s) = .str ("card__" ++ Text.ofNat n) := by
  have hsource : Source.ofTable (.str s) = .card (.int n) := by rw [Source.ofTable, h]
  rw [Role.image, hsource, ← Source.cardText_natCast]
  rfl

/-- The source of a plain query is written as it is. -/
theorem Plain.image_source (h : Plain ms) (hget : Members.get? ms "source-table" = some v) :
    Role.source.image .same v = v := by
  cases v with
  | str s =>
    cases hcard : namedCard? s with
    | none =>
      have hsource : Source.ofTable (.str s) = .table (.str s) := by rw [Source.ofTable, hcard]
      rw [Role.image, hsource]
      rfl
    | some n => rw [image_source_card hcard, ← h.canonical s n hget hcard]
  | int n => rfl
  | bool b => rfl
  | _ => rfl

/-- A member of a plain query is written alike if the inner queries below it are. -/
theorem Plain.alike_memberImage (h : Plain ms) (hget : Members.get? ms key = some v)
    (hbelow : ∀ ns, Below ms ns → Json.Alike (written ns) (.obj ns)) :
    Json.Alike (memberImage .same (key, v)).2 v := by
  unfold memberImage
  split
  · rename_i hread
    change Json.Alike ((Role.ofKey key).image .same v) v
    cases hsource : isSourceKey key with
    | true =>
      rw [isSourceKey, Bool.or_eq_true, beq_iff_eq, beq_iff_eq] at hsource
      rcases hsource with rfl | rfl
      · change Json.Alike (Role.source.image .same v) v
        rw [h.image_source hget]
        exact .refl v
      · cases v with
        | obj ns => exact hbelow ns (.inl hget)
        | _ => cases hread
    | false =>
      by_cases hjoins : key = "joins"
      · subst hjoins
        cases v with
        | arr vs => exact alike_joins fun ns hmem => hbelow ns (.inr ⟨vs, hget, hmem⟩)
        | _ => cases hread
      · have hrole : Role.ofKey key = .expressions ∨ Role.ofKey key = .clause := by
          by_cases hexpressions : key = "expressions"
          · exact .inl (by rw [hexpressions]; rfl)
          · exact .inr (ofKey_other hsource hjoins hexpressions)
        have himage : (Role.ofKey key).image .same v = v := by
          rcases hrole with hrole | hrole
          all_goals
            rw [hrole]
            exact Role.image_same (by decide) (by decide) (by decide) v
        rw [himage]
        exact .refl v
  · exact .refl v

/-- Of the two keys for a source one is left out. -/
theorem exists_drops (htable : Members.get? ms "source-table" = some v) :
    drops ms "source-table" = true ∨ drops ms "source-query" = true := by
  have hsource : source? ms ≠ none := by
    intro hnone
    have hnil : ms.filter isSource = [] := List.getLast?_eq_none_iff.1 hnone
    exact List.filter_eq_nil_iff.1 hnil _ (Members.mem_of_get? htable) rfl
  obtain ⟨m, hm⟩ := Option.ne_none_iff_exists'.1 hsource
  unfold drops
  rw [hm, Option.any_some, Option.any_some]
  by_cases hkey : m.1 = "source-table"
  · right
    rw [hkey]
    rfl
  · left
    rw [bne_iff_ne.2 hkey]
    rfl

/-- An inner query that is written alike is plain. -/
theorem plain_of_alike (hms : (Json.obj ms).keysOnce = true)
    (h : Json.Alike (written ms) (.obj ms)) : Plain ms := by
  have hnodup := Json.nodup_of_keysOnce hms
  have hraw : raw? ms = none := by
    cases hraw : raw? ms with
    | none => rfl
    | some u =>
      rw [written, image_query_raw .same hraw] at h
      exact absurd h (Json.not_alike_part (s := .key rawKey) hraw)
  have hkept {key : String} {v : Json} (hget : Members.get? ms key = some v) :
      drops ms key = false := by
    obtain ⟨v', hv', -⟩ := h.exists_part (s := .key key) hget
    rw [written, part?_image_query .same hnodup hraw] at hv'
    cases hdrops : drops ms key with
    | false => rfl
    | true =>
      rw [hdrops] at hv'
      cases hv'
  refine ⟨hraw, ?_, ?_⟩
  · by_contra hboth
    rw [not_or, ← Ne, ← Ne, Option.ne_none_iff_exists', Option.ne_none_iff_exists'] at hboth
    obtain ⟨⟨v, hv⟩, w, hw⟩ := hboth
    rcases exists_drops hv with hdrops | hdrops
    · rw [hkept hv] at hdrops
      cases hdrops
    · rw [hkept hw] at hdrops
      cases hdrops
  · intro s n hget hcard
    obtain ⟨v', hv', halike⟩ := h.exists_part (s := .key "source-table") hget
    rw [written, part?_image_query .same hnodup hraw, hkept hget, hget] at hv'
    have hv' : Role.source.image .same (.str s) = v' := Option.some.inj hv'
    rw [← hv', image_source_card hcard] at halike
    have houtline := Option.some.inj (halike [])
    exact (Json.str.inj houtline).symm

/-- The part of a plain query under a key is written in its place. -/
theorem Plain.part?_written (h : Plain ms) (hms : (Json.obj ms).keysOnce = true) (key : String) :
    (written ms).part? (.key key) =
      (Members.get? ms key).map fun v => (memberImage .same (key, v)).2 := by
  rw [written, part?_image_query .same (Json.nodup_of_keysOnce hms) h.unwrapped]
  cases hget : Members.get? ms key with
  | none => exact ite_self _
  | some v => rw [drops_eq_false h.oneSource hget, if_neg Bool.false_ne_true]

/-- One level: an inner query is written alike exactly if it is plain and the inner queries right
below it are written alike. -/
theorem alike_written_iff (ms : Members) (hms : (Json.obj ms).keysOnce = true) :
    Json.Alike (written ms) (.obj ms) ↔
      Plain ms ∧ ∀ ns, Below ms ns → Json.Alike (written ns) (.obj ns) := by
  constructor
  · intro h
    have hplain := plain_of_alike hms h
    refine ⟨hplain, ?_⟩
    rintro ns (hget | ⟨vs, hget, hmem⟩)
    · have hwritten := hplain.part?_written hms "source-query"
      rw [hget] at hwritten
      exact h.part hwritten hget
    · have hwritten := hplain.part?_written hms "joins"
      rw [hget] at hwritten
      have hjoins : Json.Alike (.arr (vs.map (Role.query.image .same))) (.arr vs) :=
        h.part hwritten hget
      obtain ⟨n, hn⟩ := List.getElem?_of_mem hmem
      refine hjoins.part (s := .item n) ?_ hn
      change (vs.map (Role.query.image .same))[n]? = _
      rw [List.getElem?_map, hn]
      rfl
  · rintro ⟨hplain, hbelow⟩
    rw [Json.alike_iff]
    constructor
    · rw [written, image_query .same (Json.nodup_of_keysOnce hms) hplain.unwrapped]
      rfl
    · intro s
      cases s with
      | item n =>
        rw [written, image_query .same (Json.nodup_of_keysOnce hms) hplain.unwrapped]
        exact .none
      | key key =>
        rw [hplain.part?_written hms]
        change Option.Rel _ _ (Members.get? ms key)
        cases hget : Members.get? ms key with
        | none => exact .none
        | some v => exact .some (hplain.alike_memberImage hget hbelow)

end InnerQuery

namespace StructuredQuery

open InnerQuery (Reaches Plain Short written)

/-! ### The whole query -/

/-- Reads a structured query and writes it. -/
def roundTrip (q : Members) : Except Fault Members := do
  check q
  return (ofMembers q).toMembers

variable {q ms : Members} {key : String}

/-- What stands under a key of a query that is written. -/
theorem get?_toMembers (t : StructuredQuery) (h : t.extra = (ofMembers q).extra) (key : String) :
    Members.get? t.toMembers key =
      if key = "database" then some t.database
      else if key = "query" then some t.query.toJson
      else Members.get? q key := by
  have hextra : Members.get? t.extra key =
      if key != "database" && key != "query" then Members.get? q key else none := by
    rw [h]
    exact Members.get?_filter_key fun key => key != "database" && key != "query"
  unfold Members.get? at hextra ⊢
  rw [toMembers, List.cons_append, List.lookup_cons, List.lookup_append, hextra]
  by_cases hdatabase : key = "database"
  · subst hdatabase
    rfl
  · rw [if_neg hdatabase, beq_eq_false_iff_ne.2 hdatabase, bne_iff_ne.2 hdatabase]
    by_cases hquery : key = "query"
    · subst hquery
      rfl
    · rw [if_neg hquery, bne_iff_ne.2 hquery, List.lookup_cons, beq_eq_false_iff_ne.2 hquery]
      exact Option.or_none

theorem query_toJson (h : Members.get? q "query" = some (.obj ms)) :
    (ofMembers q).query.toJson = written ms := by
  rw [ofMembers, h, InnerQuery.written_eq]
  rfl

/-- What is written for an inner query is an object, so it is alike only if there was one. -/
theorem exists_inner_of_alike (h : Json.Alike (.obj (ofMembers q).toMembers) (.obj q)) :
    ∃ ms, Members.get? q "query" = some (.obj ms) ∧ Json.Alike (written ms) (.obj ms) := by
  have hquery := (Json.alike_iff.1 h).2 (.key "query")
  have hwritten : Json.part? (.obj (ofMembers q).toMembers) (.key "query") = _ :=
    get?_toMembers _ rfl "query"
  rw [hwritten] at hquery
  cases hget : Members.get? q "query" with
  | none =>
    have hnone : Json.part? (.obj q) (.key "query") = none := hget
    rw [hnone] at hquery
    cases hquery
  | some v =>
    have halike := h.part hwritten hget
    cases v with
    | obj ms =>
      change Json.Alike (ofMembers q).query.toJson (.obj ms) at halike
      rw [query_toJson hget] at halike
      exact ⟨ms, rfl, halike⟩
    | _ =>
      change Json.Alike (ofMembers q).query.toJson _ at halike
      rw [ofMembers, hget] at halike
      cases halike []

/-- A structured query is written alike exactly if it has a database, and an inner query that is
written alike. -/
theorem alike_toMembers_iff : Json.Alike (.obj (ofMembers q).toMembers) (.obj q) ↔
    (Members.get? q "database").isSome = true ∧
      ∃ ms, Members.get? q "query" = some (.obj ms) ∧ Json.Alike (written ms) (.obj ms) := by
  have hget (key : String) : Json.part? (.obj (ofMembers q).toMembers) (.key key) = _ :=
    get?_toMembers _ rfl key
  constructor
  · intro h
    refine ⟨?_, exists_inner_of_alike h⟩
    have hdatabase := (Json.alike_iff.1 h).2 (.key "database")
    rw [hget] at hdatabase
    cases hdb : Members.get? q "database" with
    | some v => rfl
    | none =>
      have hnone : Json.part? (.obj q) (.key "database") = none := hdb
      rw [hnone] at hdatabase
      cases hdatabase
  · rintro ⟨hdatabase, ms, hquery, halike⟩
    rw [Json.alike_iff]
    refine ⟨rfl, fun s => ?_⟩
    cases s with
    | item n => exact .none
    | key key =>
      rw [hget]
      change Option.Rel _ _ (Members.get? q key)
      split
      · rename_i hkey
        subst hkey
        obtain ⟨v, hv⟩ := Option.isSome_iff_exists.1 hdatabase
        rw [ofMembers, hv]
        exact .some (.refl v)
      · split
        · rename_i hkey
          subst hkey
          rw [query_toJson hquery, hquery]
          exact .some halike
        · cases Members.get? q key with
          | none => exact .none
          | some v => exact .some (.refl v)

theorem roundTrip_eq_ok {q' : Members} :
    roundTrip q = .ok q' ↔ check q = .ok () ∧ (ofMembers q).toMembers = q' := by
  rw [roundTrip, check_bind_eq_ok]
  exact and_congr_right fun _ => ⟨fun h => Except.ok.inj h, fun h => congrArg Except.ok h⟩

theorem check_eq_ok_iff (hq : (Json.obj q).keysOnce = true)
    (hquery : Members.get? q "query" = some (.obj ms)) :
    check q = .ok () ↔ ∀ ns, Reaches ms ns → Short ns := by
  have hms : (Json.obj ms).keysOnce = true := Json.keysOnce_of_part? (s := .key "query") hq hquery
  have hcheck : check q = InnerQuery.checkSources ms := by
    rw [check, hquery]
    rfl
  rw [hcheck]
  exact InnerQuery.iff_forall_reaches (fun _ => InnerQuery.checkSources_eq_ok_iff) ms hms

/-- **When a query is given back.** A structured query is read and written as an equal document exactly
if it has a database, its inner query is an object, and each inner query that is reached is plain and
names no card by too many digits. -/
theorem roundTrip_alike_iff (hq : (Json.obj q).keysOnce = true) :
    (∃ q', roundTrip q = .ok q' ∧ Json.Alike (.obj q') (.obj q)) ↔
      (Members.get? q "database").isSome = true ∧
        ∃ ms, Members.get? q "query" = some (.obj ms) ∧ ∀ ns, Reaches ms ns → Plain ns ∧ Short ns := by
  have hplain {ms : Members} (hquery : Members.get? q "query" = some (.obj ms)) :
      Json.Alike (written ms) (.obj ms) ↔ ∀ ns, Reaches ms ns → Plain ns :=
    InnerQuery.iff_forall_reaches InnerQuery.alike_written_iff ms
      (Json.keysOnce_of_part? (s := .key "query") hq hquery)
  constructor
  · rintro ⟨q', h, halike⟩
    obtain ⟨hcheck, rfl⟩ := roundTrip_eq_ok.1 h
    obtain ⟨hdatabase, ms, hquery, hwritten⟩ := alike_toMembers_iff.1 halike
    refine ⟨hdatabase, ms, hquery, fun ns hreaches => ⟨?_, ?_⟩⟩
    · exact (hplain hquery).1 hwritten ns hreaches
    · exact (check_eq_ok_iff hq hquery).1 hcheck ns hreaches
  · rintro ⟨hdatabase, ms, hquery, h⟩
    refine ⟨_, roundTrip_eq_ok.2 ⟨?_, rfl⟩, alike_toMembers_iff.2 ⟨hdatabase, ms, hquery, ?_⟩⟩
    · exact (check_eq_ok_iff hq hquery).2 fun ns hreaches => (h ns hreaches).2
    · exact (hplain hquery).2 fun ns hreaches => (h ns hreaches).1

/-! ### Queries of a card -/

/-- An inner query whose source is a card. -/
def cardMembers (n : Nat) : Members := [("source-table", .str ("card__" ++ Text.ofNat n))]

/-- A query of a card. -/
def cardQuery (n : Nat) : Members := [("database", .int 1), ("query", .obj (cardMembers n))]

theorem keysOnce_cardQuery (n : Nat) : (Json.obj (cardQuery n)).keysOnce = true := rfl

theorem forall_reaches_cardMembers {P : Members → Prop} {n : Nat} :
    (∀ ns, Reaches (cardMembers n) ns → P ns) ↔ P (cardMembers n) := by
  rw [InnerQuery.forall_reaches_iff]
  refine and_iff_left ?_
  rintro ns (hsource | ⟨vs, hjoins, -⟩)
  · cases hsource
  · cases hjoins

theorem plain_cardMembers (n : Nat) : Plain (cardMembers n) where
  unwrapped := rfl
  oneSource := .inr rfl
  canonical s m hget hcard := by
    cases hget
    rw [Source.namedCard?_ofNat] at hcard
    cases hcard
    rfl

theorem short_cardMembers_iff {n : Nat} : Short (cardMembers n) ↔ n < 10 ^ Text.digitLimit := by
  rw [← Source.excessDigits?_ofNat]
  constructor
  · intro h
    exact h _ rfl
  · intro h s hs
    cases hs
    exact h

/-- The query of card 12 is given back. -/
theorem roundTrip_alike_iff_cardQuery : (Json.obj (cardQuery 12)).keysOnce = true ∧
    ∃ q', roundTrip (cardQuery 12) = .ok q' ∧ Json.Alike (.obj q') (.obj (cardQuery 12)) := by
  refine ⟨keysOnce_cardQuery 12, (roundTrip_alike_iff (keysOnce_cardQuery 12)).2 ⟨rfl, _, rfl, ?_⟩⟩
  refine forall_reaches_cardMembers.2 ⟨plain_cardMembers 12, short_cardMembers_iff.2 ?_⟩
  exact Nat.lt_of_lt_of_le (by decide : 12 < 10 ^ 2) (Nat.pow_le_pow_right (by decide) (by decide))

/-- The query of a card whose number has a digit too many is refused, though it is plain. -/
theorem longQuery_refused :
    ¬((∃ q', roundTrip (cardQuery (10 ^ Text.digitLimit)) = .ok q' ∧
        Json.Alike (.obj q') (.obj (cardQuery (10 ^ Text.digitLimit)))) ↔
      (Members.get? (cardQuery (10 ^ Text.digitLimit)) "database").isSome = true ∧
        ∃ ms, Members.get? (cardQuery (10 ^ Text.digitLimit)) "query" = some (.obj ms) ∧
          ∀ ns, Reaches ms ns → Plain ns) := by
  intro h
  obtain ⟨q', hq', -⟩ := h.2 ⟨rfl, _, rfl, forall_reaches_cardMembers.2 (plain_cardMembers _)⟩
  have hcheck := (roundTrip_eq_ok.1 hq').1
  rw [check_eq_ok_iff (keysOnce_cardQuery _) rfl, forall_reaches_cardMembers,
    short_cardMembers_iff] at hcheck
  exact Nat.lt_irrefl _ hcheck

end StructuredQuery
end CardTransfer
