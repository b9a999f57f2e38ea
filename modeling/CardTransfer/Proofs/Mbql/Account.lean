import CardTransfer.Proofs.Mbql.Replacement
import CardTransfer.Proofs.Mbql.RoundTrip
import CardTransfer.Proofs.Mbql.Visit
import CardTransfer.Proofs.Steps
import CardTransfer.Session.Rendering

/-!
# What a transfer changes and reports

The transfer of a structured query writes what reading and writing alone would write, except at the
places of the visit: there each id gives way to its counterpart if it has one. Every id of the visit
without counterpart is reported: by a warning, in the order of the visit, and in the list of its kind,
in which a table or a field stands once and a card as often as it is met (`transfer_accounts`).

That nothing else changes is proved place by place, for any two replacements (`shows_image`): a part
that is no id looks the same in its image (`image_frame`), and its parts are written as images in their
roles or as they are.
-/

namespace CardTransfer

open Json (Step)

/-! ### Ids by their first spelling -/

/-- The ids that are kept of equal ones are the first. -/
theorem Ids.distinct_eq (ids : Ids) : ids.distinct = ids.eraseDupsBy Json.sameId := by
  have hloop (found : Ids) : ids.foldl add found = List.eraseDupsBy.loop Json.sameId ids found.reverse := by
    induction ids generalizing found with
    | nil => rw [List.foldl_nil, List.eraseDupsBy.loop, List.reverse_reverse]
    | cons a ids ih =>
      have hhas : found.has a = found.reverse.any (a.sameId ·) := by
        rw [has, List.any_reverse]
        congr 1
        funext b
        rw [Json.sameId, Json.sameId, Bool.beq_comm]
      rw [List.foldl_cons, List.eraseDupsBy.loop, ih, add, hhas]
      cases found.reverse.any (a.sameId ·) with
      | true => rfl
      | false => simp
  exact hloop []

/-! ### Uses -/

namespace IdUse

/-- The id that is used. -/
def id : IdUse → Json
  | table id => id
  | card id => id
  | field id => id
  | sourceField id => id

/-- How an id is written in a use: a card that is a source by its text, any other as it is. -/
def write : IdUse → Json → Json
  | card _, id => .str (Source.cardText id)
  | _, id => id

/-- What takes the place of the id that is used, if there is something. -/
def counterpart? (c : Correspondence) (cards : IdMap Json) : IdUse → Option Json
  | table id => c.resolveTable id
  | card id => (IdMap.get? cards id).bind Json.toOption
  | field id => c.resolveField id
  | sourceField id => c.resolveField id

/-- The id that a change puts in the place of the one that is used. -/
def changed (f : IdChange) : IdUse → Json
  | table id => f.table id
  | card id => f.card id
  | field id => f.field id
  | sourceField id => f.field id

theorem changed_same (u : IdUse) : u.changed .same = u.id := by
  cases u <;> rfl

theorem changed_change (c : Correspondence) (cards : IdMap Json) (u : IdUse) :
    u.changed (StructuredTransfer.change c cards) = (u.counterpart? c cards).getD u.id := by
  cases u <;> rfl

theorem isGap_eq (c : Correspondence) (cards : IdMap Json) (u : IdUse) :
    StructuredTransfer.isGap c cards u = (u.counterpart? c cards).isNone := by
  cases u <;> rfl

end IdUse

namespace Role

variable {r : Role} {v w : Json} {u : IdUse} {f g : IdChange} {s : Step} {p : List Step}

/-- An id is written as what takes its place. -/
theorem image_of_use? (h : r.use? v = some u) (f : IdChange) :
    r.image f v = u.write (u.changed f) := by
  have hint {g : Json → Json} {use : Json → IdUse}
      (h : (if v.isInt then some (use v) else none) = some u) :
      changed g v = g v ∧ use v = u := by
    cases hv : v.isInt with
    | true =>
      rw [hv] at h
      exact ⟨by rw [changed, if_pos hv], Option.some.inj h⟩
    | false =>
      rw [hv] at h
      cases h
  cases r with
  | source =>
    cases v with
    | str s =>
      obtain ⟨n, hn, rfl⟩ := Option.map_eq_some_iff.1 h
      have hsource : Source.ofTable (.str s) = .card (.int n) := by rw [Source.ofTable, hn]
      rw [image, hsource]
      rfl
    | int n =>
      cases h
      rfl
    | bool b =>
      cases h
      rfl
    | _ => cases h
  | field =>
    obtain ⟨hchanged, rfl⟩ := hint (g := f.field) h
    exact hchanged
  | sourceField =>
    obtain ⟨hchanged, rfl⟩ := hint (g := f.field) h
    exact hchanged
  | _ => cases v <;> cases h

/-- A source that is neither an integer nor the text of a card stays as it is. -/
theorem image_source_of_use? (h : source.use? v = none) (f : IdChange) : source.image f v = v := by
  cases v with
  | str s =>
    have hcard : namedCard? s = none := Option.map_eq_none_iff.1 h
    have hsource : Source.ofTable (.str s) = .table (.str s) := by rw [Source.ofTable, hcard]
    rw [image, hsource]
    rfl
  | int n => cases h
  | bool b => cases h
  | _ => rfl

theorem changed_of_not_int {use : Json → IdUse} (h : (if v.isInt then some (use v) else none) = none)
    (g : Json → Json) : changed g v = v := by
  cases hv : v.isInt with
  | true =>
    rw [hv] at h
    cases h
  | false => rw [changed, if_neg (by rw [hv]; exact Bool.false_ne_true)]

/-- The image of a list of clauses is a list of the same length. -/
theorem image_clause_arr (f : IdChange) (vs : List Json) :
    ∃ ws, clause.image f (.arr vs) = .arr ws ∧ ws.length = vs.length := by
  cases hnames : Clause.namesField vs with
  | true =>
    obtain ⟨op, id, rest, rfl, hread⟩ := Clause.ofJson_arr_field hnames
    refine ⟨_, by rw [image, hread, Clause.mapFields, Clause.toJson], ?_⟩
    cases rest with
    | nil => rfl
    | cons v more =>
      rw [mapOption_cons]
      rfl
  | false => exact ⟨_, Clause.toJson_mapFields_arr hnames f.field, List.length_map _⟩

/-- A part that is no id looks the same in its image, which has no other parts. -/
theorem image_frame (hv : v.keysOnce = true) (hraw : r.raw? v = none) (huse : r.use? v = none)
    (f : IdChange) : (r.image f v).outline = v.outline ∧
      ∀ s, v.part? s = none → (r.image f v).part? s = none := by
  have hself (h : r.image f v = v) : (r.image f v).outline = v.outline ∧
      ∀ s, v.part? s = none → (r.image f v).part? s = none := by
    rw [h]
    exact ⟨rfl, fun _ hs => hs⟩
  have hitems {vs ws : List Json} (hlength : ws.length = vs.length) (s : Step)
      (hs : (Json.arr vs).part? s = none) : (Json.arr ws).part? s = none := by
    cases s with
    | key key => rfl
    | item n =>
      change ws[n]? = none
      rw [List.getElem?_eq_none_iff, hlength]
      exact List.getElem?_eq_none_iff.1 hs
  cases r with
  | query =>
    cases v with
    | obj ms =>
      have hms := Json.nodup_of_keysOnce hv
      refine ⟨by rw [InnerQuery.image_query f hms hraw]; rfl, fun s hs => ?_⟩
      cases s with
      | key key =>
        have hget : Members.get? ms key = none := hs
        rw [InnerQuery.part?_image_query f hms hraw, hget]
        exact ite_self _
      | item n =>
        rw [InnerQuery.image_query f hms hraw]
        rfl
    | _ => exact hself rfl
  | joins =>
    cases v with
    | arr vs => exact ⟨rfl, hitems (List.length_map _)⟩
    | _ => exact hself rfl
  | source => exact hself (image_source_of_use? huse f)
  | expressions =>
    cases v with
    | obj es =>
      refine ⟨rfl, fun s hs => ?_⟩
      cases s with
      | item n => rfl
      | key key =>
        have hget : Members.get? es key = none := hs
        change Members.get? (es.map fun e => (e.1, clause.image f e.2)) key = none
        rw [Members.get?_map, hget]
        rfl
    | _ => exact hself rfl
  | clause =>
    cases v with
    | arr vs =>
      obtain ⟨ws, hws, hlength⟩ := image_clause_arr f vs
      rw [hws]
      exact ⟨rfl, hitems hlength⟩
    | _ => exact hself rfl
  | field => exact hself (changed_of_not_int huse f.field)
  | options =>
    cases v with
    | obj ms =>
      rw [image]
      cases hget : Members.get? ms Clause.sourceFieldKey with
      | none => exact ⟨rfl, fun _ hs => hs⟩
      | some w =>
        refine ⟨rfl, fun s hs => ?_⟩
        cases s with
        | item n => rfl
        | key key =>
          have hnone : Members.get? ms key = none := hs
          have hne : key ≠ Clause.sourceFieldKey := by
            rintro rfl
            rw [hget] at hnone
            cases hnone
          exact (Members.get?_insert_of_ne ms _ hne).trans hnone
    | _ => exact hself rfl
  | sourceField => exact hself (changed_of_not_int huse f.field)

/-- A place that is not at or below one of the visit is a place of a part that is no id. -/
theorem use?_of_avoids (hv : v.keysOnce = true)
    (hp : ∀ visit ∈ r.visits v, (r.at? v visit.1).isSome = true → ¬ visit.1 <+: p) :
    r.use? v = none := by
  cases huse : r.use? v with
  | none => rfl
  | some u =>
    have hvisit : ([], u) ∈ r.visits v := mem_visits hv rfl rfl huse
    exact absurd List.nil_prefix (hp _ hvisit rfl)

/-- **Two replacements write the same except at the places of the visit.** -/
theorem shows_image (hv : v.keysOnce = true)
    (hp : ∀ visit ∈ r.visits v, (r.at? v visit.1).isSome = true → ¬ visit.1 <+: p) :
    (r.image f v).shows p = (r.image g v).shows p := by
  induction p generalizing r v with
  | nil =>
    have huse := use?_of_avoids hv hp
    cases hraw : r.raw? v with
    | some x => rw [image_eq_of_raw? hraw, image_eq_of_raw? hraw]
    | none =>
      rw [Json.shows_nil, Json.shows_nil, (image_frame hv hraw huse f).1,
        (image_frame hv hraw huse g).1]
  | cons s p ih =>
    have huse := use?_of_avoids hv hp
    cases hraw : r.raw? v with
    | some x => rw [image_eq_of_raw? hraw, image_eq_of_raw? hraw]
    | none =>
      rw [Json.shows_cons, Json.shows_cons]
      cases hw : v.part? s with
      | none => rw [(image_frame hv hraw huse f).2 s hw, (image_frame hv hraw huse g).2 s hw]
      | some w =>
        rw [part?_image hv hraw hw, part?_image hv hraw hw]
        cases r.drops v s with
        | true => rfl
        | false =>
          cases hr : r.part? v s with
          | none => rfl
          | some r' =>
            refine ih (Json.keysOnce_of_part? hv hw) fun visit hvisit hrole hpre => ?_
            have hmem : (s :: visit.1, visit.2) ∈ r.visits v := by
              rw [visits_eq, List.mem_append, List.mem_flatMap]
              refine .inr ⟨(s, r', w), (mem_parts_iff hv hraw).2 ⟨hr, hw⟩, ?_⟩
              exact List.mem_map.2 ⟨visit, hvisit, rfl⟩
            refine hp _ hmem ?_ ((List.cons_prefix_cons).2 ⟨rfl, hpre⟩)
            rw [at?, hr, hw]
            exact hrole

end Role

/-! ### The transfer -/

namespace StructuredQuery

/-- The inner query of a structured query; the empty one if it has none. -/
def inner (q : Members) : Json :=
  match Members.get? q "query" with
  | some (.obj ms) => .obj ms
  | _ => .obj []

variable {q : Members}

theorem query_eq (q : Members) : (ofMembers q).query = InnerQuery.join (inner q) := by
  unfold ofMembers inner
  cases Members.get? q "query" with
  | none => rfl
  | some v => cases v <;> rfl

theorem keysOnce_inner (hq : (Json.obj q).keysOnce = true) : (inner q).keysOnce = true := by
  unfold inner
  split
  · rename_i ms hget
    exact Json.keysOnce_of_part? (s := .key "query") hq hget
  · rfl

/-- The ids of a query as it is visited: the source, the joins, the clauses, the expressions. -/
def visits (q : Members) : List (List Step × IdUse) := Role.query.visits (inner q)

/-- Whether the id that is met at a place is written there. -/
def Writes (q : Members) (p : List Step) : Prop := (Role.query.at? (inner q) p).isSome = true

end StructuredQuery

namespace StructuredTransfer

variable {c : Correspondence} {cards : IdMap Json} {source target : Int} {q : Members}

/-- The ids of a visit without counterpart. -/
def gaps (c : Correspondence) (cards : IdMap Json) (q : Members) : List IdUse :=
  ((StructuredQuery.visits q).map (·.2)).filter fun u => (u.counterpart? c cards).isNone

/-- What the transfer of a query changes and reports. `kept` is the query as it is read and written
without a transfer. -/
structure Accounts (c : Correspondence) (cards : IdMap Json) (source target : Int) (q kept : Members)
    (t : StructuredTransfer) : Prop where
  /-- Nothing changes but the database and the ids that are met. -/
  elsewhere : Json.AgreeOff
    {p | p = [.key "database"] ∨ ∃ visit ∈ StructuredQuery.visits q,
      StructuredQuery.Writes q visit.1 ∧ p = .key "query" :: visit.1}
    (.obj t.query) (.obj kept)
  /-- An id that is met gives way to its counterpart, and stays if it has none. -/
  ids : ∀ p u, (p, u) ∈ StructuredQuery.visits q → StructuredQuery.Writes q p →
    (Json.obj kept).at? (.key "query" :: p) = some (u.write u.id) ∧
      (Json.obj t.query).at? (.key "query" :: p) =
        some (u.write ((u.counterpart? c cards).getD u.id))
  /-- No place is met twice. -/
  once : ((StructuredQuery.visits q).map (·.1)).Nodup
  /-- The source database gives way to the target. -/
  database : ∃ v, Members.get? kept "database" = some v ∧ Members.get? t.query "database" =
    some (if v.sameId (.int source) then .int target else v)
  /-- Each gap gives one warning, and so does an unexpected database. -/
  warnings : ∃ v, Members.get? kept "database" = some v ∧ t.warnings =
    (if v.sameId (.int source) || v.sameId (.int target) then []
      else ["Query uses database " ++ v.shown ++ ", expected source database "
        ++ Text.ofInt source]) ++ (gaps c cards q).map (warning c)
  /-- Each table without counterpart is listed once. -/
  tables : t.unmatchedTables =
    (((gaps c cards q).filterMap tableOf?).eraseDupsBy Json.sameId).map (unmatchedTable c)
  /-- Each field without counterpart is listed once. -/
  fields : t.unmatchedFields =
    (((gaps c cards q).filterMap fieldOf?).eraseDupsBy Json.sameId).map (unmatchedField c)
  /-- Cards without counterpart are listed as often as they are met. -/
  cards : t.unresolvedCards = (gaps c cards q).filterMap cardOf?

theorem gaps_eq (c : Correspondence) (cards : IdMap Json) (hq : (Json.obj q).keysOnce = true) :
    gaps c cards q =
    (StructuredQuery.ofMembers q).query.idUses.filter (isGap c cards) := by
  have huses : (StructuredQuery.ofMembers q).query.idUses =
      (StructuredQuery.visits q).map (·.2) := by
    rw [StructuredQuery.query_eq, StructuredQuery.visits,
      ← Role.uses_eq_visits .query _ (StructuredQuery.keysOnce_inner hq)]
    rfl
  rw [gaps, huses]
  exact List.filter_congr fun u _ => (u.isGap_eq c cards).symm

/-- What stands under a key after a transfer. -/
theorem get?_ofQuery (c : Correspondence) (cards : IdMap Json) (source target : Int) (q : Members)
    (key : String) : Members.get? (ofQuery c cards source target q).query key =
      if key = "database" then
        some (transferDatabase source target (StructuredQuery.ofMembers q).database).1
      else if key = "query" then
        some (Role.query.image (change c cards) (StructuredQuery.inner q))
      else Members.get? q key := by
  have hquery : ((StructuredQuery.ofMembers q).query.mapIds (change c cards)).toJson =
      Role.query.image (change c cards) (StructuredQuery.inner q) := by
    rw [StructuredQuery.query_eq, Role.image]
  rw [← hquery]
  exact StructuredQuery.get?_toMembers
    ⟨(transferDatabase source target (StructuredQuery.ofMembers q).database).1,
      (StructuredQuery.ofMembers q).query.mapIds (change c cards),
      (StructuredQuery.ofMembers q).extra⟩ rfl key

/-- What stands under a key of a query that is read and written. -/
theorem get?_kept (q : Members) (key : String) :
    Members.get? (StructuredQuery.ofMembers q).toMembers key =
      if key = "database" then some (StructuredQuery.ofMembers q).database
      else if key = "query" then some (Role.query.image .same (StructuredQuery.inner q))
      else Members.get? q key := by
  have hget := StructuredQuery.get?_toMembers (StructuredQuery.ofMembers q) rfl key
  rw [hget, StructuredQuery.query_eq, Role.image, InnerQuery.mapIds_same]

theorem transferDatabase_eq (source target : Int) (v : Json) : transferDatabase source target v =
    (if v.sameId (.int source) then .int target else v,
      if v.sameId (.int source) || v.sameId (.int target) then []
      else ["Query uses database " ++ v.shown ++ ", expected source database "
        ++ Text.ofInt source]) := by
  unfold transferDatabase
  cases v.sameId (.int source) <;> cases v.sameId (.int target) <;> rfl

/-- **A transfer accounts for every id.** -/
theorem accounts_ofQuery (hq : (Json.obj q).keysOnce = true) :
    Accounts c cards source target q (StructuredQuery.ofMembers q).toMembers
      (ofQuery c cards source target q) := by
  have hinner := StructuredQuery.keysOnce_inner hq
  have hdatabase : Members.get? (StructuredQuery.ofMembers q).toMembers "database" =
      some (StructuredQuery.ofMembers q).database := get?_kept q "database"
  have hgaps := gaps_eq c cards hq
  refine
    { elsewhere := ?_
      ids := ?_
      once := Role.nodup_visits .query _ hinner
      database := ⟨_, hdatabase, ?_⟩
      warnings := ⟨_, hdatabase, ?_⟩
      tables := ?_
      fields := ?_
      cards := ?_ }
  · intro p hp
    cases p with
    | nil => rfl
    | cons s p =>
      rw [Json.shows_cons, Json.shows_cons]
      cases s with
      | item n => rfl
      | key key =>
        change (Members.get? _ key).bind _ = (Members.get? _ key).bind _
        rw [get?_ofQuery, get?_kept]
        by_cases hdb : key = "database"
        · subst hdb
          exact absurd (List.prefix_append [Step.key "database"] p) (hp _ (.inl rfl))
        · rw [if_neg hdb, if_neg hdb]
          by_cases hquery : key = "query"
          · subst hquery
            refine Role.shows_image hinner fun visit hvisit hwrites hpre => ?_
            exact hp _ (.inr ⟨visit, hvisit, hwrites, rfl⟩) (List.cons_prefix_cons.2 ⟨rfl, hpre⟩)
          · rw [if_neg hquery, if_neg hquery]
  · intro p u hvisit hwrites
    obtain ⟨r, w, hw, hu, hrole⟩ := Role.use?_of_mem_visits hinner hvisit
    obtain ⟨r', hr'⟩ := Option.isSome_iff_exists.1 hwrites
    cases hrole r' hr'
    have himage (f : IdChange) :
        (Role.query.image f (StructuredQuery.inner q)).at? p = some (u.write (u.changed f)) := by
      rw [Role.at?_image hinner hr' hw, Role.image_of_use? hu]
    constructor
    · have hkept : (Json.obj (StructuredQuery.ofMembers q).toMembers).part? (.key "query") =
          some (Role.query.image .same (StructuredQuery.inner q)) := get?_kept q "query"
      rw [Json.at?, hkept, Option.bind_some, himage, u.changed_same]
    · have hnew : (Json.obj (ofQuery c cards source target q).query).part? (.key "query") =
          some (Role.query.image (change c cards) (StructuredQuery.inner q)) :=
        get?_ofQuery c cards source target q "query"
      rw [Json.at?, hnew, Option.bind_some, himage, u.changed_change]
  · have hnew := get?_ofQuery c cards source target q "database"
    rw [transferDatabase_eq] at hnew
    exact hnew
  · rw [hgaps, ofQuery, transferDatabase_eq]
  · rw [hgaps, ← Ids.distinct_eq]
    rfl
  · rw [hgaps, ← Ids.distinct_eq]
    rfl
  · rw [hgaps]
    rfl

end StructuredTransfer

namespace Session

/-- **What the transfer of a structured query changes and reports.** A transfer fails exactly if reading
the query does, and in the same way. Otherwise it accounts for every id: it writes what reading and
writing the query gives, but for the database and the ids that are met, and reports each id without
counterpart. -/
theorem transferStructured_accounts {q : Members} (hq : (Json.obj q).keysOnce = true)
    (cards : IdMap Json) (s : Session) :
    match StructuredQuery.roundTrip q with
    | .error f => (transferStructured cards q).run s = (.error f, s)
    | .ok kept => ∃ t, (transferStructured cards q).run s = (.ok t, s) ∧
        StructuredTransfer.Accounts s.correspondence cards s.settings.sourceDatabase
          s.settings.targetDatabase q kept t := by
  rw [StructuredQuery.roundTrip, transferStructured, Steps.run_get_bind]
  cases hcheck : StructuredQuery.check q with
  | error f => exact Steps.run_ofExcept_bind_error _ s
  | ok _ => exact ⟨_, Steps.run_ofExcept_bind_ok _ s, StructuredTransfer.accounts_ofQuery hq⟩

/-- A field with a counterpart, and one without, which is met twice. -/
def gapQuery : Members :=
  [("database", .int 1), ("query", .obj [
    ("source-table", .int 5),
    ("fields", .arr [.arr [.str "field", .int 56, .null], .arr [.str "field", .int 57, .null]]),
    ("filter", .arr [.str "=", .arr [.str "field", .int 57, .null], .int 3])])]

/-- A session in which the first of these fields has a counterpart. -/
def gapSession : Session :=
  { (default : Session) with
    settings := { (default : Settings) with sourceDatabase := 1, targetDatabase := 2 }
    correspondence := StructuredTransfer.smallCorrespondence }

/-- The field without counterpart is warned of twice, and listed once. -/
theorem transferStructured_accounts_gapQuery : (Json.obj gapQuery).keysOnce = true ∧
    ∃ kept t, StructuredQuery.roundTrip gapQuery = .ok kept ∧
      (transferStructured [] gapQuery).run gapSession = (.ok t, gapSession) ∧
      StructuredTransfer.Accounts StructuredTransfer.smallCorrespondence [] 1 2 gapQuery kept t ∧
      t.warnings.length = 2 ∧ t.unmatchedFields.length = 1 := by
  have hq : (Json.obj gapQuery).keysOnce = true := by decide +kernel
  have haccounts := transferStructured_accounts hq [] gapSession
  have hkept : StructuredQuery.roundTrip gapQuery =
      .ok (StructuredQuery.ofMembers gapQuery).toMembers := rfl
  rw [hkept] at haccounts
  obtain ⟨t, hrun, ht⟩ := haccounts
  have htransfer : StructuredTransfer.ofQuery StructuredTransfer.smallCorrespondence [] 1 2 gapQuery =
      t := Except.ok.inj (congrArg Prod.fst hrun)
  refine ⟨hq, _, t, hkept, hrun, ht, ?_, ?_⟩
  · rw [← htransfer]
    decide +kernel
  · rw [← htransfer]
    decide +kernel

end Session
end CardTransfer
