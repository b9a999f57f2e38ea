import CardTransfer.Catalog.Description
import CardTransfer.Mbql.Transfer
import CardTransfer.Proofs.Catalog.Correspondence
import CardTransfer.Proofs.Sql.TableName

/-!
# The names of tables in native queries

A structured query names a table by its id, a native query by schema and name. The names are looked up in lower
case, and where several tables have a name that differs in case only, the one that has been mapped last counts
(`lookup_namesPut_iff`). So a name in double quotes is replaced by the name of the table that takes the place of
its own exactly if that is the last of them (`quotedName_replaced_iff`); else the native query reads another table
than the structured one (`otherCase_takes_place`).
-/

namespace CardTransfer
namespace Correspondence

open Sql (IsQuotable Alone TableNames parts textOf written quotedName replaceTables target?)

/-! ### What is found under a name -/

theorem lookup_putName (names : TableNames) (key other : String) (v : Json) :
    (putName names key v).lookup other = if other = key then some v else names.lookup other := by
  induction names with
  | nil =>
    by_cases ho : other = key
    · simp [putName, ho]
    · simp [putName, ho, List.lookup_cons, beq_eq_false_iff_ne.2 ho]
  | cons p names ih =>
    obtain ⟨k, old⟩ := p
    rw [putName]
    by_cases hk : k = key
    · subst hk
      rw [if_pos (beq_self_eq_true k)]
      by_cases ho : other = k
      · simp [ho]
      · simp [List.lookup_cons, beq_eq_false_iff_ne.2 ho, ho]
    · rw [if_neg (by simpa using hk), List.lookup_cons, List.lookup_cons, ih]
      by_cases ho : other = k
      · simp [ho, hk]
      · rw [beq_eq_false_iff_ne.2 ho]

/-- **The last name that is put under a key is found there.** -/
theorem lookup_putNames_iff {puts : List (String × Json)} {key : String} {v : Json} :
    (puts.foldl (fun names p => putName names p.1 p.2) []).lookup key = some v ↔
      ∃ earlier later, puts = earlier ++ (key, v) :: later ∧ ∀ p ∈ later, p.1 ≠ key := by
  induction puts using List.reverseRecOn with
  | nil => simp
  | append_singleton puts p ih =>
    rw [List.foldl_concat, lookup_putName]
    by_cases hkey : key = p.1
    · rw [if_pos hkey]
      constructor
      · rintro ⟨⟩
        exact ⟨puts, [], by rw [hkey], List.forall_mem_nil _⟩
      · rintro ⟨earlier, later, heq, hlater⟩
        cases later using List.reverseRecOn with
        | nil =>
          obtain ⟨-, hp⟩ := List.append_inj' heq rfl
          rw [(List.cons.inj hp).1]
        | append_singleton later q =>
          rw [← List.cons_append, ← List.append_assoc] at heq
          obtain ⟨-, hp⟩ := List.append_inj' heq rfl
          exact absurd (hkey ▸ congrArg Prod.fst (List.cons.inj hp).1.symm) (hlater q (by simp))
    · rw [if_neg hkey, ih]
      constructor
      · rintro ⟨earlier, later, rfl, hlater⟩
        refine ⟨earlier, later ++ [p], by simp, fun q hq => ?_⟩
        rcases List.mem_append.1 hq with hq | hq
        · exact hlater q hq
        · exact List.mem_singleton.1 hq ▸ Ne.symm hkey
      · rintro ⟨earlier, later, heq, hlater⟩
        cases later using List.reverseRecOn with
        | nil =>
          obtain ⟨-, hp⟩ := List.append_inj' heq rfl
          exact absurd (congrArg Prod.fst (List.cons.inj hp).1).symm hkey
        | append_singleton later q =>
          rw [← List.cons_append, ← List.append_assoc] at heq
          exact ⟨earlier, later, (List.append_inj' heq rfl).1, fun r hr => hlater r (by simp [hr])⟩

variable {c : Correspondence} {S U : Table} {key : String} {name : Json}

/-- The names that are replaced. -/
def namesPut (c : Correspondence) : TableNames :=
  (c.tables.filterMap c.tableName?).foldl (fun names p => putName names p.1 p.2) []

/-- The names can be put if all targets can be looked up. -/
theorem tableNames_eq (hids : ∀ p ∈ c.tables, p.2.isCompound = false) : c.tableNames = .ok c.namesPut := by
  have hkeys : ∀ p ∈ c.tables, p.2.asKey = .ok p.2 := by
    intro p hp
    rw [Json.asKey, hids p hp]
    rfl
  rw [tableNames, mapM_eq_ok_map hkeys]
  rfl

/-- Of the tables that have been mapped, the last one whose name in lower case is `key` goes to a table that is
called `name`. -/
def LastNamed (c : Correspondence) (key : String) (name : Json) : Prop :=
  ∃ earlier p later, c.tables = earlier ++ p :: later ∧ c.tableName? p = some (key, name) ∧
    ∀ q ∈ later, ∀ other, c.tableName? q ≠ some (key, other)

/-- **What is found under a name is what the last table that has it goes to.** -/
theorem lookup_namesPut_iff : c.namesPut.lookup key = some name ↔ c.LastNamed key name := by
  rw [namesPut, lookup_putNames_iff]
  constructor
  · rintro ⟨earlier, later, heq, hlater⟩
    obtain ⟨tables, rest, htables, -, hrest⟩ := List.filterMap_eq_append_iff.1 heq
    obtain ⟨skipped, p, tables', rfl, hskipped, hp, rfl⟩ := List.filterMap_eq_cons_iff.1 hrest
    refine ⟨tables ++ skipped, p, tables', by rw [htables, List.append_assoc], hp, fun q hq other hname => ?_⟩
    exact hlater _ (List.mem_filterMap.2 ⟨q, hq, hname⟩) rfl
  · rintro ⟨earlier, p, later, heq, hp, hlater⟩
    refine ⟨earlier.filterMap c.tableName?, later.filterMap c.tableName?, ?_, fun q hq hkey => ?_⟩
    · rw [heq, List.filterMap_append, List.filterMap_cons, hp]
    · obtain ⟨r, hr, hname⟩ := List.mem_filterMap.1 hq
      exact hlater r hr q.2 (by rw [hname, ← hkey])

/-- A table that has been mapped is found under its name, with some target or other. -/
theorem exists_lastNamed {p : Json × Json} (hp : p ∈ c.tables) (hname : c.tableName? p = some (key, name)) :
    ∃ other, c.LastNamed key other := by
  have hput : ((c.tables.filterMap c.tableName?).reverse.find? (·.1 == key)).isSome = true :=
    List.find?_isSome.2 ⟨(key, name), List.mem_reverse.2 (List.mem_filterMap.2 ⟨p, hp, hname⟩), beq_self_eq_true key⟩
  obtain ⟨⟨key', other⟩, hfind⟩ := Option.isSome_iff_exists.1 hput
  obtain ⟨hkey, later, earlier, heq, hlater⟩ := List.find?_eq_some_iff_append.1 hfind
  obtain rfl : key' = key := beq_iff_eq.1 hkey
  refine ⟨other, lookup_namesPut_iff.1 (lookup_putNames_iff.2 ⟨earlier.reverse, later.reverse, ?_, fun q hq => ?_⟩)⟩
  · simpa using congrArg List.reverse heq
  · simpa using hlater q (List.mem_reverse.1 hq)

theorem exists_str_qualifiedName {u : Table} (h : ∃ s, u.name = .str s) : ∃ s, u.qualifiedName = .str s := by
  rw [Table.qualifiedName]
  split
  · exact ⟨_, rfl⟩
  · exact h

/-- All names are texts if those of the target are. -/
theorem LastNamed.exists_str (htexts : ∀ u ∈ c.target.tables, ∃ s, u.name = .str s) (h : c.LastNamed key name) :
    ∃ s, name = .str s := by
  obtain ⟨-, p, -, -, hp, -⟩ := h
  simp only [tableName?, Option.bind_eq_bind, Option.bind_eq_some_iff] at hp
  obtain ⟨s, -, u, hu, hp⟩ := hp
  split at hp
  case isFalse => cases hp
  cases hp
  exact exists_str_qualifiedName (htexts u (mem_of_tableById? hu))

theorem exists_str_of_target? (htexts : ∀ u ∈ c.target.tables, ∃ s, u.name = .str s) {key : List Char} {v : Json}
    (h : target? c.namesPut key = some v) : ∃ s, v = .str s := by
  obtain ⟨w, hw, hv⟩ := Option.bind_eq_some_iff.1 h
  obtain ⟨s, rfl⟩ := (lookup_namesPut_iff.1 hw).exists_str htexts
  exact ⟨s, (Option.some.inj hv).symm⟩

/-! ### In a query -/

/-- A table takes the place of another one. -/
structure TakesPlace (c : Correspondence) (U S : Table) : Prop where
  source : c.source.tableById? S.id = some S
  target : ∃ id, c.resolveTable S.id = some id ∧ c.target.tableById? id = some U

theorem tableById?_congr {catalog : Catalog} {a b : Json} (h : a.key = b.key) :
    catalog.tableById? a = catalog.tableById? b := by
  unfold Catalog.tableById? Json.sameId
  rw [h]

/-- The name of a table that another one takes the place of is put, with the name of that one. -/
theorem TakesPlace.exists_tableName? (h : c.TakesPlace U S) (hschema : S.schema.truthy = true) :
    ∃ p ∈ c.tables, c.tableName? p =
      some (String.ofList (Naming.lowerName S.qualifiedName.shown), U.qualifiedName) := by
  obtain ⟨id, hid, hU⟩ := h.target
  obtain ⟨v, hv, hsome⟩ := Option.bind_eq_some_iff.1 hid
  obtain rfl : v = id := by
    cases v <;> cases hsome <;> rfl
  obtain ⟨⟨key, w⟩, hfind, rfl⟩ := Option.map_eq_some_iff.1 hv
  have hsame : key.sameId S.id = true := List.find?_some (p := fun q : Json × Json => q.1.sameId S.id) hfind
  have hkey : key.key = S.id.key := (Json.sameId_iff _ _).1 hsame
  refine ⟨(key, w), List.mem_of_find?_eq_some hfind, ?_⟩
  simp [tableName?, tableById?_congr hkey, h.source, hU, hschema]

/-- **A name in double quotes is replaced by the name of the table that takes its place exactly if no table of that
name, but for case, has been mapped later and goes to a table of another name.** Its table is read by its id in
a structured query. -/
theorem quotedName_replaced_iff {schema name : String} {before after : List Char} (cards : IdMap Json)
    (hids : ∀ p ∈ c.tables, p.2.isCompound = false)
    (htexts : ∀ u ∈ c.target.tables, ∃ s, u.name = .str s)
    (hplace : c.TakesPlace U S) (hschema : S.schema = .str schema) (hname : S.name = .str name)
    (hquotable : IsQuotable schema.toList ∧ IsQuotable name.toList) (halone : Alone before after)
    (hbreak : Sql.BreaksAfter before (quotedName schema.toList name.toList ++ after)) :
    c.target.tableById? ((StructuredTransfer.change c cards).table S.id) = some U ∧
    ∃ names earlier later, c.tableNames = .ok names ∧
      parts (before ++ (quotedName schema.toList name.toList ++ after)) = earlier ++
        (some (Text.lower (schema.toList ++ '.' :: name.toList)), quotedName schema.toList name.toList) :: later ∧
      textOf earlier = before ∧ textOf later = after ∧
      (replaceTables names (before ++ (quotedName schema.toList name.toList ++ after)) =
          .ok (earlier.flatMap (written names) ++ (U.qualifiedName.shown.toList ++
            later.flatMap (written names))) ↔
        c.LastNamed (String.ofList (Text.lower (schema.toList ++ '.' :: name.toList))) U.qualifiedName) := by
  obtain ⟨id, hid, hU⟩ := hplace.target
  have hstructured : (StructuredTransfer.change c cards).table S.id = id := congrArg (Option.getD · _) hid
  refine ⟨by rw [hstructured, hU], ?_⟩
  have htruthy : S.schema.truthy = true := by
    rw [hschema, Json.truthy, Bool.not_eq_true', String.isEmpty_eq_false_iff]
    rintro rfl
    exact hquotable.1.nonempty rfl
  have hkey : Text.lower (schema.toList ++ '.' :: name.toList) = Naming.lowerName S.qualifiedName.shown := by
    rw [Table.qualifiedName, if_pos htruthy, hschema, hname]
    simp [Json.shown, Naming.lowerName]
  obtain ⟨ps, rest, hparts, hps, hrest⟩ :=
    Sql.exists_parts_quotedName hquotable.1 hquotable.2 halone hbreak
  obtain ⟨p, hp, hput⟩ := hplace.exists_tableName? htruthy
  rw [← hkey] at hput
  obtain ⟨other, hother⟩ := exists_lastNamed hp hput
  obtain ⟨s, rfl⟩ := hother.exists_str htexts
  obtain ⟨t, ht⟩ := exists_str_qualifiedName (htexts U (mem_of_tableById? hU))
  have hfound := lookup_namesPut_iff.2 hother
  refine ⟨_, ps, rest, tableNames_eq hids, hparts, hps, hrest, ?_⟩
  have hwritten : written c.namesPut (some (Text.lower (schema.toList ++ '.' :: name.toList)),
      quotedName schema.toList name.toList) = s.toList := by
    rw [written, Option.bind_some, target?, hfound]
    rfl
  rw [Sql.replaceTables_eq_ok fun _ _ => exists_str_of_target? htexts, Sql.writeTargets_eq, hparts,
    List.flatMap_append, List.flatMap_cons, hwritten, ← lookup_namesPut_iff, hfound, ht, Except.ok.injEq,
    List.append_cancel_left_eq, List.append_cancel_right_eq, Option.some.injEq, Json.str.injEq]
  exact String.toList_inj

/-- A table of the schema `public`. -/
def publicTable (id : Int) (name : String) : Table := ⟨.int id, .str name, .str "public", .str "", []⟩

/-- The correspondence of two databases that both have the tables `Orders` and `orders`, by their names. -/
def casedTables : Correspondence :=
  (rebuild ⟨⟨.int 1, [publicTable 5 "Orders", publicTable 6 "orders"]⟩,
    ⟨.int 2, [publicTable 50 "Orders", publicTable 60 "orders"]⟩, [], [], [], []⟩ (.ok []) (.ok [])).1

theorem takesPlace_casedTables :
    casedTables.TakesPlace (publicTable 50 "Orders") (publicTable 5 "Orders") ∧
      casedTables.TakesPlace (publicTable 60 "orders") (publicTable 6 "orders") :=
  ⟨⟨rfl, .int 50, rfl, rfl⟩, rfl, .int 60, rfl, rfl⟩

theorem quotedName_replaced_iff_lastTable :
    (∀ p ∈ casedTables.tables, p.2.isCompound = false) ∧
    (∀ u ∈ casedTables.target.tables, ∃ s, u.name = .str s) ∧
    casedTables.TakesPlace (publicTable 60 "orders") (publicTable 6 "orders") ∧
    (IsQuotable "public".toList ∧ IsQuotable "orders".toList) ∧
    Alone "from ".toList " o".toList ∧
    Sql.BreaksAfter "from ".toList (quotedName "public".toList "orders".toList ++ " o".toList) ∧
    ∃ names earlier later, casedTables.tableNames = .ok names ∧ textOf earlier = "from ".toList ∧
      textOf later = " o".toList ∧
      replaceTables names ("from ".toList ++ (quotedName "public".toList "orders".toList ++ " o".toList)) =
        .ok (earlier.flatMap (written names) ++ ("public.orders".toList ++ later.flatMap (written names))) := by
  have hids : ∀ p ∈ casedTables.tables, p.2.isCompound = false := by decide +kernel
  have htexts : ∀ u ∈ casedTables.target.tables, ∃ s, u.name = .str s :=
    List.forall_mem_cons.2 ⟨⟨_, rfl⟩, List.forall_mem_cons.2 ⟨⟨_, rfl⟩, List.forall_mem_nil _⟩⟩
  have hquotable : IsQuotable "public".toList ∧ IsQuotable "orders".toList :=
    ⟨⟨by decide, by decide⟩, ⟨by decide, by decide⟩⟩
  have halone : Alone "from ".toList " o".toList := ⟨by decide +kernel, by decide +kernel⟩
  have hbreak : Sql.BreaksAfter "from ".toList (quotedName "public".toList "orders".toList ++ " o".toList) :=
    ⟨_, _, (List.take_append_drop 5 _).symm, by decide +kernel⟩
  obtain ⟨-, names, earlier, later, hnames, -, hearlier, hlater, hiff⟩ :=
    quotedName_replaced_iff [] hids htexts takesPlace_casedTables.2 rfl rfl hquotable halone hbreak
  have hlast : casedTables.LastNamed "public.orders" (.str "public.orders") :=
    ⟨[(.int 5, .int 50)], (.int 6, .int 60), [], rfl, rfl, List.forall_mem_nil _⟩
  exact ⟨hids, htexts, takesPlace_casedTables.2, hquotable, halone, hbreak, names, earlier, later, hnames, hearlier,
    hlater, hiff.2 hlast⟩

/-- The native query reads `orders` where the structured one reads `Orders`. -/
theorem otherCase_takes_place :
    casedTables.TakesPlace (publicTable 50 "Orders") (publicTable 5 "Orders") ∧
    (publicTable 50 "Orders").qualifiedName = .str "public.Orders" ∧
    ∃ names, casedTables.tableNames = .ok names ∧
      replaceTables names (quotedName "public".toList "Orders".toList) = .ok "public.orders".toList :=
  ⟨takesPlace_casedTables.1, rfl, _, rfl, rfl⟩

end Correspondence
end CardTransfer
