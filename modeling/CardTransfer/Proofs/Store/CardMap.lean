import CardTransfer.Proofs.Except
import CardTransfer.Proofs.Json.IdOrder
import CardTransfer.Proofs.Store.State
import CardTransfer.Store.CardMap

/-!
# What the card map keeps

Setting an entry rewrites the whole stored map. If the map can be read before and after, it has lost
none of its ids and gained the new one (`has_setCard`). It also keeps the values, provided that it is
`Plain`: no id is stored under two spellings with different values (`get?_setCard`). Without this the
values may change, because the map is put in the order of its keys when it is written, and the last of
several entries for an id counts.
-/

namespace CardTransfer
namespace Store

variable {d d' : Directory} {ms : Members} {m m' : IdMap Json} {n t : Int} {id : Json}

/-! ### Entries -/

/-- An entry of the stored object that reads as the given integers. -/
def Holds (ms : Members) (n t : Int) : Prop := ∃ p ∈ ms, cardEntry p = .ok (.int n, .int t)

/-- Entries are read as integers. -/
theorem cardEntry_eq_ok {p : String × Json} {q : Json × Json} (h : cardEntry p = .ok q) :
    ∃ n t, (Json.str p.1).toInt = .ok n ∧ p.2.toInt = .ok t ∧ q = (.int n, .int t) := by
  obtain ⟨n, hn, h⟩ := bind_eq_ok.1 h
  obtain ⟨t, ht, h⟩ := bind_eq_ok.1 h
  exact ⟨n, t, hn, ht, (Except.ok.inj h).symm⟩

/-- A map that can be read is an object whose entries are read one by one. -/
theorem cardMap_eq_ok (h : cardMap d = .ok m) :
    ∃ ms ps, cardObject d = .ok (.obj ms) ∧ ms.mapM cardEntry = .ok ps ∧ m = IdMap.ofList ps := by
  obtain ⟨v, ho, hv⟩ := bind_eq_ok.1 h
  obtain ⟨ms, hms, hm⟩ := bind_eq_ok.1 hv
  obtain ⟨ps, hps, hofList⟩ := bind_eq_ok.1 hm
  cases v with
  | obj ns =>
    cases hms
    exact ⟨ms, ps, ho, hps, (Except.ok.inj hofList).symm⟩
  | _ => cases hms

/-- A card is looked up in the map. -/
theorem get?_of_cardTarget? {target : Option Json} (h : cardTarget? d id = .ok target)
    (hm : cardMap d = .ok m) : m.get? id = target := by
  obtain ⟨m', hm', h⟩ := bind_eq_ok.1 h
  rw [hm] at hm'
  cases hm'
  obtain ⟨key, hkey, h⟩ := bind_eq_ok.1 h
  rw [Json.eq_of_asKey hkey] at h
  exact Except.ok.inj h

/-- The ids of the map are those of its entries. -/
theorem has_cardMap (h : cardMap d = .ok m) (ho : cardObject d = .ok (.obj ms)) :
    m.has id = true ↔ ∃ n t, Holds ms n t ∧ id.key = .whole n := by
  obtain ⟨ms', ps, ho', hps, rfl⟩ := cardMap_eq_ok h
  rw [ho] at ho'
  cases ho'
  rw [IdMap.has_ofList]
  constructor
  · rintro ⟨q, hq, hk⟩
    obtain ⟨p, hp, he⟩ := mem_of_mapM hps hq
    obtain ⟨n, t, -, -, rfl⟩ := cardEntry_eq_ok he
    exact ⟨n, t, ⟨p, hp, he⟩, hk.symm⟩
  · rintro ⟨n, t, ⟨p, hp, he⟩, hk⟩
    obtain ⟨q, hq, he'⟩ := exists_of_mapM hps hp
    rw [he] at he'
    cases he'
    exact ⟨_, hq, hk.symm⟩

/-- The ids of the map are whole numbers. -/
theorem exists_key_of_has (h : cardMap d = .ok m) (hid : m.has id = true) : ∃ n, id.key = .whole n := by
  obtain ⟨ms, ps, ho, -, -⟩ := cardMap_eq_ok h
  obtain ⟨n, t, -, hkey⟩ := (has_cardMap h ho).1 hid
  exact ⟨n, hkey⟩

/-- The value for an id is that of one of its entries. -/
theorem holds_of_get? (h : cardMap d = .ok m) (ho : cardObject d = .ok (.obj ms)) {v : Json}
    (hv : m.get? id = some v) : ∃ n t, Holds ms n t ∧ id.key = .whole n ∧ v = .int t := by
  obtain ⟨ms', ps, ho', hps, rfl⟩ := cardMap_eq_ok h
  rw [ho] at ho'
  cases ho'
  obtain ⟨q, hq, hk, rfl⟩ := IdMap.exists_of_get?_ofList hv
  obtain ⟨p, hp, he⟩ := mem_of_mapM hps hq
  obtain ⟨n, t, -, -, rfl⟩ := cardEntry_eq_ok he
  exact ⟨n, t, ⟨p, hp, he⟩, hk.symm, rfl⟩

/-- Every entry of a map that can be read holds integers. -/
theorem holds_of_mem (h : cardMap d = .ok m) (ho : cardObject d = .ok (.obj ms))
    {p : String × Json} (hp : p ∈ ms) : ∃ n t, cardEntry p = .ok (.int n, .int t) := by
  obtain ⟨ms', ps, ho', hps, -⟩ := cardMap_eq_ok h
  rw [ho] at ho'
  cases ho'
  obtain ⟨q, -, he⟩ := exists_of_mapM hps hp
  obtain ⟨n, t, -, -, rfl⟩ := cardEntry_eq_ok he
  exact ⟨n, t, he⟩

/-! ### Texts and values of entries -/

/-- A text that converts to an integer is read back as it is. -/
theorem rereadText_of_toInt {s : String} (h : (Json.str s).toInt = .ok n) :
    Json.rereadText s = s := by
  refine Json.rereadText_eq_self fun c hc => Json.half?_eq_none ?_
  unfold Json.toInt at h
  simp only at h
  split at h
  · cases h
  · rename_i hn
    exact Text.toNat_lt_of_toInt? hn hc
  · cases h

/-- The text of an integer converts to that integer, if it converts. -/
theorem eq_of_toInt_ofInt {k : Int} (h : (Json.str (Text.ofInt n)).toInt = .ok k) : k = n := by
  unfold Json.toInt at h
  simp only [Text.excess?_ofInt] at h
  by_cases hlen : Text.digitLimit < Text.digitCount n
  · rw [if_pos hlen] at h
    cases h
  · rw [if_neg hlen, Text.toInt?_ofInt (Nat.not_lt.1 hlen)] at h
    exact (Except.ok.inj h).symm

/-- A value that converts to an integer is read back as it is, if it is read. -/
theorem eq_of_reread {style : Json.Style} {v w : Json} (ht : v.toInt = .ok t)
    (h : v.reread? style = .ok w) : w = v := by
  have hsimple : v.isCompound = false := by
    cases v <;> first | rfl | cases ht
  rcases Json.reread?_cases hsimple h with rfl | ⟨s, u, rfl, rfl⟩ | ⟨s, timed, u, rfl, rfl⟩
  · rfl
  · rw [Json.reread?, rereadText_of_toInt ht] at h
    exact (Except.ok.inj h).symm
  · cases ht

/-! ### Setting an entry -/

/-- The card map lies in no folder. -/
theorem cardPath_not_mem_parents : cardPath ∉ Directory.parents cardPath := by decide

/-- Setting an entry writes the stored object with the entry in it. -/
theorem setCard_eq_ok {source target : Json} (h : setCard d source target = .ok d') :
    ∃ ms, cardObject d = .ok (.obj ms) ∧
      d.writeJson cardPath (.obj (Members.insert ms source.shown target)) = .ok d' := by
  obtain ⟨v, ho, hv⟩ := bind_eq_ok.1 h
  cases v with
  | obj ms => exact ⟨ms, ho, hv⟩
  | _ => cases hv

/-- **An entry can be set whenever the map can be read.** -/
theorem exists_setCard (h : cardMap d = .ok m) (source target : Json) :
    ∃ d', setCard d source target = .ok d' := by
  obtain ⟨ms, -, ho, -, -⟩ := cardMap_eq_ok h
  have hdir : d.isDirectory cardPath = false := by
    rw [Bool.eq_false_iff]
    intro hdir
    have hlong : Directory.isTooLong cardPath = false := by decide
    unfold cardObject Directory.readJson Directory.readJson? Directory.read? at ho
    rw [hlong, hdir] at ho
    cases ho
  have hobstructed : d.isObstructed cardPath = false := rfl
  have hlong : Directory.isTooLong cardPath = false := by decide
  unfold setCard
  rw [ho]
  refine ⟨⟨Directory.put d.files cardPath
    (Json.write .file (.obj (Members.insert ms source.shown target)))⟩, ?_⟩
  show d.write cardPath _ = _
  unfold Directory.write
  rw [hobstructed, hlong, hdir]
  rfl

/-- The object that is stored after a write, if it can be read. -/
theorem cardObject_writeJson {ns : Members} (h : d.writeJson cardPath (.obj ns) = .ok d') {v : Json}
    (hv : cardObject d' = .ok v) : ∃ ps, (Json.Style.file.arrange ns).mapM
      (Json.memberValue (Json.reread? .file)) = .ok ps ∧ v = .obj (Members.ofList ps) := by
  unfold cardObject Directory.readJson at hv
  rw [Directory.readJson?_writeJson h cardPath_not_mem_parents, Json.reread?_obj] at hv
  change (_ >>= _) = _ at hv
  obtain ⟨o, ho, hv⟩ := bind_eq_ok.1 hv
  obtain ⟨w, hw, rfl⟩ := map_eq_ok.1 ho
  obtain ⟨ps, hps, rfl⟩ := map_eq_ok.1 (mapError_eq_ok.1 hw)
  exact ⟨ps, hps, (Except.ok.inj hv).symm⟩

/-- What is read of the map after an entry has been set: the new entry and those that were there. -/
theorem exists_cardObject_setCard {source target : Json} (h : setCard d source target = .ok d')
    (ho : cardObject d = .ok (.obj ms)) (hm' : cardMap d' = .ok m') :
    ∃ ps, cardObject d' = .ok (.obj (Members.ofList ps)) ∧
      (Json.Style.file.arrange (Members.insert ms source.shown target)).mapM
        (Json.memberValue (Json.reread? .file)) = .ok ps := by
  obtain ⟨ms', ho', hwrite⟩ := setCard_eq_ok h
  rw [ho] at ho'
  cases ho'
  obtain ⟨ms', _, ho', -, -⟩ := cardMap_eq_ok hm'
  obtain ⟨ps, hps, hobj⟩ := cardObject_writeJson hwrite ho'
  cases hobj
  exact ⟨ps, ho', hps⟩

/-- Every key that is written is read back. -/
theorem exists_mem_reread {ns ps : Members} {style : Json.Style}
    {value : Json → Except Json.Refusal Json}
    (h : (style.arrange ns).mapM (Json.memberValue value) = .ok ps) {p : String × Json}
    (hp : p ∈ ns) : ∃ w, (Json.rereadText p.1, w) ∈ Members.ofList ps := by
  obtain ⟨q, hq, hread⟩ := exists_of_mapM h (Json.mem_arrange.2 hp)
  obtain ⟨v, -, rfl⟩ := map_eq_ok.1 hread
  exact Members.exists_mem_ofList hq

/-- The text of an integer is read back as it is. -/
theorem rereadText_ofInt (n : Int) : Json.rereadText (Text.ofInt n) = Text.ofInt n := by
  refine Json.rereadText_eq_self fun c hc => Json.half?_eq_none ?_
  have h := Text.inDecimal_of_mem_ofInt hc
  simp only [Text.inDecimal, Bool.or_eq_true, beq_iff_eq] at h
  rcases h with rfl | h
  · decide
  · have := (Text.toNat_of_isDigit h).2
    unfold Text.halfOffset
    omega

/-- A key that is written unchanged is the key of an entry afterwards. -/
theorem exists_holds_setCard {source target : Json} (h : setCard d source target = .ok d')
    (ho : cardObject d = .ok (.obj ms)) (hm' : cardMap d' = .ok m') :
    ∃ ms', cardObject d' = .ok (.obj ms') ∧ ∀ k v, Json.rereadText k = k →
      (k, v) ∈ Members.insert ms source.shown target →
      ∃ n t, Holds ms' n t ∧ (Json.str k).toInt = .ok n := by
  obtain ⟨ps, ho', hps⟩ := exists_cardObject_setCard h ho hm'
  refine ⟨_, ho', fun k v hk hmem => ?_⟩
  obtain ⟨w, hw⟩ := exists_mem_reread hps hmem
  rw [hk] at hw
  obtain ⟨n, t, he⟩ := holds_of_mem hm' ho' hw
  obtain ⟨n', t', hn, -, heq⟩ := cardEntry_eq_ok he
  cases heq
  exact ⟨n, t, ⟨_, hw, he⟩, hn⟩

/-- A map with an entry for a truth value cannot be read, because its text is no integer. -/
theorem exists_int_of_setCard {source target : Json} (h : setCard d source target = .ok d')
    (hm : cardMap d = .ok m) (hm' : cardMap d' = .ok m') (hint : source.isInt = true) :
    ∃ n, source = .int n := by
  obtain ⟨ms, -, ho, -, -⟩ := cardMap_eq_ok hm
  obtain ⟨ms', -, hentry⟩ := exists_holds_setCard h ho hm'
  cases source with
  | int n => exact ⟨n, rfl⟩
  | bool b =>
    cases b
    · obtain ⟨k, -, -, hk⟩ := hentry _ _ (by decide) Members.mem_insert_self
      cases hk
    · obtain ⟨k, -, -, hk⟩ := hentry _ _ (by decide) Members.mem_insert_self
      cases hk
  | _ => cases hint

/-- **Setting an entry loses no id**, and the map has the new one, as long as the map can be read. -/
theorem has_setCard {source target : Json} (h : setCard d source target = .ok d')
    (hm : cardMap d = .ok m) (hm' : cardMap d' = .ok m') :
    (∀ id, m.has id = true → m'.has id = true) ∧ (source.isInt = true → m'.has source = true) := by
  obtain ⟨ms, -, ho, -, -⟩ := cardMap_eq_ok hm
  obtain ⟨ms', ho', hentry⟩ := exists_holds_setCard h ho hm'
  constructor
  · intro id hid
    obtain ⟨n, t, ⟨p, hp, he⟩, hkey⟩ := (has_cardMap hm ho).1 hid
    obtain ⟨n', t', hn, -, heq⟩ := cardEntry_eq_ok he
    cases heq
    obtain ⟨w, hw⟩ := Members.exists_mem_insert hp
    obtain ⟨k, u, hholds, hk⟩ := hentry _ _ (rereadText_of_toInt hn) hw
    rw [hn] at hk
    cases hk
    exact (has_cardMap hm' ho').2 ⟨n, u, hholds, hkey⟩
  · intro hint
    obtain ⟨n, rfl⟩ := exists_int_of_setCard h hm hm' hint
    obtain ⟨k, u, hholds, hk⟩ := hentry _ _ (rereadText_ofInt n) Members.mem_insert_self
    obtain rfl := eq_of_toInt_ofInt hk
    exact (has_cardMap hm' ho').2 ⟨k, u, hholds, rfl⟩

/-- Setting an entry adds no other id. -/
theorem has_of_setCard {source target : Json} (h : setCard d source target = .ok d')
    (hm : cardMap d = .ok m) (hm' : cardMap d' = .ok m') (hint : source.isInt = true)
    (hid : m'.has id = true) : m.has id = true ∨ id.key = source.key := by
  obtain ⟨ms, -, ho, -, -⟩ := cardMap_eq_ok hm
  obtain ⟨ps, ho', hps⟩ := exists_cardObject_setCard h ho hm'
  obtain ⟨n, t, ⟨p, hp, he⟩, hkey⟩ := (has_cardMap hm' ho').1 hid
  obtain ⟨n', t', hn, -, heq⟩ := cardEntry_eq_ok he
  cases heq
  -- the entry was written, with the same key
  obtain ⟨q, hq, hread⟩ := mem_of_mapM hps (Members.mem_of_mem_ofList hp)
  obtain ⟨v, -, rfl⟩ := map_eq_ok.1 hread
  rcases Members.mem_of_mem_insert (Json.mem_arrange.1 hq) with rfl | hq
  · obtain ⟨k, rfl⟩ := exists_int_of_setCard h hm hm' hint
    have hk : (Json.str (Text.ofInt k)).toInt = .ok n := by
      rw [← rereadText_ofInt k]
      exact hn
    rw [eq_of_toInt_ofInt hk] at hkey
    exact .inr hkey
  · obtain ⟨a, b, he⟩ := holds_of_mem hm ho hq
    obtain ⟨a', b', ha, -, heq⟩ := cardEntry_eq_ok he
    cases heq
    change (Json.str (Json.rereadText q.1)).toInt = .ok n at hn
    rw [rereadText_of_toInt ha, ha] at hn
    cases hn
    exact .inl ((has_cardMap hm ho).2 ⟨n, b, ⟨q, hq, he⟩, hkey⟩)

/-- A stored map that says the same of an id wherever it names it. -/
structure Plain (ms : Members) : Prop where
  unambiguous : ∀ {n t t'}, Holds ms n t → Holds ms n t' → t = t'

/-- A map without entries is plain. -/
theorem plain_nil : Plain [] where
  unambiguous h := by
    obtain ⟨p, hp, -⟩ := h
    cases hp

/-- Whether the stored card map is plain. -/
def PlainMap (d : Directory) : Prop := ∃ ms, cardObject d = .ok (.obj ms) ∧ Plain ms

theorem PlainMap.congr (h : PlainMap d) (ho : cardObject d' = cardObject d) : PlainMap d' := by
  obtain ⟨ms, hms, hplain⟩ := h
  exact ⟨ms, ho.trans hms, hplain⟩

/-- A plain map says of an id what any entry says of it. -/
theorem Plain.get? (hplain : Plain ms) (ho : cardObject d = .ok (.obj ms)) (hm : cardMap d = .ok m)
    (hid : id.key = .whole n) (h : Holds ms n t) : m.get? id = some (.int t) := by
  obtain ⟨v, hv⟩ := IdMap.has_eq_true.1 ((has_cardMap hm ho).2 ⟨n, t, h, hid⟩)
  obtain ⟨a, b, hab, ha, rfl⟩ := holds_of_get? hm ho hv
  rw [hid] at ha
  cases ha
  rw [hv, hplain.unambiguous hab h]

/-- After an entry has been set, the stored object has it and members that were there. -/
theorem mem_of_setCard (ho : cardObject d = .ok (.obj ms))
    (h : setCard d (.int n) (.int t) = .ok d') (hm : cardMap d = .ok m) (hm' : cardMap d' = .ok m') :
    ∃ ms', cardObject d' = .ok (.obj ms') ∧ ∀ p ∈ ms', p = (Text.ofInt n, .int t) ∨ p ∈ ms := by
  obtain ⟨ps, ho', hps⟩ := exists_cardObject_setCard h ho hm'
  -- everything is read back as it is written
  have hback : ps = Json.Style.file.arrange (Members.insert ms (Text.ofInt n) (.int t)) := by
    refine eq_of_mapM hps fun p hp q hq => ?_
    obtain ⟨v, hv, rfl⟩ := map_eq_ok.1 hq
    rcases Members.mem_of_mem_insert (Json.mem_arrange.1 hp) with rfl | hp
    · refine Prod.ext (rereadText_ofInt n) ?_
      exact eq_of_reread (t := t) rfl hv
    · obtain ⟨a, b, he⟩ := holds_of_mem hm ho hp
      obtain ⟨a', b', ha, hb, -⟩ := cardEntry_eq_ok he
      exact Prod.ext (rereadText_of_toInt ha) (eq_of_reread hb hv)
  refine ⟨_, ho', fun p hp => ?_⟩
  have hmem := Members.mem_of_mem_ofList hp
  rw [hback] at hmem
  exact Members.mem_of_mem_insert (Json.mem_arrange.1 hmem)

/-- What the stored object holds after an entry has been set, and that it is plain. -/
theorem holds_setCard_iff (hplain : Plain ms) (ho : cardObject d = .ok (.obj ms))
    (h : setCard d (.int n) (.int t) = .ok d') (hm : cardMap d = .ok m) (hm' : cardMap d' = .ok m')
    (hsame : ∀ b, Holds ms n b → b = t) :
    ∃ ms', cardObject d' = .ok (.obj ms') ∧ Plain ms' ∧
      ∀ a b, Holds ms' a b ↔ if a = n then b = t else Holds ms a b := by
  obtain ⟨ms', ho', hmem⟩ := mem_of_setCard ho h hm hm'
  have hold {a b : Int} (hab : Holds ms' a b) : if a = n then b = t else Holds ms a b := by
    obtain ⟨p, hp, he⟩ := hab
    rcases hmem p hp with rfl | hp
    · obtain ⟨a', b', ha, hb, heq⟩ := cardEntry_eq_ok he
      cases heq
      rw [if_pos (eq_of_toInt_ofInt ha)]
      exact (Except.ok.inj hb).symm
    · split
      · rename_i ha
        subst ha
        exact hsame b ⟨p, hp, he⟩
      · exact ⟨p, hp, he⟩
  have hplain' : Plain ms' := by
    refine ⟨fun {a b b'} hab hab' => ?_⟩
    have hb := hold hab
    have hb' := hold hab'
    split at hb
    · rename_i ha
      rw [if_pos ha] at hb'
      rw [hb, hb']
    · rename_i ha
      rw [if_neg ha] at hb'
      exact hplain.unambiguous hb hb'
  refine ⟨ms', ho', hplain', fun a b => ⟨hold, fun hab => ?_⟩⟩
  -- the map has the id, with some value; that value can only be this one
  obtain ⟨hkeep, hnew⟩ := has_setCard h hm hm'
  have hhas : m'.has (.int a) = true := by
    split at hab
    · rename_i ha
      subst ha
      exact hnew rfl
    · exact hkeep _ ((has_cardMap hm ho).2 ⟨a, b, hab, rfl⟩)
  obtain ⟨a', b', hab', ha'⟩ := (has_cardMap hm' ho').1 hhas
  cases ha'
  have hb' := hold hab'
  split at hab
  · rename_i ha
    rw [if_pos ha] at hb'
    rw [hab, ← hb']
    exact hab'
  · rename_i ha
    rw [if_neg ha] at hb'
    rw [hplain.unambiguous hab hb']
    exact hab'

/-- **Setting an entry of a plain map changes no other entry**, and the map stays plain. The id must
not have another value already. -/
theorem get?_setCard (hplain : PlainMap d) (h : setCard d (.int n) (.int t) = .ok d')
    (hm : cardMap d = .ok m) (hm' : cardMap d' = .ok m')
    (hfree : ∀ old, m.get? (.int n) = some old → old = .int t) :
    PlainMap d' ∧ ∀ id, m'.get? id = if id.key = .whole n then some (.int t) else m.get? id := by
  obtain ⟨ms, ho, hplain⟩ := hplain
  obtain ⟨ms', ho', hplain', hiff⟩ := holds_setCard_iff hplain ho h hm hm' fun b hb =>
    Json.int.inj (hfree _ (hplain.get? ho hm rfl hb))
  refine ⟨⟨ms', ho', hplain'⟩, fun id => ?_⟩
  split
  · rename_i hk
    exact hplain'.get? ho' hm' hk ((hiff n t).2 (by rw [if_pos rfl]))
  · rename_i hk
    have hne {a : Int} (ha : id.key = .whole a) : a ≠ n := fun h => hk (by rw [ha, h])
    cases hv : m.get? id with
    | some v =>
      obtain ⟨a, b, hab, ha, rfl⟩ := holds_of_get? hm ho hv
      exact hplain'.get? ho' hm' ha ((hiff a b).2 (by rwa [if_neg (hne ha)]))
    | none =>
      cases hv' : m'.get? id with
      | none => rfl
      | some v' =>
        obtain ⟨a, b, hab, ha, rfl⟩ := holds_of_get? hm' ho' hv'
        have hab := (hiff a b).1 hab
        rw [if_neg (hne ha)] at hab
        rw [hplain.get? ho hm ha hab] at hv
        cases hv

/-! ### Other writes -/

/-- A write that leaves the place of the card map as it is leaves the card map as it is. -/
theorem cardObject_of_sameAt (h : Directory.SameAt cardPath d d') : cardObject d' = cardObject d := by
  unfold cardObject
  rw [h.readJson]

/-- Keeping a rendering leaves the card map as it is. -/
theorem cardObject_putCached {key text : String} (h : putCached d key text = .ok d') :
    cardObject d' = cardObject d :=
  cardObject_of_sameAt (sameAt_putCached h (by decide))

/-- Setting a state leaves the card map as it is. -/
theorem cardObject_setState {key : String} {v : Json} (h : setState d key v = .ok d') :
    cardObject d' = cardObject d :=
  cardObject_of_sameAt (sameAt_setState h (by decide))

/-- Entering a card leaves every other path as it is that does not go through the card map. -/
theorem sameAt_setCard {source target : Json} {path : String} (h : setCard d source target = .ok d')
    (hne : cardPath ≠ path) (hway : cardPath ∉ Directory.parents path) :
    Directory.SameAt path d d' := by
  obtain ⟨ms, -, hwrite⟩ := setCard_eq_ok h
  have hparents : Directory.parents cardPath = [] := by decide
  refine Directory.sameAt_write hwrite hne ?_ hway
  rw [hparents]
  exact List.not_mem_nil

/-- What is stored after an entry has been set depends on what was stored before alone. -/
theorem cardObject_setCard_congr {d₁ d₂ d₁' d₂' : Directory} {source target : Json}
    (h : cardObject d₂ = cardObject d₁) (h₁ : setCard d₁ source target = .ok d₁')
    (h₂ : setCard d₂ source target = .ok d₂') : cardObject d₂' = cardObject d₁' := by
  obtain ⟨ms, ho, hwrite₁⟩ := setCard_eq_ok h₁
  obtain ⟨ms', ho', hwrite₂⟩ := setCard_eq_ok h₂
  rw [h, ho] at ho'
  cases ho'
  unfold cardObject Directory.readJson
  rw [Directory.readJson?_writeJson hwrite₁ cardPath_not_mem_parents,
    Directory.readJson?_writeJson hwrite₂ cardPath_not_mem_parents]

/-- The map depends on the stored object alone. -/
theorem cardMap_congr (h : cardObject d' = cardObject d) : cardMap d' = cardMap d := by
  unfold cardMap
  rw [h]

end Store
end CardTransfer
