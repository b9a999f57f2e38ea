import CardTransfer.Proofs.Json.RoundTrip
import CardTransfer.Store.Directory

/-!
# What a write leaves

After a text has been written it is read back, and what was under other paths is read as before. The
one exception is a path that the new one goes through: it is a directory now.
-/

namespace CardTransfer
namespace Directory

variable {d d' : Directory} {path other text : String}

/-- A write puts the text under its path. -/
theorem eq_put_of_write (h : d.write path text = .ok d') :
    d' = ⟨put d.files path text⟩ ∧ isTooLong path = false ∧ d.isDirectory path = false := by
  unfold write at h
  split at h
  · cases h
  split at h
  · cases h
  split at h
  · cases h
  · rename_i hlong hdir
    cases h
    exact ⟨rfl, by simpa using hlong, by simpa using hdir⟩

/-- A path is a directory once a text stands under a path that goes through it. -/
theorem isDirectory_put (files : List (String × String)) :
    (Directory.mk (put files path text)).isDirectory other =
      ((Directory.mk files).isDirectory other || (parents path).contains other) := by
  induction files with
  | nil => simp [isDirectory, put]
  | cons f files ih =>
    obtain ⟨p, old⟩ := f
    unfold isDirectory at ih ⊢
    unfold put
    by_cases hp : (p == path) = true
    · rw [if_pos hp]
      rw [beq_iff_eq] at hp
      subst hp
      simp only [List.any_cons]
      cases (parents p).contains other <;> simp
    · rw [if_neg hp]
      simp only [List.any_cons] at ih ⊢
      rw [ih, Bool.or_assoc]

/-- Two directories agree as regards a path: the same text stands there, if one does, and the path is a
directory, or has a text on its way, in both of them or in none. -/
structure SameAt (path : String) (d d' : Directory) : Prop where
  text : d'.files.lookup path = d.files.lookup path
  directory : d'.isDirectory path = d.isDirectory path
  obstructed : d'.isObstructed path = d.isObstructed path

theorem SameAt.refl (path : String) (d : Directory) : SameAt path d d := ⟨rfl, rfl, rfl⟩

theorem SameAt.trans {d'' : Directory} (h₁ : SameAt path d d') (h₂ : SameAt path d' d'') :
    SameAt path d d'' where
  text := h₂.text.trans h₁.text
  directory := h₂.directory.trans h₁.directory
  obstructed := h₂.obstructed.trans h₁.obstructed

theorem SameAt.read? (h : SameAt path d d') : d'.read? path = d.read? path := by
  unfold Directory.read?
  rw [h.text, h.directory]

theorem SameAt.readJson (h : SameAt path d d') (fallback : Json) :
    d'.readJson path fallback = d.readJson path fallback := by
  unfold Directory.readJson readJson?
  rw [h.read?]

/-- A write under another path leaves a path as it is, unless one of the two goes through the other. -/
theorem sameAt_write (h : d.write other text = .ok d') (hne : other ≠ path)
    (hthrough : path ∉ parents other) (hway : other ∉ parents path) : SameAt path d d' := by
  obtain ⟨rfl, -, -⟩ := eq_put_of_write h
  refine ⟨?_, ?_, ?_⟩
  · rw [lookup_put, if_neg hne]
  · have hcontains : (parents other).contains path = false := by simpa using hthrough
    rw [isDirectory_put, hcontains, Bool.or_false]
  · unfold isObstructed
    rw [Bool.eq_iff_iff, List.any_eq_true, List.any_eq_true]
    refine exists_congr fun p => and_congr_right fun hp => ?_
    have hpne : other ≠ p := by
      rintro rfl
      exact hway hp
    rw [lookup_put, if_neg hpne]

/-- Reading changes nothing in a text without carriage returns. -/
theorem readBreaks_eq_self {cs : List Char} (h : '\r' ∉ cs) : readBreaks cs = cs := by
  fun_induction readBreaks cs with
  | case1 => rfl
  | case2 => exact absurd (List.mem_cons_self ..) h
  | case3 => exact absurd (List.mem_cons_self ..) h
  | case4 c cs _ _ ih => rw [ih fun hc => h (List.mem_cons_of_mem _ hc)]

/-- No carriage return is read. -/
theorem not_mem_readBreaks (cs : List Char) : '\r' ∉ readBreaks cs := by
  fun_induction readBreaks cs with
  | case1 => exact List.not_mem_nil
  | case2 cs ih => exact List.not_mem_cons_of_ne_of_not_mem (by decide) ih
  | case3 cs _ ih => exact List.not_mem_cons_of_ne_of_not_mem (by decide) ih
  | case4 c cs _ hc ih => exact List.not_mem_cons_of_ne_of_not_mem (fun h => hc h.symm) ih

/-- What follows is read on its own unless it starts with a line feed. -/
theorem readBreaks_append {x y : List Char} {c : Char} (hc : c ≠ '\n') :
    readBreaks (x ++ c :: y) = readBreaks x ++ readBreaks (c :: y) := by
  fun_induction readBreaks x with
  | case1 => rfl
  | case2 cs ih => rw [List.cons_append, List.cons_append, readBreaks, ih, List.cons_append]
  | case3 cs hcs ih =>
    have hfeed : ∀ t, cs ++ c :: y = '\n' :: t → False := by
      intro t ht
      cases cs with
      | nil => exact hc (List.cons.inj ht).1
      | cons d cs => exact hcs cs (by rw [(List.cons.inj ht).1])
    rw [List.cons_append, readBreaks, ih, List.cons_append]
    exact hfeed
  | case4 d cs h₁ h₂ ih =>
    rw [List.cons_append, readBreaks, ih, List.cons_append]
    · exact fun _ hd _ => h₂ hd
    · exact h₂

/-- A text without carriage returns is read as it is, whatever follows. -/
theorem readBreaks_append_of_not_mem {x y : List Char} (h : '\r' ∉ x) :
    readBreaks (x ++ y) = x ++ readBreaks y := by
  induction x with
  | nil => rfl
  | cons c x ih =>
    rw [List.mem_cons, not_or] at h
    rw [List.cons_append, readBreaks, ih h.2, List.cons_append]
    · exact fun _ hc _ => h.1 hc.symm
    · exact fun hc => h.1 hc.symm

/-- Reading leaves something of every text but the empty one. -/
theorem readBreaks_eq_nil {cs : List Char} (h : readBreaks cs = []) : cs = [] := by
  fun_cases readBreaks cs <;> simp_all [readBreaks]

/-- Reading brings no characters but line feeds. -/
theorem mem_readBreaks {cs : List Char} {c : Char} (h : c ∈ readBreaks cs) : c ∈ cs ∨ c = '\n' := by
  fun_induction readBreaks cs with
  | case1 => cases h
  | case2 cs ih =>
    rcases List.mem_cons.1 h with rfl | h
    · exact .inr rfl
    · exact (ih h).imp_left fun h => List.mem_cons_of_mem _ (List.mem_cons_of_mem _ h)
  | case3 cs _ ih =>
    rcases List.mem_cons.1 h with rfl | h
    · exact .inr rfl
    · exact (ih h).imp_left (List.mem_cons_of_mem _)
  | case4 d cs _ _ ih =>
    rcases List.mem_cons.1 h with rfl | h
    · exact .inl (List.mem_cons_self ..)
    · exact (ih h).imp_left (List.mem_cons_of_mem _)

/-- A text as it is read. -/
def asRead (text : String) : String := String.ofList (readBreaks text.toList)

/-- A text is read as it is exactly if there are no carriage returns in it. -/
theorem asRead_eq_self_iff : asRead text = text ↔ '\r' ∉ text.toList := by
  constructor
  · intro h hreturn
    rw [← h, asRead, String.toList_ofList] at hreturn
    exact not_mem_readBreaks _ hreturn
  · intro h
    rw [asRead, readBreaks_eq_self h, String.ofList_toList]

theorem asRead_asRead : asRead (asRead text) = asRead text := by
  refine asRead_eq_self_iff.2 ?_
  rw [asRead, String.toList_ofList]
  exact not_mem_readBreaks _

/-- A text that was written is read back. -/
theorem read?_write_self (h : d.write path text = .ok d') (hparent : path ∉ parents path)
    (htext : '\r' ∉ text.toList) : d'.read? path = .ok (some text) := by
  obtain ⟨rfl, hlong, hdir⟩ := eq_put_of_write h
  unfold read?
  have hc : (parents path).contains path = false := by simpa using hparent
  rw [hlong, isDirectory_put, hdir, hc, lookup_put, if_pos rfl]
  simp only [Bool.or_self, Bool.false_eq_true, ↓reduceIte, Option.map_some,
    readBreaks_eq_self htext, String.ofList_toList]

/-- **A document that was written is read as `reread?` of it.** -/
theorem readJson?_writeJson {v : Json} (h : d.writeJson path v = .ok d')
    (hparent : path ∉ parents path) :
    d'.readJson? path = ((v.reread? .file).mapError
      (Json.Refusal.fault (v.write .file).toList)).map some := by
  have htext : '\r' ∉ (v.write .file).toList := (Json.reads_writeAt .file 0 v).plain
  unfold readJson?
  rw [read?_write_self h hparent htext, ← Json.parse_write]
  show (do return some (← Json.parse (v.write .file))) = _
  cases Json.parse (v.write .file) <;> rfl

/-- Putting a text where it stands already changes nothing. -/
theorem put_put (files : List (String × String)) :
    put (put files path text) path text = put files path text := by
  induction files with
  | nil => simp [put]
  | cons f files ih =>
    obtain ⟨p, old⟩ := f
    by_cases hp : (p == path) = true
    · simp [put, hp]
    · simp [put, hp, ih]

/-- **A text may be written twice**, and the second time it changes nothing. -/
theorem write_again (h : d.write path text = .ok d') (hparent : path ∉ parents path) :
    d'.write path text = .ok d' := by
  have hway : d.isObstructed path = false := by
    unfold write at h
    split at h
    · cases h
    · rename_i hway
      simpa using hway
  obtain ⟨rfl, hlong, hdir⟩ := eq_put_of_write h
  have hway' : (Directory.mk (put d.files path text)).isObstructed path = false := by
    unfold isObstructed at hway ⊢
    rw [List.any_eq_false] at hway ⊢
    intro p hp
    have hne : path ≠ p := by
      rintro rfl
      exact hparent hp
    rw [lookup_put, if_neg hne]
    exact hway p hp
  have hc : (parents path).contains path = false := by simpa using hparent
  unfold write
  simp only [hway', hlong, isDirectory_put, hdir, hc, put_put, Bool.or_self, Bool.false_eq_true,
    ↓reduceIte]

/-- The names on a path into a folder. -/
theorem names_append {folder rest : String} (hf : '/' ∉ folder.toList) :
    names (folder ++ "/" ++ rest) = folder :: names rest := by
  unfold names
  rw [String.toList_append, String.toList_append, List.append_assoc]
  show ((folder.toList ++ '/' :: rest.toList).splitOn '/').map String.ofList = _
  rw [List.splitOn_append_cons_self_of_not_mem hf, List.map_cons, String.ofList_toList]

theorem names_eq_singleton {name : String} (h : '/' ∉ name.toList) : names name = [name] := by
  rw [names, List.splitOn_eq_singleton h, List.map_singleton, String.ofList_toList]

/-- A text in a folder has only the folder on its way. -/
theorem parents_append {folder name : String} (hf : '/' ∉ folder.toList) (hname : '/' ∉ name.toList) :
    parents (folder ++ "/" ++ name) = [folder] := by
  unfold parents
  rw [names_append hf, names_eq_singleton hname]
  simp [List.range_succ]

/-- A path into a folder goes through paths that start with the name of the folder. -/
theorem toList_of_mem_parents {folder rest : String} (hf : '/' ∉ folder.toList)
    (h : other ∈ parents (folder ++ "/" ++ rest)) : ∃ tail, other.toList = folder.toList ++ tail := by
  unfold parents at h
  rw [names_append hf, List.mem_filterMap] at h
  obtain ⟨n, -, hn⟩ := h
  cases n with
  | zero => cases hn
  | succ n =>
    simp only [Nat.add_one_ne_zero, beq_iff_eq, ↓reduceIte, List.take_succ_cons,
      Option.some.injEq] at hn
    rw [← hn]
    cases (names rest).take n with
    | nil => exact ⟨[], by simp⟩
    | cons a more =>
      rw [String.intercalate_cons_cons, String.toList_append, String.toList_append, List.append_assoc]
      exact ⟨_, rfl⟩

/-- A write into a folder leaves a path as it is if neither the path nor a directory on its way starts
like the folder. -/
theorem sameAt_write_of_folder {folder rest : String} (hother : other = folder ++ "/" ++ rest)
    (hslash : '/' ∉ folder.toList) (hway : ∀ p ∈ path :: parents path, ¬folder.toList <+: p.toList)
    (h : d.write other text = .ok d') : SameAt path d d' := by
  have hpre : folder.toList <+: other.toList := by
    rw [hother, String.toList_append, String.toList_append, List.append_assoc]
    exact List.prefix_append ..
  refine sameAt_write h ?_ ?_ ?_
  · rintro rfl
    exact hway _ (List.mem_cons_self ..) hpre
  · intro hthrough
    rw [hother] at hthrough
    obtain ⟨tail, htail⟩ := toList_of_mem_parents hslash hthrough
    refine hway _ (List.mem_cons_self ..) ?_
    rw [htail]
    exact List.prefix_append ..
  · intro hmem
    exact hway _ (List.mem_cons_of_mem _ hmem) hpre

end Directory
end CardTransfer
