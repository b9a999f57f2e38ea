import CardTransfer.Oracle.Rendering
import CardTransfer.Proofs.Except
import CardTransfer.Proofs.Store.Directory
import CardTransfer.Store.State
import CardTransfer.Text.Sha256
import Mathlib.Data.List.Basic
import Mathlib.Data.Nat.Digits.Defs

/-!
# What states and renderings leave

States and renderings have a folder each, so setting a state or keeping a rendering leaves every path as
it is that does not lead into that folder. A state that was set is read as `reread?` of it
(`getState_setState`).
-/

/-!
## The form of a digest

The state that blocks are mixed into is eight words, whatever the blocks are, and a word has eight
hexadecimal digits. So the digest of every text is 64 letters and digits (`length_digest`,
`isAlphanum_of_mem_digest`).
-/

namespace CardTransfer
namespace Text

/-- A number in a base up to 16 is written with letters and digits. -/
theorem isAlphanum_of_mem_toDigits {b n : Nat} {c : Char} (hb : 1 < b) (hb' : b ≤ 16)
    (h : c ∈ Nat.toDigits b n) : c.isAlphanum = true := by
  induction n using Nat.strongRecOn with
  | ind n ih =>
    have hdigit : ∀ d < 16, d.digitChar.isAlphanum = true := by decide
    rw [Nat.toDigits_eq_if hb] at h
    split at h
    · rename_i hn
      rw [List.mem_singleton.1 h]
      exact hdigit n (hn.trans_le hb')
    · rename_i hn
      rcases List.mem_append.1 h with h | h
      · exact ih (n / b) (Nat.div_lt_self (by omega) hb) h
      · rw [List.mem_singleton.1 h]
        exact hdigit _ ((Nat.mod_lt n (by omega)).trans_le hb')

theorem isAlphanum_of_mem_hex {width n : Nat} {c : Char} (h : c ∈ hex width n) : c.isAlphanum = true := by
  rcases List.mem_append.1 h with h | h
  · rw [List.eq_of_mem_replicate h]
    rfl
  · exact isAlphanum_of_mem_toDigits (by decide) (by decide) h

/-- A number that fits takes up the width. -/
theorem length_hex {width n : Nat} (hwidth : 0 < width) (h : n < 16 ^ width) :
    (hex width n).length = width := by
  have hdigits : (Nat.toDigits 16 n).length ≤ width := (Nat.length_toDigits_le_iff (by decide) hwidth).2 h
  rw [hex, List.length_append, List.length_replicate]
  omega

namespace Sha256

theorem length_round (state : List UInt32) (k : UInt32) : (round state k).length = state.length := by
  unfold round
  split <;> rfl

/-- Mixing a block in leaves as many words. -/
theorem length_compress (state : List UInt32) (block : List UInt8) :
    (compress state block).length = state.length := by
  have hrounds (w : Array UInt32) (is : List Nat) : (is.foldl
      (fun s i => round s (w.getD i 0 + roundWords.getD i 0)) state).length = state.length := by
    induction is generalizing state with
    | nil => rfl
    | cons i is ih =>
      rw [List.foldl_cons, ih]
      exact length_round ..
  rw [compress, List.length_zipWith, hrounds, Nat.min_self]

theorem length_digestBytes (bytes : List UInt8) : (digestBytes bytes).length = 8 := by
  have hblocks (state : List UInt32) (bs : List (List UInt8)) :
      (bs.foldl compress state).length = state.length := by
    induction bs generalizing state with
    | nil => rfl
    | cons b bs ih => rw [List.foldl_cons, ih, length_compress]
  exact hblocks startState _

/-- **A digest has 64 characters.** -/
theorem length_digest (s : String) : (digest s).toList.length = 64 := by
  have hwords (ws : List UInt32) : (ws.flatMap fun w => hex 8 w.toNat).length = 8 * ws.length := by
    induction ws with
    | nil => rfl
    | cons w ws ih =>
      rw [List.flatMap_cons, List.length_append, ih, length_hex (by decide) w.toNat_lt, List.length_cons]
      omega
  rw [digest, String.toList_ofList, hwords, length_digestBytes]

/-- They are letters and digits. -/
theorem isAlphanum_of_mem_digest {s : String} {c : Char} (h : c ∈ (digest s).toList) :
    c.isAlphanum = true := by
  rw [digest, String.toList_ofList] at h
  obtain ⟨w, -, hc⟩ := List.mem_flatMap.1 h
  exact isAlphanum_of_mem_hex hc

end Sha256
end Text
end CardTransfer

namespace CardTransfer
namespace Store

open Directory (SameAt parents)

variable {d d' : Directory} {path key text : String} {v : Json}

theorem cachePath_eq (key : String) : cachePath key = "translation_cache" ++ "/" ++ (key ++ ".txt") := by
  have hfolder : "translation_cache" ++ "/" = "translation_cache/" := by decide +kernel
  exact String.append_assoc.trans (congrArg (· ++ (key ++ ".txt")) hfolder.symm)

/-- Keeping a rendering leaves what is outside of its folder as it is. -/
theorem sameAt_putCached (h : putCached d key text = .ok d')
    (hway : ∀ p ∈ path :: parents path, ¬"translation_cache".toList <+: p.toList) :
    SameAt path d d' := by
  obtain ⟨k, -, hwrite⟩ := bind_eq_ok.1 h
  exact Directory.sameAt_write_of_folder (cachePath_eq k) (by decide) hway hwrite

theorem statePath_eq (key : String) : statePath key = "state" ++ "/" ++ (key ++ ".json") := by
  have hfolder : "state" ++ "/" = "state/" := by decide +kernel
  exact String.append_assoc.trans (congrArg (· ++ (key ++ ".json")) hfolder.symm)

/-- Setting a state leaves what is outside of its folder as it is. -/
theorem sameAt_setState (h : setState d key v = .ok d')
    (hway : ∀ p ∈ path :: parents path, ¬"state".toList <+: p.toList) : SameAt path d d' := by
  obtain ⟨k, -, hwrite⟩ := bind_eq_ok.1 h
  exact Directory.sameAt_write_of_folder (statePath_eq k) (by decide) hway hwrite

/-- The way to a state does not lead into the folder for renderings. -/
theorem not_prefix_of_mem_way {key p : String} (h : p ∈ statePath key :: parents (statePath key)) :
    ¬"translation_cache".toList <+: p.toList := by
  obtain ⟨tail, htail⟩ : ∃ tail, p.toList = "state".toList ++ tail := by
    rw [statePath_eq] at h
    rcases List.mem_cons.1 h with rfl | h
    · rw [String.toList_append, String.toList_append, List.append_assoc]
      exact ⟨_, rfl⟩
    · exact Directory.toList_of_mem_parents (by decide) h
  rintro ⟨rest, hrest⟩
  rw [htail] at hrest
  exact absurd (List.cons.inj hrest).1 (by decide)

theorem eq_of_checkKey {other : String} (h : checkKey key = .ok other) : other = key := by
  unfold checkKey at h
  split at h
  · cases h
    rfl
  · cases h

/-- The state of a key depends on what is at its path. -/
theorem getState_congr (h : SameAt (statePath key) d d') : getState d' key = getState d key := by
  unfold getState
  cases hkey : checkKey key with
  | error f => rfl
  | ok k =>
    rw [eq_of_checkKey hkey]
    exact h.readJson .null

/-- A state can be set exactly if its path can be written. -/
theorem setState_isOk_iff (hkey : checkKey key = .ok key)
    (hshort : Directory.isTooLong (statePath key) = false) :
    (∃ d', setState d key v = .ok d') ↔
      d.isObstructed (statePath key) = false ∧ d.isDirectory (statePath key) = false := by
  rw [setState, hkey, ok_bind, Directory.writeJson, Directory.write, hshort]
  cases d.isObstructed (statePath key) with
  | true => simp
  | false => cases d.isDirectory (statePath key) <;> simp

/-- A state that was set is read as `reread?` of it. -/
theorem getState_setState (hkey : checkKey key = .ok key)
    (hparent : statePath key ∉ parents (statePath key)) (h : setState d key v = .ok d') :
    getState d' key = (v.reread? .file).mapError (Json.Refusal.fault (v.write .file).toList) := by
  rw [setState, hkey, ok_bind] at h
  rw [getState, hkey, ok_bind, Directory.readJson, Directory.readJson?_writeJson h hparent]
  cases v.reread? .file <;> rfl

theorem cachePath_inj {other : String} (h : cachePath key = cachePath other) : key = other := by
  unfold cachePath at h
  have hlist : "translation_cache/".toList ++ key.toList ++ ".txt".toList =
      "translation_cache/".toList ++ other.toList ++ ".txt".toList := by
    rw [← String.toList_append, ← String.toList_append, ← String.toList_append, ← String.toList_append, h]
  exact String.toList_inj.1 (List.append_cancel_left (List.append_cancel_right hlist))

/-- **A rendering that is found was kept last, or was there before.** -/
theorem cached?_putCached {other kept : String} (h : putCached d key text = .ok d')
    (hfound : cached? d' other = .ok (some kept)) :
    other = key ∧ kept = String.ofList (Directory.readBreaks text.toList) ∨
      cached? d other = .ok (some kept) := by
  obtain ⟨k, hk, hwrite⟩ := bind_eq_ok.1 h
  obtain ⟨o, ho, hread⟩ := bind_eq_ok.1 hfound
  cases eq_of_checkKey hk
  cases eq_of_checkKey ho
  obtain ⟨rfl, -, -⟩ := Directory.eq_put_of_write hwrite
  rw [cached?, ho, ok_bind]
  unfold Directory.read? at hread ⊢
  rw [Directory.isDirectory_put] at hread
  split at hread
  · cases hread
  rename_i hlong
  split at hread
  · cases hread
  rename_i hdir
  rw [Bool.or_eq_true, not_or] at hdir
  rw [Directory.lookup_put] at hread
  split at hread
  · rename_i hpath
    cases hread
    exact .inl ⟨(cachePath_inj hpath).symm, rfl⟩
  · rw [if_neg hlong, if_neg hdir.1]
    exact .inr hread

end Store
end CardTransfer

/-!
## Renderings are read back

The store takes a rendering under every key that is not too long, unless a text stands in the place of the
folder for renderings or a folder in the place of the rendering (`Takes`). Then it is found under its key as
texts are read (`cached?_putCached_self`), and under another key is found what was found before
(`cached?_putCached_of_ne`). The keys of renderings of queries are digests and never too long.
-/

namespace CardTransfer
namespace Store

open Directory (parents asRead)

variable {d d' : Directory} {key other text : String}

theorem checkKey_of_isKey (h : isKey key = true) : checkKey key = .ok key := if_pos h

theorem isKey_of_checkKey (h : checkKey key = .ok other) : isKey key = true := by
  unfold checkKey at h
  split at h
  · assumption
  · cases h

/-- The characters of a key, apart from a line break at the end. -/
theorem mem_of_isKey {c : Char} (h : isKey key = true) (hc : c ∈ key.toList) : inKey c = true ∨ c = '\n' := by
  simp only [isKey, Bool.and_eq_true, List.all_eq_true] at h
  obtain ⟨-, hall⟩ := h
  split at hall
  · rename_i hlast
    rw [beq_iff_eq] at hlast
    have hkey : key.toList = key.toList.dropLast ++ ['\n'] :=
      (List.dropLast_append_getLast? _ hlast).symm
    rw [hkey] at hc
    rcases List.mem_append.1 hc with hc | hc
    · exact .inl (hall c hc)
    · exact .inr (List.mem_singleton.1 hc)
  · exact .inl (hall c hc)

theorem slash_not_mem_of_isKey {ending : String} (h : isKey key = true)
    (hending : '/' ∉ ending.toList) : '/' ∉ (key ++ ending).toList := by
  intro hc
  rw [String.toList_append, List.mem_append] at hc
  rcases hc with hc | hc
  · rcases mem_of_isKey h hc with hc | hc
    · exact absurd hc (by decide)
    · exact absurd hc (by decide)
  · exact hending hc

/-- The folder for renderings is all that is on the way to one. -/
theorem parents_cachePath (h : isKey key = true) : parents (cachePath key) = ["translation_cache"] := by
  rw [cachePath_eq]
  exact Directory.parents_append (by decide) (slash_not_mem_of_isKey h (by decide))

theorem cachePath_ne_folder (key : String) : cachePath key ≠ "translation_cache" := by
  intro h
  have hlength := congrArg (·.toList.length) h
  rw [cachePath_eq] at hlength
  simp only [String.toList_append, List.length_append] at hlength
  have hslash : "/".toList.length = 1 := rfl
  omega

/-- The store takes a rendering under a key. -/
structure Takes (d : Directory) (key : String) : Prop where
  valid : isKey key = true
  short : Directory.isTooLong (cachePath key) = false
  folder : d.files.lookup "translation_cache" = none
  place : d.isDirectory (cachePath key) = false

/-- What is found under a key that a rendering can be kept under. -/
theorem Takes.cached? (h : Takes d key) :
    cached? d key = .ok ((d.files.lookup (cachePath key)).map asRead) := by
  rw [Store.cached?, checkKey_of_isKey h.valid, ok_bind, Directory.read?, h.short, h.place]
  rfl

theorem Takes.putCached (h : Takes d key) (text : String) :
    putCached d key text = .ok ⟨Directory.put d.files (cachePath key) text⟩ := by
  have hway : d.isObstructed (cachePath key) = false := by
    rw [Directory.isObstructed, parents_cachePath h.valid, List.any_cons, h.folder]
    rfl
  rw [Store.putCached, checkKey_of_isKey h.valid, ok_bind, Directory.write, hway, h.short, h.place]
  rfl

/-- A rendering that could be kept was taken. -/
theorem takes_of_putCached (h : putCached d key text = .ok d') : Takes d key := by
  obtain ⟨k, hk, hwrite⟩ := bind_eq_ok.1 h
  cases eq_of_checkKey hk
  have hkey := isKey_of_checkKey hk
  obtain ⟨-, hlong, hdir⟩ := Directory.eq_put_of_write hwrite
  refine ⟨hkey, hlong, ?_, hdir⟩
  unfold Directory.write at hwrite
  split at hwrite
  · cases hwrite
  · rename_i hway
    rw [Directory.isObstructed, parents_cachePath hkey, List.any_cons, List.any_nil, Bool.or_false,
      Bool.not_eq_true, Option.isSome_eq_false_iff, Option.isNone_iff_eq_none] at hway
    exact hway

/-- Where one rendering has been kept, others can be kept as before. -/
theorem Takes.of_putCached (h : Takes d key) (hput : Store.putCached d other text = .ok d') :
    Takes d' key := by
  have hother := takes_of_putCached hput
  rw [hother.putCached text] at hput
  cases hput
  refine ⟨h.valid, h.short, ?_, ?_⟩
  · rw [Directory.lookup_put, if_neg (cachePath_ne_folder other)]
    exact h.folder
  · have hway : (parents (cachePath other)).contains (cachePath key) = false := by
      rw [parents_cachePath hother.valid]
      simpa using cachePath_ne_folder key
    rw [Directory.isDirectory_put, hway, Bool.or_false]
    exact h.place

/-- **A rendering that was kept is found as it is read.** -/
theorem cached?_putCached_self (h : putCached d key text = .ok d') :
    cached? d' key = .ok (some (asRead text)) := by
  have htakes := takes_of_putCached h
  rw [(htakes.of_putCached h).cached?]
  rw [htakes.putCached text] at h
  cases h
  rw [Directory.lookup_put, if_pos rfl]
  rfl

/-- Under another key is found what was found before. -/
theorem cached?_putCached_of_ne (hother : Takes d other) (hne : other ≠ key)
    (h : putCached d key text = .ok d') : cached? d' other = cached? d other := by
  rw [(hother.of_putCached h).cached?, hother.cached?]
  rw [(takes_of_putCached h).putCached text] at h
  cases h
  rw [Directory.lookup_put, if_neg fun hpath => hne (cachePath_inj hpath).symm]

/-! ### Keys of queries -/

variable {query context : String}

theorem isKey_cacheKey : isKey (Oracle.cacheKey query context) = true := by
  have hchars : ∀ c ∈ (Oracle.cacheKey query context).toList, c.isAlphanum = true := fun c hc =>
    Text.Sha256.isAlphanum_of_mem_digest hc
  have hlength : (Oracle.cacheKey query context).toList.length = 64 := Text.Sha256.length_digest _
  have hlast : ((Oracle.cacheKey query context).toList.getLast? == some '\n') = false := by
    refine beq_eq_false_iff_ne.2 fun hlast => ?_
    exact absurd (hchars _ (List.mem_of_getLast? hlast)) (by decide)
  have hsome : (Oracle.cacheKey query context).toList ≠ [] := by
    intro hnil
    rw [hnil] at hlength
    cases hlength
  simp only [isKey, hlast, Bool.and_eq_true, List.all_eq_true]
  refine ⟨by simpa using hsome, fun c hc => ?_⟩
  simp [inKey, hchars c (by simpa using hc)]

/-- Letters and digits take one byte each. -/
theorem utf8ByteSize_of_isAlphanum {cs : List Char} (h : ∀ c ∈ cs, c.isAlphanum = true) :
    (String.ofList cs).utf8ByteSize = cs.length := by
  induction cs with
  | nil => rfl
  | cons c cs ih =>
    have hc : c.utf8Size = 1 := by
      have hc : ((c.isUpper || c.isLower) || c.isDigit) = true := h c (List.mem_cons_self ..)
      rw [Bool.or_eq_true, Bool.or_eq_true] at hc
      rw [Char.utf8Size_eq_one_iff]
      rcases hc with (hupper | hlower) | hdigit
      · exact UInt32.le_trans (of_decide_eq_true hupper).2 (by decide)
      · exact UInt32.le_trans (of_decide_eq_true (Bool.and_eq_true_iff.1 hlower).2) (by decide)
      · exact UInt32.le_trans (of_decide_eq_true (Bool.and_eq_true_iff.1 hdigit).2) (by decide)
    rw [String.ofList_cons, String.utf8ByteSize_append, String.utf8ByteSize_singleton, hc,
      ih fun c hc => h c (List.mem_cons_of_mem _ hc), List.length_cons, Nat.add_comm]

/-- The key of a query is short enough. -/
theorem isTooLong_cacheKey : Directory.isTooLong (cachePath (Oracle.cacheKey query context)) = false := by
  have hsize : (Oracle.cacheKey query context).utf8ByteSize = 64 := by
    rw [← String.ofList_toList (s := Oracle.cacheKey query context), utf8ByteSize_of_isAlphanum]
    · exact Text.Sha256.length_digest _
    · exact fun c hc => Text.Sha256.isAlphanum_of_mem_digest hc
  have hnames : Directory.names (cachePath (Oracle.cacheKey query context)) =
      ["translation_cache", Oracle.cacheKey query context ++ ".txt"] := by
    rw [cachePath_eq, Directory.names_append (by decide)]
    exact congrArg _ (Directory.names_eq_singleton (slash_not_mem_of_isKey isKey_cacheKey (by decide)))
  have hname : (Oracle.cacheKey query context ++ ".txt").utf8ByteSize = 68 := by
    rw [String.utf8ByteSize_append, hsize]
    rfl
  rw [Directory.isTooLong, hnames, List.any_cons, List.any_cons, hname]
  rfl

end Store
end CardTransfer
