import CardTransfer.Proofs.Sql.Call
import CardTransfer.Proofs.Sql.Operand
import CardTransfer.Proofs.Sql.Residual

/-!
# Line comments

The rules know nothing of comments: what they do to a line comment, and to the text behind it, is what they
do to any text. A comment in which nothing stands that they take (`Bland`) is kept, and the text behind it
changed as it is without it, if the comment has an even number of quotes (`applyRules_comment`).

Two things can still tie the text to the comment. One quote turns what is inside of literals and what is
outside around for all that follows, so that casts stay and constructs are not reported. And a cast that has
no operand may find one in the comment, where it closes a quote, a parenthesis or a brace that only the
comment opens (`Contained`).
-/

namespace CardTransfer
namespace Sql

open Text (breaksBefore Clear isMatch lastOr)

variable {c s v : List Char}

/-- A line comment and the end of its line. -/
def comment (c : List Char) : List Char := '-' :: '-' :: c ++ ['\n']

/-- A comment in which no construct that is reported and no name that is exchanged starts, whatever follows
its line. -/
structure Bland (c : List Char) : Prop where
  constructs : ∀ k ∈ constructs, ∀ v, Clear k.2 none (comment c) v
  names : ∀ r ∈ renames, ∀ v, Clear (isMatch r.1) none (comment c) v

/-- It can be seen by evaluation. -/
theorem bland_of_clear
    (hconstructs : ∀ v, (Sql.constructs.all fun k => decide (Clear k.2 none (comment c) v)) = true)
    (hnames : ∀ v, (renames.all fun r => decide (Clear (isMatch r.1) none (comment c) v)) = true) :
    Bland c where
  constructs k hk v := of_decide_eq_true (List.all_eq_true.1 (hconstructs v) k hk)
  names r hr v := of_decide_eq_true (List.all_eq_true.1 (hnames v) r hr)

/-! ### The line of a comment -/

theorem oddQuotes_comment (c : List Char) : oddQuotes (comment c) = oddQuotes c := by
  have hend : oddQuotes ['\n'] = false := rfl
  rw [comment, oddQuotes_append, oddQuotes_cons, oddQuotes_cons, hend, Bool.xor_false]
  exact (Bool.xor_false _).trans (Bool.xor_false _)

theorem reverse_comment (c : List Char) : (comment c).reverse = '\n' :: ('-' :: '-' :: c).reverse := by
  rw [comment, List.reverse_append]
  rfl

theorem getLast?_comment (c : List Char) : (comment c).getLast? ≠ some '\'' := by
  rw [comment, List.getLast?_concat]
  decide

theorem breaksBefore_comment (c : List Char) : breaksBefore (lastOr none (comment c)) = true := by
  rw [comment, Text.lastOr_append]
  exact (by decide : breaksBefore (some '\n') = true)

theorem called_eq (name : String) : called name = isMatch (callRule name.toList) := by
  funext before cs
  rw [called, isMatch, callRule, Option.isSome_map]

/-! ### The rules behind a comment -/

theorem replaceCalls_comment {function : String} {handler : List Char → Option (List Char)}
    (hbland : Bland c) (heven : oddQuotes c = false) (hfunction : (function, called function) ∈ constructs) :
    replaceCalls function handler (comment c ++ s) = comment c ++ replaceCalls function handler s := by
  refine replaceCalls_append ?_ (breaksBefore_comment c) ?_
  · rw [oddQuotes_comment, heven]
  · rw [← called_eq]
    exact hbland.constructs _ hfunction s

/-- The casts of a text are converted behind a comment as they are without it, if none reaches into it. -/
theorem convertPostfixCasts_comment (hbland : Bland c) (heven : oddQuotes c = false)
    (hcontained : Contained (comment c).reverse [] s) :
    convertPostfixCasts (comment c ++ s) = comment c ++ convertPostfixCasts s := by
  have hcolons : Clear (fixedText "::") none (comment c) s :=
    hbland.constructs ("postfix cast", fixedText "::") (by simp [constructs]) s
  have hquotes : oddQuotes ('-' :: '-' :: c).reverse = false := by
    rw [oddQuotes, List.count_reverse]
    exact heven
  rw [reverse_comment] at hcontained
  have hline := convertPostfixFrom_line hquotes hcontained
  rw [← reverse_comment, List.reverse_reverse, List.nil_append] at hline
  unfold convertPostfixCasts
  rw [convertPostfixFrom_append hcolons, List.append_nil, hline]

theorem foldl_rename_comment (hbland : Bland c) (heven : oddQuotes c = false)
    {rules : List (Text.Rule Unit × String)} (hrules : ∀ r ∈ rules, r ∈ renames) :
    rules.foldl (fun text r => rename r.1 r.2 text) (comment c ++ s) =
      comment c ++ rules.foldl (fun text r => rename r.1 r.2 text) s := by
  induction rules generalizing s with
  | nil => rfl
  | cons r rules ih =>
    have hr := hrules r (List.mem_cons_self ..)
    have hrename : rename r.1 r.2 (comment c ++ s) = comment c ++ rename r.1 r.2 s :=
      rename_append (lexicalRule_renames r hr) (by rw [oddQuotes_comment, heven]) (getLast?_comment c)
        (breaksBefore_comment c) (hbland.names r hr)
    rw [List.foldl_cons, List.foldl_cons, hrename, ih fun q hq => hrules q (List.mem_cons_of_mem _ hq)]

/-- **All rules pass over a comment with an even number of quotes.** -/
theorem applyRules_comment (hbland : Bland c) (heven : oddQuotes c = false)
    (hcontained : Contained (comment c).reverse [] (convertCasts s)) :
    applyRules (comment c ++ s) = comment c ++ applyRules s := by
  have hcalls {function : String} {handler : List Char → Option (List Char)} {s : List Char}
      (hfunction : (function, called function) ∈ constructs) :
      replaceCalls function handler (comment c ++ s) = comment c ++ replaceCalls function handler s :=
    replaceCalls_comment hbland heven hfunction
  have hcasts : convertCasts (comment c ++ s) = comment c ++ convertCasts s :=
    hcalls (by simp [constructs])
  unfold applyRules
  dsimp only
  rw [hcasts, convertPostfixCasts_comment hbland heven hcontained, replaceDateTrunc,
    hcalls (by simp [constructs]), replaceDatePart, hcalls (by simp [constructs]),
    hcalls (by simp [constructs]), hcalls (by simp [constructs]),
    foldl_rename_comment hbland heven fun _ hr => hr]
  rfl

theorem residual_comment (hbland : Bland c) (heven : oddQuotes c = false) (s : List Char) :
    residual (comment c ++ s) = residual s :=
  residual_append (by rw [oddQuotes_comment, heven]) (getLast?_comment c) (breaksBefore_comment c)
    hbland.constructs s

theorem toClickHouse_comment {c s : String} (hbland : Bland c.toList) (heven : oddQuotes c.toList = false)
    (hcontained : Contained (comment c.toList).reverse [] (convertCasts s.toList)) :
    toClickHouse ("--" ++ c ++ "\n" ++ s) = "--" ++ c ++ "\n" ++ toClickHouse s := by
  have htext : ("--" ++ c ++ "\n" ++ s).toList = comment c.toList ++ s.toList := by simp [comment]
  have hline : String.ofList (comment c.toList) = "--" ++ c ++ "\n" := by simp [← String.toList_inj, comment]
  unfold toClickHouse
  rw [htext, applyRules_comment hbland heven hcontained, String.ofList_append, hline]

theorem residualConstructs_comment {c s : String} (hbland : Bland c.toList)
    (heven : oddQuotes c.toList = false) :
    residualConstructs ("--" ++ c ++ "\n" ++ s) = residualConstructs s := by
  have htext : ("--" ++ c ++ "\n" ++ s).toList = comment c.toList ++ s.toList := by simp [comment]
  unfold residualConstructs
  rw [htext, residual_comment hbland heven]

/-- A comment without quotes, opening parentheses and opening braces hides nothing. -/
theorem plainComment_hides_nothing {c : String} (hbland : Bland c.toList)
    (hplain : ∀ d ∈ ['\'', '"', '(', '\x7b'], d ∉ c.toList) (s : String) :
    toClickHouse ("--" ++ c ++ "\n" ++ s) = "--" ++ c ++ "\n" ++ toClickHouse s ∧
      residualConstructs (toClickHouse ("--" ++ c ++ "\n" ++ s)) = residualConstructs (toClickHouse s) := by
  have heven : oddQuotes c.toList = false := by
    rw [oddQuotes, List.count_eq_zero.2 (hplain '\'' (by simp))]
    rfl
  have hcontained : Contained (comment c.toList).reverse [] (convertCasts s.toList) := by
    rw [reverse_comment]
    refine contained_of_plain (fun d hd => ?_) _ _
    have hdash : d ≠ '-' := by
      rintro rfl
      revert hd
      decide
    rw [List.mem_reverse, List.mem_cons, List.mem_cons, not_or, not_or]
    exact ⟨hdash, hdash, hplain d hd⟩
  have hrules := toClickHouse_comment hbland heven hcontained
  rw [hrules, residualConstructs_comment hbland heven]
  exact ⟨rfl, rfl⟩

/-- **A line comment with an even number of quotes hides nothing:** the rules do to the text behind it what
they do to the text alone, and the same constructs are reported, before the rules and after. The text must
hold no cast whose operand is found in the comment alone. -/
theorem comment_hides_nothing (c s : String) (hbland : Bland c.toList) (heven : oddQuotes c.toList = false)
    (hcontained : Contained (comment c.toList).reverse [] (convertCasts s.toList)) :
    toClickHouse ("--" ++ c ++ "\n" ++ s) = "--" ++ c ++ "\n" ++ toClickHouse s ∧
      residualConstructs ("--" ++ c ++ "\n" ++ s) = residualConstructs s ∧
      residualConstructs (toClickHouse ("--" ++ c ++ "\n" ++ s)) = residualConstructs (toClickHouse s) := by
  have hrules := toClickHouse_comment hbland heven hcontained
  refine ⟨hrules, residualConstructs_comment hbland heven, ?_⟩
  rw [hrules, residualConstructs_comment hbland heven]

/-- A text with a cast and a construct that is reported, behind a comment with quotes. -/
theorem comment_hides_nothing_netTotal :
    toClickHouse ("--" ++ " monthly 'net' total" ++ "\n" ++ "select to_char(x::date)") =
        "--" ++ " monthly 'net' total" ++ "\n" ++ toClickHouse "select to_char(x::date)" ∧
      residualConstructs ("--" ++ " monthly 'net' total" ++ "\n" ++ "select to_char(x::date)") =
        residualConstructs "select to_char(x::date)" ∧
      residualConstructs (toClickHouse ("--" ++ " monthly 'net' total" ++ "\n" ++ "select to_char(x::date)")) =
        residualConstructs (toClickHouse "select to_char(x::date)") := by
  refine comment_hides_nothing " monthly 'net' total" "select to_char(x::date)"
    (bland_of_clear (fun _ => rfl) fun _ => rfl) (by decide) ?_
  have hcasts : convertCasts "select to_char(x::date)".toList =
      "select to_char(x".toList ++ "::date)".toList := by
    decide +kernel
  have hcast : castAt? ("select to_char(x".toList.reverse ++ []) "::date)".toList =
      some ("(rahc_ot tceles".toList, "toDate(x))".toList) := by
    decide +kernel
  have hbefore : Clear (fixedText "::") none "select to_char(x".toList "::date)".toList := by decide
  have hafter : Clear (fixedText "::") none "toDate(x))".toList [] := by decide
  rw [hcasts]
  exact contained_append hbefore (.converted hcast (contained_append hafter .nil))

/-- A comment with one quote: the cast behind it stays, and a call that has no counterpart is not reported. -/
theorem comment_hides_cast : '\n' ∉ " don't".toList ∧ Bland " don't".toList ∧
    toClickHouse "-- don't\nselect x::date" = "-- don't\nselect x::date" ∧
    toClickHouse "select x::date" = "select toDate(x)" ∧
    residualConstructs (toClickHouse "-- don't\nselect to_char(x) || 'a'") = [] ∧
    residualConstructs (toClickHouse "select to_char(x) || 'a'") = ["to_char"] :=
  ⟨by decide, bland_of_clear (fun _ => rfl) fun _ => rfl, by decide +kernel, by decide +kernel,
    by decide +kernel, by decide +kernel⟩

end Sql
end CardTransfer
