import CardTransfer.Session.Basic

/-!
# Workspaces

A workspace is a document that holds what the program works with from one run to the next.

| member | what it holds | if it is left out |
| --- | --- | --- |
| `cards` | the cards of the instance of Metabase | none |
| `next_id` | the id of the next card that it creates | 1001 |
| `schemas` | the descriptions of its databases, by id | none |
| `user` | its user | null |
| `answers` | the answers that the oracle will give | no oracle |
| `store` | the texts of the store, by path | none |
| `today` | the time as it is put on records | the empty text |
-/

namespace CardTransfer
namespace Workspace

/-- The member of a workspace under a key; null if it is left out. -/
def part (ms : Members) (key : String) : Json := Json.ofOption (Members.get? ms key)

/-- The instance of Metabase in a workspace. -/
def metabase (ms : Members) : Except Fault Metabase.Instance := do
  let start : Metabase.Instance := { Metabase.Instance.empty (part ms "user") with
    nextId := ← ((part ms "next_id").orElse (.int Metabase.Instance.firstId)).toInt
    schemas := ← ((part ms "schemas").orElse (.obj [])).membersFor "get" }
  (← ((part ms "cards").orElse (.arr [])).each).foldlM Metabase.Instance.addCard start

/-- The store in a workspace. -/
def directory (ms : Members) : Except Fault Directory := do
  (← ((part ms "store").orElse (.obj [])).membersFor "get").foldlM
    (fun d p => d.write p.1 p.2.shown) Directory.empty

/-- What the oracle answers: texts, and nothing for null. -/
def answer (v : Json) : Oracle.Answer := (v.str?.map .text).getD .nothing

/-- What an answer is written as; a failure counts as nothing. -/
def ofAnswer : Oracle.Answer → Json
  | .text t => .str t
  | _ => .null

/-- The answers of the oracle in a workspace; none if there is no oracle. -/
def answers? (ms : Members) : Except Fault (Option (List Oracle.Answer)) :=
  match part ms "answers" with
  | .null => .ok none
  | v => return some ((← v.each).map answer)

/-- The session that begins with a workspace. -/
def session (v : Json) : Except Fault Session := do
  let ms ← v.membersFor "get"
  return { (default : Session) with
    metabase := ← metabase ms
    oracle := ← answers? ms
    clock := .float 0.0
    today := ((part ms "today").str?).getD ""
    directory := ← directory ms
    journal := .empty }

/-- The workspace that a session leaves. -/
def ofSession (s : Session) : Json := .obj [
  ("cards", .arr (s.metabase.cards.map (·.2))),
  ("next_id", .int s.metabase.nextId),
  ("schemas", .obj s.metabase.schemas),
  ("user", s.metabase.user),
  ("answers", Json.ofOption (s.oracle.map fun answers => .arr (answers.map ofAnswer))),
  ("store", .obj (s.directory.files.map fun f => (f.1, .str f.2))),
  ("today", .str s.today)]

/-- An answer that is no failure is read as it was written. -/
theorem answer_ofAnswer (a : Oracle.Answer) (h : ∀ f, a ≠ .failed f) : answer (ofAnswer a) = a := by
  cases a with
  | text t => rfl
  | nothing => rfl
  | failed f => exact absurd rfl (h f)

end Workspace
end CardTransfer
