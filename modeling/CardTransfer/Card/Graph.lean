import CardTransfer.Card.Reference

/-!
# The graph of references

A card consumes the cards that it refers to; they provide for it. A graph lists cards, each id once,
with the providers of each; a provider need not be listed.

* `order` puts the listed cards into an order in which every listed provider comes before its
  consumers. Cards without listed providers come first, in increasing order; a card joins the end
  of the queue as soon as the last of its listed providers has left it. Cards from which a circle
  of references is reached never join, and then the order is a fault that names them.
* `allProviders` lists what a card depends on at any distance, deepest first.
* `blocked` spreads from some cards to their consumers; cards that are done stop it.
-/

namespace CardTransfer

/-- A listed card. -/
structure Node where
  id : Json
  providers : Ids
  deriving Inhabited

/-- Listed cards by id. -/
structure Graph where
  nodes : IdMap Node

namespace Graph

/-- The node of a card. -/
def nodeOf (card : Card) : Except Fault Node := do
  return ⟨card.id, ← card.findReferences⟩

/-- The graph of some cards; of two with the same id the later one counts. -/
def ofCards (cards : List Card) : Except Fault Graph := do
  let listed := IdMap.ofList (← cards.mapM fun card => do return (← card.id.asKey, card))
  return ⟨← listed.mapM fun p => do return (p.1, ← nodeOf p.2)⟩

variable (g : Graph)

/-- Whether a card is listed. -/
def listed (id : Json) : Bool := IdMap.has g.nodes id

/-- The cards that a card refers to; none if it is not listed. -/
def providers (id : Json) : Ids := ((IdMap.get? g.nodes id).map (·.providers)).getD []

/-- The listed cards that refer to a card, in the order of the list. -/
def consumers (id : Json) : Ids :=
  (g.nodes.filter fun p => p.2.providers.has id).map fun p => p.2.id

/-- Whether all listed providers of a card are done. -/
def providedBy (done : Ids) (id : Json) : Bool := Ids.within ((g.providers id).filter g.listed) done

/-- Takes cards from the queue one by one. -/
def arrange : Nat → Ids → Ids → Except Fault Ids
  | 0, done, _ => .ok done
  | _, done, [] => .ok done
  | n + 1, done, card :: queue => do
    let done := done ++ [card]
    let freed := (← (g.consumers card).sort).filter (g.providedBy done)
    arrange n done (queue ++ freed)

/-- The cards that can be put into an order with providers first. -/
def arranged : Except Fault Ids := do
  let roots ← Ids.sort ((IdMap.ids g.nodes).filter (g.providedBy []))
  g.arrange g.nodes.length [] roots

/-- The listed cards that are missing from an order. -/
def missing (order : Ids) : Ids := (IdMap.ids g.nodes).without order

/-- All listed cards, providers first. -/
def order : Except Fault Ids := do
  let done ← g.arranged
  let stuck := g.missing done
  if stuck.isEmpty then return done else throw (.cycle (← stuck.sort))

/-- The cards in a circle of references or behind one. -/
def cyclic : Except Fault Ids :=
  match g.order with
  | .ok _ => .ok []
  | .error (.cycle cards) => .ok cards
  | .error f => .error f

/-- Visits a card after all that it depends on. The first list holds the cards met so far, the
second those left again. -/
def visit : Nat → Ids × Ids → Json → Ids × Ids
  | 0, s, _ => s
  | n + 1, s, card =>
    if s.1.has card then s
    else
      let inner := (g.providers card).foldl (visit n) (s.1 ++ [card], s.2)
      (inner.1, inner.2 ++ [card])

/-- The cards that a card depends on, directly or not, deepest first. -/
def allProviders (card : Json) : Ids := (g.visit (g.nodes.length + 2) ([], []) card).2.dropLast

/-- Adds the consumers of the cards in the queue, theirs, and so on. -/
def spread (done : Ids) : Nat → Ids → Ids → Ids
  | 0, reached, _ => reached
  | _, reached, [] => reached
  | n + 1, reached, card :: queue =>
    let fresh := (g.consumers card).filter fun c => !(reached.has c || done.has c)
    spread done n (reached ++ fresh) (queue ++ fresh)

/-- The cards that are not done and are among the seeds or depend on a seed through cards that are
not done. -/
def blocked (seeds done : Ids) : Ids :=
  let start := Ids.distinct (seeds.without done)
  g.spread done (start.length + g.nodes.length) start start

end Graph

/-- Adds the consumer of some providers to a table of consumers. -/
def addConsumer (consumer : Json) (table : IdMap Ids) (provider : Json) : IdMap Ids :=
  IdMap.insert table provider ((IdMap.get? table provider).getD [] ++ [consumer])

/-- The consumers of every card that is listed or referred to, in the order of the list. -/
def consumerTable (cards : List Card) : Except Fault (IdMap Ids) :=
  cards.foldlM (fun table card => do
    let id ← card.id.asKey
    let table := if IdMap.has table id then table else IdMap.insert table id []
    return (← card.findReferences).foldl (addConsumer id) table) []

end CardTransfer
