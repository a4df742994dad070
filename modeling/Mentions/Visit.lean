import Mentions.Element
import Mentions.Node

/-! # Visits and their replay

A visit is one node that a visitor reported, with what the inference found for it and the element
around it. Recorded visits are replayed in order until the consumer asks to stop.
-/

namespace Mentions

structure Visit where
  node : Node
  inference : Inference
  element : Element

/-- What a consumer of visits answers. -/
inductive VisitStatus where
  | continue
  | stop
  deriving DecidableEq, Repr

/-- A consumer of visits, as a machine over its states. -/
abbrev Visitor (σ : Type) := σ → Visit → VisitStatus × σ

/-- Gives visits to a consumer until it asks to stop, and counts those given. -/
def replay {σ : Type} (visitor : Visitor σ) : σ → List Visit → Nat × σ
  | s, [] => (0, s)
  | s, v :: rest =>
    match visitor s v with
    | (.stop, s) => (1, s)
    | (.continue, s) =>
      let (delivered, s) := replay visitor s rest
      (delivered + 1, s)

end Mentions
