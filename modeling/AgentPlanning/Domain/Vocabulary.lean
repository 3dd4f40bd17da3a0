import AgentPlanning.KeyMap
import AgentPlanning.Order.Basic

/-!
# Vocabularies

The names that the game, and not the domain description, gives meaning to: order tags and
blackboard keys.
-/

namespace AgentPlanning

/-- Names known to the game. -/
structure Vocabulary where
  /-- The order tags. -/
  tags : KeyMap String OrderTag := .empty
  intKeys : KeyMap String IntKey := .empty
  entityKeys : KeyMap String EntityKey := .empty
deriving DecidableEq, Inhabited

/-- The vocabulary of the given entries; of two entries for one name the later counts. -/
def Vocabulary.ofLists (tags : List (String × OrderTag)) (intKeys : List (String × IntKey))
    (entityKeys : List (String × EntityKey)) : Vocabulary :=
  ⟨.ofList tags, .ofList intKeys, .ofList entityKeys⟩

end AgentPlanning
