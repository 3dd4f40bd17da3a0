import AgentPlanning.Agent
import AgentPlanning.Description.Json
import AgentPlanning.Json.Parser
import AgentPlanning.Json.Printer
import AgentPlanning.Proofs.Action.Candidates
import AgentPlanning.Proofs.Agent.Calls
import AgentPlanning.Proofs.Agent.Events
import AgentPlanning.Proofs.Agent.Safety
import AgentPlanning.Proofs.Blackboard
import AgentPlanning.Proofs.Description.Builder
import AgentPlanning.Proofs.Description.RoundTrip
import AgentPlanning.Proofs.Domain.Closed
import AgentPlanning.Proofs.Domain.Diagnostics
import AgentPlanning.Proofs.Domain.Faithful
import AgentPlanning.Proofs.Search.Answers
import AgentPlanning.Proofs.Search.BreadthFirst
import AgentPlanning.Proofs.Search.Buffer
import AgentPlanning.Proofs.Search.Consistency
import AgentPlanning.Proofs.Search.Exhaustion
import AgentPlanning.Proofs.Search.LargerBudget
import AgentPlanning.Proofs.Search.UnitCost
import AgentPlanning.Proofs.TaskNetwork.Answers
import AgentPlanning.Proofs.TaskNetwork.LargerBudget
import AgentPlanning.Proofs.Utility.Range
import AgentPlanning.Proofs.Search.Relevance
import AgentPlanning.Proofs.Action.Agreement
import AgentPlanning.Proofs.Agreement
import AgentPlanning.Proofs.Search.ParentLinks
import AgentPlanning.Proofs.TaskNetwork.Budgets
import AgentPlanning.Proofs.Binary32.Order
import AgentPlanning.Proofs.Utility.Selection
import AgentPlanning.Proofs.Order.Calls
import AgentPlanning.Proofs.TaskNetwork.Faults
import AgentPlanning.Proofs.TaskNetwork.Nesting
import AgentPlanning.Proofs.AtomRegistry
import AgentPlanning.Proofs.Order.Binding
import AgentPlanning.Proofs.Projection
import AgentPlanning.Proofs.Trace
import AgentPlanning.Proofs.Action.CountingSort
import AgentPlanning.Proofs.Search.Graph
import AgentPlanning.Proofs.Search.Insertions
import AgentPlanning.Proofs.Search.OpenClosed
import AgentPlanning.Proofs.TaskNetwork.Output
import AgentPlanning.Proofs.TaskNetwork.Enumeration
import AgentPlanning.Proofs.WorldState.Atomwise
import AgentPlanning.Proofs.WorldState.Cursor
import AgentPlanning.Proofs.WorldState.Text
