import TowerAgent.Plan.Signature
import TowerAgent.Plan.Baseline
import TowerAgent.Workflow.Confluence
import TowerAgent.Workflow.Admission
import TowerAgent.Workflow.Canonical
import TowerAgent.Workflow.Pipeline
import TowerAgent.Kernel.Evidence
import TowerAgent.Kernel.Disclaimer
import TowerAgent.Kernel.Refusal
import TowerAgent.Kernel.Ownership
import TowerAgent.Kernel.Capacity
import TowerAgent.Kernel.Nested
import TowerAgent.Kernel.ReceiptGuard
import TowerAgent.Kernel.Coherence
import TowerAgent.Codex.Session
import TowerAgent.Claude.Assignment
import TowerAgent.Adapter.Structured
import TowerAgent.Adapter.Parity
import TowerAgent.Plan.Router
import TowerAgent.Local.Fencing
import TowerAgent.Durable.Claims
import TowerAgent.Durable.Recovery
import TowerAgent.Events.Accounting
import TowerAgent.Events.Progress
import TowerAgent.Mcp.Causes
import TowerAgent.Mcp.Redaction
import TowerAgent.Mcp.Retention
import TowerAgent.Mcp.PlanRounds
import TowerAgent.Mcp.Isolation
import TowerAgent.Plan.Fold
import TowerAgent.Plan.Wire
import TowerAgent.Kernel.Authority
import TowerAgent.Codex.Controls
import TowerAgent.Mcp.Totals
import TowerAgent.Codex.Skills
import TowerAgent.Worker.Runs
import TowerAgent.Local.Replay
import TowerAgent.Workflow.Termination
import TowerAgent.Workflow.Agents
import TowerAgent.Plan.Launched
