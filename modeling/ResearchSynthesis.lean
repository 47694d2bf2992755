import ResearchSynthesis.Python.Text
import ResearchSynthesis.Python.Lines
import ResearchSynthesis.Python.Words
import ResearchSynthesis.Python.Utf8
import ResearchSynthesis.Python.Value
import ResearchSynthesis.Python.Decimal
import ResearchSynthesis.Python.Reading
import ResearchSynthesis.StateGraph.Graph
import ResearchSynthesis.StateGraph.Run
import ResearchSynthesis.StateGraph.Agreement
import ResearchSynthesis.StateGraph.Interpreter
import ResearchSynthesis.StateGraph.Ordered
import ResearchSynthesis.Exceptions
import ResearchSynthesis.State
import ResearchSynthesis.Config
import ResearchSynthesis.Python.Files
import ResearchSynthesis.Python.DateTime
import ResearchSynthesis.Python.Order
import ResearchSynthesis.Observability
import ResearchSynthesis.Agents.Calls
import ResearchSynthesis.Agents.Llm
import ResearchSynthesis.Agents.Searcher
import ResearchSynthesis.Agents.Summarizer
import ResearchSynthesis.Agents.SearchContract
import ResearchSynthesis.Agents.Supervisor
import ResearchSynthesis.Report
import ResearchSynthesis.Graph
import ResearchSynthesis.Main
import ResearchSynthesis.CommonMark.Inline
import ResearchSynthesis.CommonMark.Escaping
import ResearchSynthesis.CommonMark.Links
import ResearchSynthesis.CommonMark.Substitution
import ResearchSynthesis.CommonMark.Table
import ResearchSynthesis.Report.Links
import ResearchSynthesis.Report.Urls
import ResearchSynthesis.Report.Document
import ResearchSynthesis.Report.Confinement
import ResearchSynthesis.Report.Citations
import ResearchSynthesis.Graph.Branch
import ResearchSynthesis.Report.Order
import ResearchSynthesis.Report.CostTable
import ResearchSynthesis.Report.Reading
import ResearchSynthesis.Graph.Run
import ResearchSynthesis.Graph.FanOut
import ResearchSynthesis.Graph.Completion
import ResearchSynthesis.Graph.Degradation
import ResearchSynthesis.Graph.Attribution
import ResearchSynthesis.Graph.Ledger
import ResearchSynthesis.Graph.Tracing
import ResearchSynthesis.Main.Saving
import ResearchSynthesis.Main.Cli
import ResearchSynthesis.Graph.Pipeline
import ResearchSynthesis.Graph.Ordered
import ResearchSynthesis.Graph.History
import ResearchSynthesis.Graph.Outcomes
import ResearchSynthesis.Graph.Isolation
import ResearchSynthesis.Main.Tracing
import ResearchSynthesis.Main.Contract
import ResearchSynthesis.Main.Confinement
import ResearchSynthesis.Main.Inquiries
import ResearchSynthesis.Main.History
import ResearchSynthesis.Main.Artifacts
import ResearchSynthesis.Main.Chronology
import ResearchSynthesis.Main.Naming
import ResearchSynthesis.Main.Slug
import ResearchSynthesis.Main.Sequence
import ResearchSynthesis.Observability.CostRow
import ResearchSynthesis.Observability.CostDocument
import ResearchSynthesis.Observability.Reading
import ResearchSynthesis.Observability.Recovery
import ResearchSynthesis.Report.Encoding
import ResearchSynthesis.Main.Encoding
