/-
A client for the control plane of an application made of modules: what modules
and versions it has, how many instances they run, and under which hostnames
they are reached.
-/
import ControlPlane.Access
import ControlPlane.Admin.Backend
import ControlPlane.Admin.Http
import ControlPlane.Admin.Listing
import ControlPlane.Admin.Patch
import ControlPlane.Admin.Path
import ControlPlane.Admin.Reply
import ControlPlane.Backend
import ControlPlane.Client
import ControlPlane.CommandLine.Invocation
import ControlPlane.CommandLine.Program
import ControlPlane.CommandLine.Words
import ControlPlane.Dialogue
import ControlPlane.Double
import ControlPlane.Failure
import ControlPlane.Fault
import ControlPlane.Hostname
import ControlPlane.Identity
import ControlPlane.Json.Basic
import ControlPlane.Json.Decoder
import ControlPlane.Json.Numeral
import ControlPlane.Legacy.Backend
import ControlPlane.Legacy.Endpoint
import ControlPlane.Legacy.Message
import ControlPlane.Legacy.Policy
import ControlPlane.Legacy.Status
import ControlPlane.Legacy.Wire
import ControlPlane.Main
import ControlPlane.NameMap
import ControlPlane.Pending
import ControlPlane.Proofs.Additions
import ControlPlane.Proofs.Addressing
import ControlPlane.Proofs.Agreement
import ControlPlane.Proofs.Background
import ControlPlane.Proofs.Calls
import ControlPlane.Proofs.Conditions
import ControlPlane.Proofs.Construction
import ControlPlane.Proofs.Deadline
import ControlPlane.Proofs.Decimal
import ControlPlane.Proofs.DefaultVersion
import ControlPlane.Proofs.Demand
import ControlPlane.Proofs.Detail
import ControlPlane.Proofs.Dialogue
import ControlPlane.Proofs.Document
import ControlPlane.Proofs.Environment
import ControlPlane.Proofs.Exchange
import ControlPlane.Proofs.Fallible
import ControlPlane.Proofs.FirstFailure
import ControlPlane.Proofs.Flaw
import ControlPlane.Proofs.Grammar
import ControlPlane.Proofs.Hex
import ControlPlane.Proofs.Hostname
import ControlPlane.Proofs.Instance
import ControlPlane.Proofs.Interleaving
import ControlPlane.Proofs.Json
import ControlPlane.Proofs.Layers
import ControlPlane.Proofs.Leaves
import ControlPlane.Proofs.Listing
import ControlPlane.Proofs.Message
import ControlPlane.Proofs.Methods
import ControlPlane.Proofs.Notation
import ControlPlane.Proofs.NotationReader
import ControlPlane.Proofs.Numeral
import ControlPlane.Proofs.Override
import ControlPlane.Proofs.Paging
import ControlPlane.Proofs.Patch
import ControlPlane.Proofs.Path
import ControlPlane.Proofs.Pending
import ControlPlane.Proofs.Policy
import ControlPlane.Proofs.Program
import ControlPlane.Proofs.Quotation
import ControlPlane.Proofs.Reader
import ControlPlane.Proofs.Record
import ControlPlane.Proofs.Repair
import ControlPlane.Proofs.Replies
import ControlPlane.Proofs.Requests
import ControlPlane.Proofs.Resource
import ControlPlane.Proofs.Sections
import ControlPlane.Proofs.Sources
import ControlPlane.Proofs.Status
import ControlPlane.Proofs.Target
import ControlPlane.Proofs.UnexpectedState
import ControlPlane.Proofs.Utf8
import ControlPlane.Proofs.Verbatim
import ControlPlane.Proofs.Wire
import ControlPlane.Proofs.Words
import ControlPlane.Proofs.Worth
import ControlPlane.Request
import ControlPlane.Rpc
import ControlPlane.Settings
import ControlPlane.Settings.File
import ControlPlane.Settings.Load
import ControlPlane.Settings.Source
import ControlPlane.Settings.Tree
import ControlPlane.Settings.Variable
import ControlPlane.Submission
import ControlPlane.Text.Blank
import ControlPlane.Text.Decimal
import ControlPlane.Text.Hex
import ControlPlane.Text.Order
import ControlPlane.Text.Percent
import ControlPlane.Text.Scientific
import ControlPlane.Text.Utf8
import ControlPlane.TrafficSplit
import ControlPlane.Uri
import ControlPlane.Version
import ControlPlane.Yaml.Cursor
import ControlPlane.Yaml.Layout
import ControlPlane.Yaml.Node
import ControlPlane.Yaml.Scalar
import ControlPlane.Yaml.Token
import ControlPlane.Yaml.Value
