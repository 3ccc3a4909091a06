import Findings.Log.Call
import Findings.Log.Threshold
import Findings.Main
import Findings.Server.Basic
import Findings.Tree.Run
import Findings.Proofs.Labels
import Findings.Proofs.Lists
import Findings.Proofs.Registry
import Findings.Proofs.Text.Characters
import Findings.Proofs.Text.Numerals
import Findings.Proofs.Text.Split
import Findings.Proofs.Text.Surrogates
import Findings.Proofs.Text.Utf8
import Findings.Proofs.Text.Encoding
import Findings.Proofs.Number.Bound
import Findings.Proofs.Path.NormalForm
import Findings.Proofs.Path.Strip
import Findings.Proofs.Path.Joining
import Findings.Proofs.Path.Directory
import Findings.Proofs.Path.Spellings
import Findings.Proofs.Path.Components
import Findings.Proofs.Path.Drives
import Findings.Proofs.Path.Depth
import Findings.Proofs.Json.Texts
import Findings.Proofs.Json.RoundTrip
import Findings.Proofs.Json.Readable
import Findings.Proofs.Json.Ascii
import Findings.Proofs.Json.OneLine
import Findings.Proofs.Text.Lines
import Findings.Proofs.Json.Numbers
import Findings.Proofs.Json.Rereading
import Findings.Proofs.Xml.Reading
import Findings.Proofs.Xml.Writing
import Findings.Proofs.Store.Content
import Findings.Proofs.Store.Index
import Findings.Proofs.Store.Masks
import Findings.Proofs.Store.Visibility
import Findings.Proofs.Store.References
import Findings.Proofs.Store.Run
import Findings.Proofs.Store.Generations
import Findings.Proofs.Store.Grouping
import Findings.Proofs.Store.Regrouping
import Findings.Proofs.Store.Representation
import Findings.Proofs.Store.Traversal
import Findings.Proofs.Store.CategoryChange
import Findings.Proofs.Tree.Steps
import Findings.Proofs.Tree.Visibility
import Findings.Proofs.Tree.MaskChange
import Findings.Proofs.Tree.References
import Findings.Proofs.Tree.Filing
import Findings.Proofs.Tree.Stored
import Findings.Proofs.Tree.Views
import Findings.Proofs.Tree.BulkChange
import Findings.Proofs.Tree.Startup
import Findings.Proofs.Tree.CheckDirectory
import Findings.Proofs.Tree.OpenedFiles
import Findings.Proofs.Tree.RelativePaths
import Findings.Proofs.Tree.FreshStart
import Findings.Proofs.Tree.Accumulation
import Findings.Proofs.Tree.Interference
import Findings.Proofs.Tree.Adding
import Findings.Proofs.Tree.Lines
import Findings.Proofs.Tree.LaunchTargets
import Findings.Proofs.Tree.Opening
import Findings.Proofs.Report.TextReading
import Findings.Proofs.Report.TextRoundTrip
import Findings.Proofs.Report.XmlEscaping
import Findings.Proofs.Report.XmlRoundTrip
import Findings.Proofs.Report.JsonRoundTrip
import Findings.Proofs.Report.Encodable
import Findings.Proofs.Report.Counting
import Findings.Proofs.Tree.Saving
import Findings.Proofs.Convert.Intake
import Findings.Proofs.Convert.Items
import Findings.Proofs.Convert.JsonItems
import Findings.Proofs.Convert.CommandLine
import Findings.Proofs.Convert.Files
import Findings.Proofs.Convert.Reimport
import Findings.Proofs.Convert.Completed
import Findings.Proofs.Server.Bodies
import Findings.Proofs.Server.Answers
import Findings.Proofs.Server.Operations
import Findings.Proofs.Server.Surrogates
import Findings.Proofs.Server.Failures
import Findings.Proofs.Server.Reporting
import Findings.Proofs.Server.Interleaving
import Findings.Proofs.Hosts.Notices
import Findings.Proofs.Hosts.Agreement
import Findings.Proofs.Convert.FailedRuns
import Findings.Proofs.Convert.Summary
import Findings.Proofs.Convert.Fallbacks
import Findings.Proofs.Log.Lines
import Findings.Proofs.Log.Thresholds
