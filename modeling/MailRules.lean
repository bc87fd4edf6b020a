import MailRules.Binary64.Decimal
import MailRules.Command.Run
import MailRules.Config.File
import MailRules.Declaration.Listing
import MailRules.Generation.Basic
import MailRules.Inputs.Reading
import MailRules.Layout.Basic
import MailRules.Main
import MailRules.Output.Files
import MailRules.Proofs.Action
import MailRules.Proofs.Assoc
import MailRules.Proofs.Generation.Interleaving
import MailRules.Proofs.Store.History
import MailRules.Proofs.Text.Order
import MailRules.Report
import MailRules.Session
import MailRules.Store.Ingest
import MailRules.Tree.Host
import MailRules.Workspace
import MailRules.Yaml.Load
import MailRules.Proofs.Layout.Choice
import MailRules.Proofs.Rule.Line
import MailRules.Proofs.Buffers
import MailRules.Proofs.Generation.Plan
import MailRules.Proofs.Generation.Names
import MailRules.Proofs.Generation.Grounding
import MailRules.Proofs.Generation.Meaning
import MailRules.Proofs.Layout.FileName
import MailRules.Proofs.Layout.Order
import MailRules.Proofs.Generation.LoadOrder
import MailRules.Proofs.Config
import MailRules.Proofs.Declaration.RoundTrip
import MailRules.Proofs.Inputs.Reading
import MailRules.Proofs.Inputs.Termination
import MailRules.Proofs.Session.Cache
import MailRules.Proofs.Session.Pins
import MailRules.Proofs.Output.Effect
import MailRules.Proofs.Build
import MailRules.Proofs.Build.Unrefused
import MailRules.Proofs.Command.Undo
import MailRules.Proofs.Workspace
import MailRules.Proofs.Inputs.Links
import MailRules.Proofs.Generation.SeparateScores
import MailRules.Proofs.Generation.SingleFile
import MailRules.Proofs.Generation.LegalNames
import MailRules.Proofs.Command.Configured
import MailRules.Proofs.Command.Options
import MailRules.Proofs.Inputs.SameFiles
import MailRules.Proofs.Store.Content
import MailRules.Proofs.Config.Layering
import MailRules.Proofs.Layout.Unpinned
import MailRules.Proofs.Store.Origins
import MailRules.Proofs.Generation.Correspondence
import MailRules.Proofs.Text.Template
import MailRules.Proofs.Generation.Failure
import MailRules.Proofs.Session.Refusal
import MailRules.Proofs.Build.Named
import MailRules.Proofs.Declaration.Grammar
import MailRules.Proofs.Declaration.WellFormed
import MailRules.Proofs.Config.Settings
import MailRules.Proofs.Inputs.DepthFirst
import MailRules.Proofs.Store.Cleared
import MailRules.Proofs.Inputs.Merging
import MailRules.Proofs.Session.Apart
import MailRules.Proofs.Inputs.Distinct
import MailRules.Proofs.Rule.Finding
