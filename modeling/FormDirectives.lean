import FormDirectives.Json.Reader
import FormDirectives.Main
import FormDirectives.Node.Read
import FormDirectives.Proofs.Build.Accounting
import FormDirectives.Proofs.Html.Decoding
import FormDirectives.Proofs.Tree.Order
import FormDirectives.Proofs.Tree.Growth
import FormDirectives.Proofs.Html.Interchange
import FormDirectives.Proofs.Build.DocumentOrder
import FormDirectives.Proofs.Token.Lines
import FormDirectives.Proofs.Token.Printed
import FormDirectives.Proofs.Build.Composition
import FormDirectives.Proofs.Html.Composition
import FormDirectives.Proofs.Text.Blank
import FormDirectives.Proofs.Token.LineByLine
import FormDirectives.Proofs.Token.Printing
import FormDirectives.Proofs.Html.Unescaped
import FormDirectives.Proofs.Json.RoundTrip
import FormDirectives.Proofs.Tree.Outline
import FormDirectives.Proofs.Files.Writing
import FormDirectives.Proofs.Cli.Changes
import FormDirectives.Proofs.Cli.Words
import FormDirectives.Proofs.Build.WellFormed
import FormDirectives.Proofs.Cli.Check
import FormDirectives.Proofs.Cli.Verify
import FormDirectives.Proofs.Token.Pairs
import FormDirectives.Proofs.Cli.Current
import FormDirectives.Proofs.Cli.Stale
import FormDirectives.Proofs.Files.Patched
import FormDirectives.Proofs.Tree.Orphans
import FormDirectives.Proofs.Html.Options
import FormDirectives.Proofs.Registration
import FormDirectives.Proofs.Cli.Messages
import FormDirectives.Proofs.Json.Canonical
import FormDirectives.Proofs.Config.Validation
import FormDirectives.Proofs.Cli.Configuration
import FormDirectives.Proofs.Json.Limits
import FormDirectives.Proofs.Node.Members
import FormDirectives.Proofs.Cli.Dump
import FormDirectives.Proofs.Yaml.Levels
