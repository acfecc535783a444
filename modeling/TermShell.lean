import TermShell.Main
import TermShell.Proofs.Host.Runs
import TermShell.Proofs.Tree.History
import TermShell.Proofs.Tree.Arborescence
import TermShell.Proofs.Config
import TermShell.Proofs.Names
import TermShell.Proofs.Tree.Walks
import TermShell.Proofs.Tree.Joined
import TermShell.Proofs.Tree.Ascent
import TermShell.Proofs.Path
import TermShell.Proofs.Tree.RoundTrip
import TermShell.Proofs.Volume.Usage
import TermShell.Proofs.Volume.Siblings
import TermShell.Proofs.Tree.Overwrite
import TermShell.Proofs.Volume.Overwrite
import TermShell.Proofs.Interpreter.Secrets
import TermShell.Proofs.Text.Blank
import TermShell.Proofs.Text.Case
import TermShell.Proofs.Text.Split
import TermShell.Proofs.Text.Runs
import TermShell.Proofs.Help.Record
import TermShell.Proofs.Source
import TermShell.Proofs.Host.Muted
import TermShell.Proofs.Host.Saves
import TermShell.Proofs.Host.Entry
import TermShell.Proofs.Json
import TermShell.Proofs.Snapshot
import TermShell.Proofs.Tree.Removal
import TermShell.Proofs.Tree.Insertion
import TermShell.Proofs.Host.Editing
import TermShell.Proofs.Host.Failure
import TermShell.Proofs.Volume.Resolve
import TermShell.Proofs.Interpreter.Usage
import TermShell.Proofs.Interpreter.Dots
import TermShell.Proofs.Interpreter.Undo
import TermShell.Proofs.Interpreter.Permissions
import TermShell.Proofs.Interpreter.Spelling
import TermShell.Proofs.Interpreter.Listings
import TermShell.Proofs.Host.Resume
import TermShell.Proofs.Calendar.WorldTime
import TermShell.Proofs.Interpreter.ReadBack
import TermShell.Proofs.Path.Relative
import TermShell.Proofs.Volume.Relative
import TermShell.Proofs.Host.Colors
import TermShell.Proofs.Settings.ColorHelp
import TermShell.Proofs.Report.Network
