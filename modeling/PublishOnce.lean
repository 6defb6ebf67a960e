import PublishOnce.Git.Rehearsal
import PublishOnce.Main
import PublishOnce.Proofs.Publication.Again
import PublishOnce.Proofs.Publication.Damage
import PublishOnce.Proofs.Publication.Destination
import PublishOnce.Proofs.Publication.Invocations
import PublishOnce.Proofs.Publication.Messages
import PublishOnce.Proofs.Publication.CloneName
import PublishOnce.Proofs.Publication.Transient
import PublishOnce.Proofs.Settings.Start
import PublishOnce.Proofs.Verbosity
import PublishOnce.Proofs.CommandLine.Reading
import PublishOnce.Proofs.CommandLine.Spelling
import PublishOnce.Proofs.Publication.Addresses
import PublishOnce.Proofs.Program.Outputs
import PublishOnce.Proofs.Publication.Reports
import PublishOnce.Proofs.Program.Chatter
import PublishOnce.Proofs.FileTree.Climbing
import PublishOnce.Proofs.Settings.Search
import PublishOnce.Proofs.Settings.Absolute
import PublishOnce.Proofs.Text.Occurrences
import PublishOnce.Proofs.Publication.CommandLines
import PublishOnce.Proofs.Settings.Diagnostics
