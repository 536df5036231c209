import AgentPrompts.FileTree.Update
import AgentPrompts.Main
import AgentPrompts.Proofs.Command.AgentNumber
import AgentPrompts.Proofs.Command.Document
import AgentPrompts.Proofs.Command.DryRun
import AgentPrompts.Proofs.Command.Modes
import AgentPrompts.Proofs.Command.Shown
import AgentPrompts.Proofs.Command.Transcript
import AgentPrompts.Proofs.CommandLine.Count
import AgentPrompts.Proofs.CommandLine.DefaultCommand
import AgentPrompts.Proofs.CommandLine.DryRun
import AgentPrompts.Proofs.CommandLine.PathFlag
import AgentPrompts.Proofs.CommandLine.Scan
import AgentPrompts.Proofs.Generation.Bytes
import AgentPrompts.Proofs.Generation.Delivery
import AgentPrompts.Proofs.Generation.Independence
import AgentPrompts.Proofs.Generation.Repetition
import AgentPrompts.Proofs.Generation.Session
import AgentPrompts.Proofs.Generation.Success
import AgentPrompts.Proofs.Prompt.FilePath
import AgentPrompts.Proofs.Settings.Resolution
