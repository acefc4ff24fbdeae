import ScriptHost.Engine.Session
import ScriptHost.Main
import ScriptHost.Pool.Basic
import ScriptHost.Proofs.Engine.Effect
import ScriptHost.Proofs.Engine.Run
import ScriptHost.Proofs.Engine.Booking
import ScriptHost.Proofs.Engine.Agenda
import ScriptHost.Proofs.Engine.Coherent
import ScriptHost.Proofs.Engine.Dispatch
import ScriptHost.Proofs.Engine.Delivery
import ScriptHost.Proofs.Engine.Draining
import ScriptHost.Proofs.Engine.Registry
import ScriptHost.Proofs.Engine.Replacement
import ScriptHost.Proofs.Decimal.Rounding
import ScriptHost.Proofs.Decimal.Shortest
import ScriptHost.Proofs.Text.Utf8
import ScriptHost.Proofs.Text.Digits
import ScriptHost.Proofs.Json.Number
import ScriptHost.Proofs.Json.Lexing
import ScriptHost.Proofs.Json.Writing
import ScriptHost.Proofs.Json.Decoding
import ScriptHost.Proofs.Model.Uuid
import ScriptHost.Proofs.Model.Instant
import ScriptHost.Proofs.Model.Value
import ScriptHost.Proofs.Model.Event
import ScriptHost.Proofs.Model.Queue
import ScriptHost.Proofs.Store.Document
import ScriptHost.Proofs.Store.Basic
import ScriptHost.Proofs.Store.Apart
import ScriptHost.Proofs.Engine.Change
import ScriptHost.Proofs.Engine.Surroundings
import ScriptHost.Proofs.Engine.Leading
import ScriptHost.Proofs.Engine.Saving
import ScriptHost.Proofs.Engine.Recovery
import ScriptHost.Proofs.Engine.Alone
import ScriptHost.Proofs.Engine.Standing
import ScriptHost.Proofs.Engine.Figure
import ScriptHost.Proofs.Engine.Turn
import ScriptHost.Proofs.Engine.Interrupt
import ScriptHost.Proofs.Engine.Locking
import ScriptHost.Proofs.Engine.Resting
import ScriptHost.Proofs.Engine.Resume
import ScriptHost.Proofs.Engine.Turning
import ScriptHost.Proofs.Engine.Entering
import ScriptHost.Proofs.Engine.Abandoned
import ScriptHost.Proofs.Engine.Requests
import ScriptHost.Proofs.Engine.Stopping
import ScriptHost.Proofs.Engine.Resetting
import ScriptHost.Proofs.Engine.Showing
import ScriptHost.Proofs.Engine.Variables
import ScriptHost.Proofs.Engine.Replacing
import ScriptHost.Proofs.Engine.Masks
import ScriptHost.Proofs.Engine.WorkedOff
import ScriptHost.Proofs.Pool.Race
import ScriptHost.Proofs.Engine.Ladder
import ScriptHost.Proofs.Command.Verdict
import ScriptHost.Proofs.Store.Agree
import ScriptHost.Proofs.Store.Mirror
import ScriptHost.Proofs.Engine.Removal
import ScriptHost.Proofs.Engine.Parts
import ScriptHost.Proofs.Engine.Twins
import ScriptHost.Proofs.Engine.InStep
import ScriptHost.Proofs.Engine.Seclusion
import ScriptHost.Proofs.Engine.Lockstep
import ScriptHost.Proofs.Engine.Commuting
import ScriptHost.Proofs.Engine.Switching
import ScriptHost.Proofs.Engine.ForcedAborts
import ScriptHost.Proofs.Engine.Halting
import ScriptHost.Proofs.Engine.Conduct
import ScriptHost.Proofs.Engine.SettingUp
import ScriptHost.Proofs.Engine.FallingBack
import ScriptHost.Proofs.Engine.Pursuit
import ScriptHost.Proofs.Engine.Telling
import ScriptHost.Proofs.Engine.Outcomes
import ScriptHost.Proofs.Engine.Calm
import ScriptHost.Proofs.Engine.Shutdown
import ScriptHost.Proofs.Model.Backlog
import ScriptHost.Proofs.Store.Listing
import ScriptHost.Proofs.Command.Inventory
import ScriptHost.Proofs.Toml.Form
import ScriptHost.Proofs.Toml.Statement
import ScriptHost.Proofs.Config.Written
import ScriptHost.Proofs.Command.Printing
