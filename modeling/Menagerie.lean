import Menagerie.Activity.Schedule
import Menagerie.Agent.View
import Menagerie.Clock
import Menagerie.Document.Json
import Menagerie.Expr.Eval
import Menagerie.Herd.Leader
import Menagerie.Intent
import Menagerie.Location
import Menagerie.Memory.Blackboard
import Menagerie.Random
import Menagerie.Sensor.Kind
import Menagerie.Variable.Binding
import Menagerie.Behavior.Tree
import Menagerie.World.Effects
import Menagerie.Task.Run
import Menagerie.Task.Registry
import Menagerie.Task.Compile
import Menagerie.Scenario
import Menagerie.Settings
import Menagerie.Template.Library
import Menagerie.Simulation.Report
import Menagerie.Snapshot.Task
import Menagerie.Snapshot.Simulation
import Menagerie.Snapshot.Error
import Menagerie.Document.Toml
import Menagerie.Document.Ron
import Menagerie.Main
import Menagerie.Proofs.Expr.Reading
import Menagerie.Proofs.Expr.Evaluation
import Menagerie.Proofs.Expr.ChainLimit
import Menagerie.Proofs.Simulation.Faults
import Menagerie.Proofs.Simulation.Leaders
import Menagerie.Proofs.Memory.History
import Menagerie.Proofs.Memory.Change
import Menagerie.Proofs.World.Frame
import Menagerie.Proofs.Agent.Runs
import Menagerie.Proofs.World.Happenings
import Menagerie.Proofs.World.Mirrors
import Menagerie.Proofs.World.Traits
import Menagerie.Proofs.Simulation.Course
import Menagerie.Proofs.Simulation.Death
import Menagerie.Proofs.Simulation.Moments
import Menagerie.Proofs.Simulation.Cooldown
import Menagerie.Proofs.Task.Chance
import Menagerie.Proofs.Simulation.Requests
import Menagerie.Proofs.Simulation.Consistency
import Menagerie.Proofs.SortedMap
import Menagerie.Proofs.Simulation.Bearing
import Menagerie.Proofs.Simulation.Items
import Menagerie.Proofs.Agent.Ability
import Menagerie.Proofs.Simulation.Mirrors
import Menagerie.Proofs.Task.Pollination
import Menagerie.Proofs.Simulation.Nectar
import Menagerie.Proofs.Number.Order
import Menagerie.Proofs.Simulation.Walking
import Menagerie.Proofs.Simulation.Reach
import Menagerie.Proofs.Simulation.Hurt
import Menagerie.Proofs.Simulation.Hits
import Menagerie.Proofs.Template.Isolation
import Menagerie.Proofs.Template.Provision
import Menagerie.Proofs.Simulation.Order
import Menagerie.Proofs.Simulation.Numbers
import Menagerie.Proofs.Simulation.Refusals
import Menagerie.Proofs.Activity.Schedule
import Menagerie.Proofs.Simulation.Changes
import Menagerie.Proofs.Simulation.Invariants
import Menagerie.Proofs.Simulation.Activities
import Menagerie.Proofs.Number.Difference
import Menagerie.Proofs.Simulation.Health
import Menagerie.Proofs.Selection
import Menagerie.Proofs.Herd.Leader
import Menagerie.Proofs.Task.Leadership
import Menagerie.Proofs.Simulation.Chronicle
import Menagerie.Proofs.Simulation.Holding
import Menagerie.Proofs.Sensor.Visible
import Menagerie.Proofs.Simulation.Followers
import Menagerie.Proofs.Task.Pursuit
import Menagerie.Proofs.Simulation.Pursuit
import Menagerie.Proofs.Variable.Table
import Menagerie.Proofs.Template.Variables
import Menagerie.Proofs.Simulation.Turns
import Menagerie.Proofs.Task.Waking
import Menagerie.Proofs.Simulation.Strikes
import Menagerie.Proofs.Simulation.Waking
import Menagerie.Proofs.Behavior.Turns
import Menagerie.Proofs.Agent.Turns
import Menagerie.Proofs.Task.Stay
import Menagerie.Proofs.Simulation.Seats
import Menagerie.Proofs.Simulation.Stays
import Menagerie.Proofs.Simulation.Pursuers
import Menagerie.Proofs.Simulation.Patience
import Menagerie.Proofs.Variable.History
import Menagerie.Proofs.Variable.Inlining
import Menagerie.Proofs.Number.Finite
import Menagerie.Proofs.Task.Folding
import Menagerie.Proofs.Expr.Lexing
import Menagerie.Proofs.Task.Places
import Menagerie.Proofs.Task.Discipline
import Menagerie.Proofs.Agent.Rounds
import Menagerie.Proofs.Number.Rounding
import Menagerie.Proofs.Number.Encoding
import Menagerie.Proofs.Number.FromDecimal
import Menagerie.Proofs.Number.Shortest
import Menagerie.Proofs.Number.Written
import Menagerie.Proofs.Expr.Constants
import Menagerie.Proofs.Number.Sums
import Menagerie.Proofs.Behavior.Picks
import Menagerie.Proofs.Agent.Grouping
import Menagerie.Proofs.Behavior.Events
import Menagerie.Proofs.Task.Choice
import Menagerie.Proofs.Expr.Dependence
import Menagerie.Proofs.Expr.Blame
import Menagerie.Proofs.Expr.Spelling
import Menagerie.Proofs.Expr.Spans
import Menagerie.Proofs.Number.Unsigned
import Menagerie.Proofs.World.Nearest
