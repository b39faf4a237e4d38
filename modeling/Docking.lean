import Docking.Keyed
import Docking.Part
import Docking.Overflow
import Docking.Geometry.Rect
import Docking.Geometry.Weights
import Docking.Geometry.Zone
import Docking.Decimal.Fixed
import Docking.Tree.Node
import Docking.Window
import Docking.Drop.Policy
import Docking.Activation.Policy
import Docking.Memento.Basic
import Docking.Layout.Error
import Docking.Tree.Store
import Docking.Tree.Walk
import Docking.Host
import Docking.Layout.Basic
import Docking.Layout.Hide
import Docking.Layout.Show
import Docking.Layout.Move
import Docking.Layout.Zoom
import Docking.Layout.Regions
import Docking.Layout.Describe
import Docking.Layout.Save
import Docking.Layout.Restore
import Docking.Drop.Gesture
import Docking.Instances.Registry
import Docking.Instances.Factory
import Docking.Script.Reply
import Docking.Script.Layout
import Docking.Activation.History
import Docking.Script.History
import Docking.Script.Factory
import Docking.Page.Event
import Docking.Page.Controller
import Docking.Page.Basic
import Docking.Page.Activation
import Docking.Page.Parts
import Docking.Page.Operation
import Docking.Page.Persist
import Docking.Script.Page
import Docking.Json.Value
import Docking.Json.Error
import Docking.Json.Read
import Docking.Json.Print
import Docking.Request.Field
import Docking.Request.Memento
import Docking.Request.Node
import Docking.Request.Layout
import Docking.Request.History
import Docking.Request.Page
import Docking.Answer.Error
import Docking.Answer.Reply
import Docking.Answer.State
import Docking.Request.Line
import Docking.Proofs.Store
import Docking.Proofs.Edit
import Docking.Proofs.Forest
import Docking.Proofs.Walk
import Docking.Proofs.Weights
import Docking.Proofs.Outcome
import Docking.Proofs.Spares
import Docking.Proofs.Sound.Basic
import Docking.Proofs.Sound.Windows
import Docking.Proofs.Sound.Hide
import Docking.Proofs.Sound.Show
import Docking.Proofs.Sound.Move
import Docking.Proofs.Sound.Stack
import Docking.Proofs.Sound.Regions
import Docking.Proofs.Sound.Restore
import Docking.Proofs.Sound.Zoom
import Docking.Proofs.Reachable
import Docking.Proofs.Atomic
import Docking.Proofs.FastViews
import Docking.Proofs.Page.Outcome
import Docking.Proofs.Page.Bookkeeping
import Docking.Proofs.Page.Restore
import Docking.Proofs.WindowFrame
import Docking.Proofs.Surfaces
import Docking.Proofs.Leaves
import Docking.Proofs.Page.Narration
import Docking.Proofs.Tabs
import Docking.Proofs.Beside
import Docking.Proofs.References
import Docking.Proofs.Page.Stamps
import Docking.Proofs.Overflows
import Docking.Proofs.Sashes
import Docking.Proofs.ShownPanes
import Docking.Proofs.Hiding
import Docking.Proofs.Showing
import Docking.Proofs.Raising
import Docking.Proofs.Cycling
import Docking.Proofs.Recency
import Docking.Proofs.Page.Cycling
import Docking.Proofs.Rooted.Selected
import Docking.Proofs.Rooted.Basic
import Docking.Proofs.Selection
import Docking.Proofs.Preorder
import Docking.Proofs.Fuel
import Docking.Proofs.Rooted.Formed
import Docking.Proofs.Rooted.Restore
import Docking.Proofs.Tiling
import Docking.Proofs.Rooted.Hide
import Docking.Proofs.Tidying
import Docking.Proofs.Rooted.Show
import Docking.Proofs.Rooted.Move
import Docking.Proofs.Rooted.Script
import Docking.Proofs.Page.Placing
import Docking.Proofs.Page.Entries
import Docking.Proofs.Page.Persistence
