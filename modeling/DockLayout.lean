import DockLayout.LayoutError.Message
import DockLayout.Workspace.Desk
import DockLayout.Proofs.Binary64.Double
import DockLayout.Proofs.Workspace.Closing
import DockLayout.Proofs.Workspace.Drag
import DockLayout.Proofs.Workspace.HitTest
import DockLayout.Proofs.Workspace.RoundTrip
import DockLayout.Proofs.Tree.Ledger
import DockLayout.Proofs.Workspace.Ledger
import DockLayout.Proofs.Tree.Resizing
import DockLayout.Proofs.Workspace.Resizing
import DockLayout.Proofs.Plane.Transpose
import DockLayout.Proofs.Tree.Transpose
import DockLayout.Proofs.Workspace.Transpose
import DockLayout.Proofs.Binary64.NotANumber
import DockLayout.Proofs.Binary64.Ratios
import DockLayout.Proofs.Tree.RatioLists
import DockLayout.Proofs.Workspace.NotANumber
import DockLayout.Proofs.Tree.Branching
import DockLayout.Proofs.Workspace.Branching
import DockLayout.Proofs.Tree.Refusals
import DockLayout.Proofs.Workspace.Refusals
import DockLayout.Proofs.Workspace.Stable
import DockLayout.Proofs.Tree.Normal
import DockLayout.Proofs.Tree.ZeroRects
import DockLayout.Proofs.Workspace.Normal
import DockLayout.Proofs.Tree.Reading
import DockLayout.Proofs.Tree.Malformed
import DockLayout.Proofs.Tree.Oversized
import DockLayout.Proofs.Workspace.Malformed
import DockLayout.Proofs.Workspace.Handles
import DockLayout.Proofs.Tree.Targets
import DockLayout.Proofs.Binary64.Sums
import DockLayout.Proofs.Workspace.Targets
import DockLayout.Proofs.Panel.Zone
import DockLayout.Proofs.Workspace.Dropping
import DockLayout.Proofs.Workspace.Following
import DockLayout.Proofs.Tree.Undoing
import DockLayout.Proofs.Workspace.Undoing
import DockLayout.Proofs.Tree.Nodes
import DockLayout.Proofs.Workspace.Placing
import DockLayout.Proofs.Workspace.Brackets
import DockLayout.Proofs.Tree.Boundary
import DockLayout.Proofs.Workspace.Gestures
import DockLayout.Proofs.Tree.Alternating
import DockLayout.Proofs.Workspace.Alternating
import DockLayout.Proofs.Plane.Tiling
import DockLayout.Proofs.Numbers.Shares
import DockLayout.Proofs.Tree.InOrder
import DockLayout.Proofs.Tree.Nearest
import DockLayout.Proofs.Tree.Substitution
import DockLayout.Proofs.Panel.Tabs
import DockLayout.Proofs.Panel.NearestEdge
import DockLayout.Proofs.Tree.Format
import DockLayout.Proofs.Workspace.Outside
import DockLayout.Proofs.Plane.Parts
import DockLayout.Proofs.Panel.TabStrip
import DockLayout.Proofs.Tree.Inserting
import DockLayout.Proofs.Tree.Positions
import DockLayout.Proofs.Workspace.Searches
