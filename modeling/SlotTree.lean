import SlotTree.Cli.Folder
import SlotTree.Document.Observers
import SlotTree.Listing.Summary
import SlotTree.Main
import SlotTree.Proofs.Maps
import SlotTree.Proofs.Outcomes
import SlotTree.Proofs.Schema.Inputs
import SlotTree.Proofs.Schema.Homes
import SlotTree.Proofs.Node.Reversal
import SlotTree.Proofs.Node.Runs
import SlotTree.Proofs.Node.Shifts
import SlotTree.Proofs.Document.Acceptance
import SlotTree.Proofs.Document.Integrity
import SlotTree.Proofs.Document.Undoing
import SlotTree.Proofs.ValueType.Rules
import SlotTree.Proofs.ValueType.Soundness
import SlotTree.Proofs.Edit.Changes
import SlotTree.Proofs.Document.Changes
import SlotTree.Proofs.Tree.Views
import SlotTree.Proofs.Edit.Views
import SlotTree.Proofs.Document.Replication
import SlotTree.Proofs.Document.Restoring
import SlotTree.Proofs.Document.Rollback
import SlotTree.Proofs.Document.Renaming
import SlotTree.Proofs.Document.Bursts
import SlotTree.Proofs.Document.Pruning
import SlotTree.Proofs.Listeners.Delivery
import SlotTree.Proofs.Expression.Decoding
import SlotTree.Proofs.Expression.Rechecking
import SlotTree.Proofs.Patch.Decoding
import SlotTree.Proofs.Schema.Decoding
import SlotTree.Proofs.Document.Commuting
import SlotTree.Proofs.ValueType.Preorder
import SlotTree.Proofs.Document.Traversals
import SlotTree.Proofs.Document.Visibility
import SlotTree.Proofs.Node.Enumeration
import SlotTree.Proofs.Expression.Reverting
import SlotTree.Proofs.Expression.Mismatches
import SlotTree.Proofs.Document.Listing
import SlotTree.Proofs.Document.FreshIds
