import Phrasebook.Locale.LikelyRegion
import Phrasebook.Main
import Phrasebook.Proofs.Accessors.LeafOrder
import Phrasebook.Proofs.Accessors.Mention
import Phrasebook.Proofs.Accessors.Writer
import Phrasebook.Session.Command
import Phrasebook.Variants
import Phrasebook.Proofs.Accessors.Mirror
import Phrasebook.Proofs.Lookup.Discovery
import Phrasebook.Proofs.Lookup.Settlement
import Phrasebook.Proofs.Session.Freshness
import Phrasebook.Proofs.Session.Boards
import Phrasebook.Proofs.Session.Delivery
import Phrasebook.Proofs.Workspace.Relocation
import Phrasebook.Proofs.Lookup.Sharing
import Phrasebook.Proofs.CommandLine.Outputs
import Phrasebook.Proofs.Lookup.OwnSibling
import Phrasebook.Proofs.Session.LastHeard
import Phrasebook.Proofs.Settings.Validity
import Phrasebook.Proofs.KeyTree.Refusal
import Phrasebook.Proofs.KeyTree.Scopes
import Phrasebook.Proofs.Accessors.Collisions
import Phrasebook.Proofs.Text.ByteOrder
import Phrasebook.Proofs.Accessors.KeyIndex
import Phrasebook.Proofs.Resources.Listed
import Phrasebook.Proofs.FileTree.Regular
import Phrasebook.Proofs.Resources.Overrides
import Phrasebook.Proofs.Locale.Spelling
import Phrasebook.Proofs.Resources.Sibling
import Phrasebook.Proofs.Glob.Matching
import Phrasebook.Proofs.Lookup.SiblingDiscovery
import Phrasebook.Proofs.Settings.OverrideExclusion
import Phrasebook.Proofs.Accessors.Containment
import Phrasebook.Proofs.Accessors.Provenance
import Phrasebook.Proofs.Resources.Fitting
