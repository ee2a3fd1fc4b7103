import Codemod.Catalog
import Codemod.Json.Printer
import Codemod.Json.Reader
import Codemod.Metadata.Decode
import Codemod.Metadata.Encode
import Codemod.Script.ContextStep
import Codemod.Script.Session
import Codemod.Version
import Codemod.Proofs.Attempt
import Codemod.Proofs.Batch
import Codemod.Proofs.Survival
import Codemod.Proofs.History
import Codemod.Proofs.Rounds
import Codemod.Proofs.Attribution
import Codemod.Proofs.Composition
import Codemod.Proofs.CycleControl
import Codemod.Proofs.Stamping
import Codemod.Proofs.Modification
import Codemod.Proofs.Trail
import Codemod.Proofs.Calls
import Codemod.Proofs.Latching
import Codemod.Proofs.Cancellation
import Codemod.Proofs.Steady
import Codemod.Proofs.Settling
import Codemod.Proofs.Lockstep
import Codemod.Proofs.Accord
import Codemod.Proofs.Congruence
import Codemod.Proofs.CallLog
import Codemod.Proofs.Escalation
import Codemod.Proofs.Muffling
import Codemod.Proofs.MarkerBlindness
import Codemod.Proofs.Rerun
import Codemod.Proofs.Interchange
import Codemod.Proofs.Flattening
import Codemod.Proofs.Account
import Codemod.Proofs.Independence
import Codemod.Proofs.Itinerary
import Codemod.Proofs.VisitOrder
import Codemod.Proofs.Identity
import Codemod.Proofs.Recording
import Codemod.Proofs.Kinds
import Codemod.Proofs.ForeignKinds
import Codemod.Proofs.Hooks
import Codemod.Proofs.KindEffects
import Codemod.Proofs.Commuting
import Codemod.Proofs.Substitution
import Codemod.Proofs.Gating
import Codemod.Proofs.Charting
import Codemod.Proofs.Depiction
import Codemod.Proofs.Entries
import Codemod.Proofs.PathSets
import Codemod.Proofs.Pictures
import Codemod.Proofs.Preorder
import Codemod.Proofs.VisitLog
import Codemod.Proofs.Traversal
import Codemod.Proofs.KeyedMarkers
import Codemod.Proofs.Segments
import Codemod.Proofs.ContextHistory
import Codemod.Proofs.Refusal
import Codemod.Proofs.JsonForms
import Codemod.Proofs.RoundTrip
import Codemod.Proofs.Differences
