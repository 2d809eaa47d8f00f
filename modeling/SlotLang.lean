import SlotLang.Command.Folder
import SlotLang.Main
import SlotLang.Proofs.Acceptance
import SlotLang.Proofs.Addressing
import SlotLang.Proofs.CallTargets
import SlotLang.Proofs.Carets
import SlotLang.Proofs.CompositeNames
import SlotLang.Proofs.Constants
import SlotLang.Proofs.Enumeration
import SlotLang.Proofs.Equivariance
import SlotLang.Proofs.Flattening
import SlotLang.Proofs.Footprint
import SlotLang.Proofs.Headers
import SlotLang.Proofs.Isolation
import SlotLang.Proofs.Limits
import SlotLang.Proofs.ListingText
import SlotLang.Proofs.Locality
import SlotLang.Proofs.MaximalMunch
import SlotLang.Proofs.Precedence
import SlotLang.Proofs.Printing
import SlotLang.Proofs.Reports
import SlotLang.Proofs.ScopeHistory
import SlotLang.Proofs.ScopeRuns
import SlotLang.Proofs.Simulation
import SlotLang.Proofs.SourceOrder
import SlotLang.Proofs.Termination
import SlotLang.Proofs.TextIndependence
