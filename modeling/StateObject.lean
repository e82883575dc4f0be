import StateObject.Catalog.Consistency
import StateObject.Catalog.Edit
import StateObject.Catalog.Listing
import StateObject.Catalog.Sharing
import StateObject.ShaderModule
import StateObject.Proofs.Adoption
import StateObject.Proofs.Atomicity
import StateObject.Proofs.BufferHistory
import StateObject.Proofs.CreationOrder
import StateObject.Proofs.Faults
import StateObject.Proofs.Findings
import StateObject.Proofs.FirstSight
import StateObject.Proofs.IssueUpdates
import StateObject.Proofs.Journal
import StateObject.Proofs.ListingLines
import StateObject.Proofs.Ownership
import StateObject.Proofs.Provenance
import StateObject.Proofs.Recreation
import StateObject.Proofs.Refinement
import StateObject.Proofs.Renaming
import StateObject.Proofs.RoundTrip
import StateObject.Proofs.SymbolHistory
