import AuthoritySet.Proofs.ConsensusSet
import AuthoritySet.Proofs.Quorum
import AuthoritySet.Proofs.Refinement
import AuthoritySet.Proofs.UniqueIdentities
import AuthoritySet.Store.Backend
import AuthoritySet.Proofs.Layers
import AuthoritySet.Proofs.Atomicity
import AuthoritySet.Proofs.Integrity
import AuthoritySet.Proofs.Round
import AuthoritySet.Proofs.Layout
import AuthoritySet.Proofs.KickTargets
import AuthoritySet.Proofs.LastValidator
import AuthoritySet.Proofs.MemberVotes
import AuthoritySet.Proofs.EventLog
import AuthoritySet.Proofs.Lifecycle
import AuthoritySet.Proofs.EffectiveUpdates
import AuthoritySet.Proofs.PendingBallots
import AuthoritySet.Proofs.RegistryMaps
import AuthoritySet.Proofs.Export
import AuthoritySet.Proofs.Ledger.Anonymous
import AuthoritySet.Proofs.Descriptions
import AuthoritySet.Proofs.Ledger.Locality
import AuthoritySet.Proofs.Commutation
import AuthoritySet.Proofs.Founding
import AuthoritySet.Proofs.BallotPools
import AuthoritySet.Proofs.CompleteRecords
import AuthoritySet.Proofs.SeatLimit
import AuthoritySet.Proofs.Outcome
import AuthoritySet.Proofs.Pages
import AuthoritySet.Proofs.EpochBoundary
import AuthoritySet.Proofs.Wire
import AuthoritySet.Proofs.FirstFault
import AuthoritySet.Proofs.Accounting
import AuthoritySet.Proofs.SelfDelimiting
import AuthoritySet.Proofs.HexText
