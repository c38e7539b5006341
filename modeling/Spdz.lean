import Spdz.Bytes
import Spdz.Commitment
import Spdz.Config.Basic
import Spdz.Config.Fault
import Spdz.Config.Hidden
import Spdz.Config.Lexer
import Spdz.Config.Text
import Spdz.Error
import Spdz.Evaluation.Schedule
import Spdz.Evaluation.Session
import Spdz.Field.Codec
import Spdz.Field.Elem
import Spdz.Field.Sampling
import Spdz.Field.Spec
import Spdz.Hash.Sha3
import Spdz.Network.Call
import Spdz.Network.Exchange
import Spdz.Network.Frame
import Spdz.Network.Links
import Spdz.Network.Medium
import Spdz.Network.Mesh
import Spdz.Network.Post
import Spdz.Network.Window
import Spdz.Network.Wiring
import Spdz.Number.Binary64
import Spdz.OpenedValues
import Spdz.Party
import Spdz.PartyId
import Spdz.Preprocessing.Dealer
import Spdz.Preprocessing.Item
import Spdz.Preprocessing.Rehearsal
import Spdz.Preprocessing.Stock
import Spdz.Preprocessing.Supplier
import Spdz.Protocol.Broadcast
import Spdz.Protocol.Gate
import Spdz.Protocol.Input
import Spdz.Protocol.MacCheck
import Spdz.Protocol.Multiply
import Spdz.Protocol.Open
import Spdz.Protocol.Random
import Spdz.Protocol.Reveal
import Spdz.Protocol.Round
import Spdz.Random.ChaCha
import Spdz.Random.WordSource
import Spdz.Random.Xoshiro
import Spdz.Share
import Spdz.Simulation.Actor
import Spdz.Simulation.Routine
import Spdz.Simulation.Scenario
import Spdz.Simulation.Script
import Spdz.Proofs.Network.Interleaving
import Spdz.Proofs.Commitment
import Spdz.Proofs.Evaluation.Agreement
import Spdz.Proofs.Evaluation.Alignment
import Spdz.Proofs.Evaluation.Calls
import Spdz.Proofs.Evaluation.Embedded
import Spdz.Proofs.Field.Laws
import Spdz.Proofs.Simulation.Following
import Spdz.Proofs.Simulation.Refinement
import Spdz.Proofs.Preprocessing.Answers
import Spdz.Proofs.Preprocessing.Coherence
import Spdz.Proofs.Preprocessing.Recording
import Spdz.Proofs.Preprocessing.Refilling
import Spdz.Proofs.Preprocessing.Accounts
import Spdz.Proofs.Evaluation.Finishing
import Spdz.Proofs.Gates.Consistency
import Spdz.Proofs.Network.Ends
import Spdz.Proofs.Protocol.Moves
import Spdz.Proofs.Gates.Pending
import Spdz.Proofs.Gates.Noting
import Spdz.Proofs.Evaluation.Histories
import Spdz.Proofs.Evaluation.Tasks
import Spdz.Proofs.Evaluation.Conservation
import Spdz.Proofs.Evaluation.Aborting
import Spdz.Proofs.Gates.Delivering
import Spdz.Proofs.Evaluation.Unfinished
import Spdz.Proofs.Network.Hostile
import Spdz.Proofs.Protocol.Manners
import Spdz.Proofs.Protocol.Messages
import Spdz.Proofs.Gates.Manners
import Spdz.Proofs.Evaluation.Accusations
import Spdz.Proofs.Gates.Outcomes
import Spdz.Proofs.Evaluation.Noted
import Spdz.Proofs.Evaluation.Schedules
import Spdz.Proofs.Evaluation.Soundness
import Spdz.Proofs.Gates.Deviations
import Spdz.Proofs.Evaluation.Disclosure
import Spdz.Proofs.Network.ExactlyOnce
import Spdz.Proofs.Evaluation.Threads
import Spdz.Proofs.Protocol.Leads
import Spdz.Proofs.Gates.Pace
import Spdz.Proofs.Evaluation.LifeCycle
import Spdz.Proofs.Evaluation.Ledger
import Spdz.Proofs.Evaluation.Bounded
import Spdz.Proofs.Protocol.Alike
import Spdz.Proofs.Gates.Secrecy
import Spdz.Proofs.Preprocessing.Failures
import Spdz.Proofs.Preprocessing.Batching
import Spdz.Proofs.Gates.Coverage
import Spdz.Proofs.Expression
import Spdz.Proofs.Field.Decoding
import Spdz.Proofs.Evaluation.Completeness
import Spdz.Proofs.Protocol.Trapping
import Spdz.Proofs.Gates.Guarded
import Spdz.Proofs.Gates.Trapless
import Spdz.Proofs.Gates.Failing
import Spdz.Proofs.Protocol.Facing
import Spdz.Proofs.Protocol.Blame
import Spdz.Proofs.Gates.Blame
import Spdz.Proofs.Config.RoundTrip
import Spdz.Proofs.Preprocessing.Handout
