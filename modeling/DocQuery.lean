import DocQuery.Main
import DocQuery.Session
import DocQuery.Proofs.Turns
import DocQuery.Proofs.Batch
import DocQuery.Proofs.SortLimit
import DocQuery.Proofs.Updates
import DocQuery.Proofs.Upkeep
import DocQuery.Proofs.Serving
import DocQuery.Proofs.Ties
import DocQuery.Proofs.Agreement
import DocQuery.Proofs.MixedOrder
import DocQuery.Proofs.Resolving
import DocQuery.Proofs.Flow
import DocQuery.Proofs.Histories
import DocQuery.Proofs.Recording
import DocQuery.Proofs.Counting
import DocQuery.Proofs.Contributions
import DocQuery.Proofs.Interleaving
import DocQuery.Proofs.Limits
import DocQuery.Proofs.Planning
import DocQuery.Proofs.InOrder
import DocQuery.Proofs.Comparing
import DocQuery.Proofs.Spelling
import DocQuery.Proofs.Waiting
import DocQuery.Proofs.AllOrNothing
import DocQuery.Proofs.Operators
import DocQuery.Proofs.Denoting
import DocQuery.Proofs.Sorting
import DocQuery.Proofs.Walking
import DocQuery.Proofs.Since
import DocQuery.Proofs.Storing
import DocQuery.Proofs.Tokens
import DocQuery.Proofs.Literals
import DocQuery.Proofs.Decoding
import DocQuery.Proofs.Writing
import DocQuery.Proofs.Quoting
import DocQuery.Proofs.ByteOrder
import DocQuery.Proofs.CommandOptions
import DocQuery.Proofs.LogLines
import DocQuery.Proofs.Encoding
import DocQuery.Proofs.Sightings
import DocQuery.Proofs.Sessions
