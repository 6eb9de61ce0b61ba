import CoinCommit.Ledger.Batch
import CoinCommit.Main
import CoinCommit.Proofs.Hash.Separated
import CoinCommit.Proofs.Merkle.Completeness
import CoinCommit.Proofs.Merkle.Soundness
import CoinCommit.Proofs.Merkle.AnyLength
import CoinCommit.Proofs.Snapshot.Inclusion
import CoinCommit.Proofs.Merkle.Binding
import CoinCommit.Proofs.Merkle.Repetition
import CoinCommit.Proofs.Merkle.Removal
import CoinCommit.Proofs.Bytes.Reads
import CoinCommit.Proofs.Coin.Codec
import CoinCommit.Proofs.Ledger.Records
import CoinCommit.Proofs.Ledger.Spend
import CoinCommit.Proofs.Snapshot.Spend
import CoinCommit.Proofs.Merkle.Commitment
import CoinCommit.Proofs.Bytes.HexDigits
import CoinCommit.Proofs.Snapshot.Collection
import CoinCommit.Proofs.Command.Published
import CoinCommit.Proofs.Ledger.Runs
import CoinCommit.Proofs.Coin.Form
import CoinCommit.Proofs.Ledger.Kept
import CoinCommit.Proofs.Ledger.Outputs
import CoinCommit.Proofs.Snapshot.Lookup
import CoinCommit.Proofs.Command.OutputProof
import CoinCommit.Proofs.Claim.Signed
import CoinCommit.Proofs.Wallet.KeyFile
import CoinCommit.Proofs.Wallet.Owned
import CoinCommit.Proofs.Command.OwnedClaims
import CoinCommit.Proofs.Command.Printed
import CoinCommit.Proofs.Ledger.Readings
import CoinCommit.Proofs.Ledger.Store
import CoinCommit.Proofs.Snapshot.Sources
import CoinCommit.Proofs.Command.Audit
import CoinCommit.Proofs.Json.Numbers
import CoinCommit.Proofs.Json.RoundTrip
import CoinCommit.Proofs.Snapshot.Manifest
import CoinCommit.Proofs.Merkle.InPlace
import CoinCommit.Proofs.Merkle.TopDown
import CoinCommit.Proofs.Ledger.SpendEffect
import CoinCommit.Proofs.Ledger.SpendOrder
import CoinCommit.Proofs.Snapshot.SpentLeaf
import CoinCommit.Proofs.Claim.Digest
import CoinCommit.Proofs.Claim.Partition
import CoinCommit.Proofs.Wallet.Ownership
import CoinCommit.Proofs.Lists.Sorting
import CoinCommit.Proofs.Wallet.Listing
import CoinCommit.Proofs.Snapshot.Found
import CoinCommit.Proofs.Coin.Ends
import CoinCommit.Proofs.Wallet.Accepted
import CoinCommit.Proofs.Wallet.ReadBack
import CoinCommit.Proofs.Bytes.SizeRows
import CoinCommit.Proofs.Snapshot.Values
import CoinCommit.Proofs.Snapshot.Published
import CoinCommit.Proofs.Disk.Secrets
import CoinCommit.Proofs.Merkle.Mirror
import CoinCommit.Proofs.Bytes.Histories
