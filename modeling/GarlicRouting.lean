import GarlicRouting.Main
import GarlicRouting.Proofs.Cipher.BlockCipher
import GarlicRouting.Proofs.Cipher.ElGamal
import GarlicRouting.Proofs.Decoder
import GarlicRouting.Proofs.Wire
import GarlicRouting.Proofs.Reading
import GarlicRouting.Proofs.TagBlock
import GarlicRouting.Proofs.Session.Pool
import GarlicRouting.Proofs.Table
import GarlicRouting.Proofs.Session.Sender
import GarlicRouting.Proofs.Session.Barrier
import GarlicRouting.Proofs.Session.Receiver
import GarlicRouting.Proofs.Session.Sealed
import GarlicRouting.Proofs.Session.Link
import GarlicRouting.Proofs.Session.Exchange
import GarlicRouting.Proofs.Session.Replay
import GarlicRouting.Proofs.Session.Tags
import GarlicRouting.Proofs.Session.Outbox
import GarlicRouting.Proofs.Session.Index
import GarlicRouting.Proofs.Session.Statuses
import GarlicRouting.Proofs.Session.Sessions
import GarlicRouting.Proofs.Session.Retry
import GarlicRouting.Proofs.Session.Confirmation
import GarlicRouting.Proofs.Session.Waiting
import GarlicRouting.Proofs.Session.Contents
import GarlicRouting.Proofs.Session.Tracking
import GarlicRouting.Proofs.Session.Attempts
import GarlicRouting.Proofs.Session.Ledger
import GarlicRouting.Proofs.Session.Bookkeeping
import GarlicRouting.Proofs.Session.Commit
import GarlicRouting.Proofs.Session.Upkeep
import GarlicRouting.Proofs.Session.Refusal
import GarlicRouting.Proofs.Router.Nesting
