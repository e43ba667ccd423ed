import UsbTransfer.Digest
import UsbTransfer.Session.Transcript
import UsbTransfer.Proofs.References
import UsbTransfer.Proofs.Lifetimes
import UsbTransfer.Proofs.Teardown
import UsbTransfer.Proofs.Exclusion
import UsbTransfer.Proofs.Toggles
import UsbTransfer.Proofs.Queues
import UsbTransfer.Proofs.Wakers
import UsbTransfer.Proofs.Misuse
import UsbTransfer.Proofs.Discretion
import UsbTransfer.Proofs.Fates
import UsbTransfer.Proofs.Refinement
import UsbTransfer.Proofs.Requests
import UsbTransfer.Proofs.Stragglers
import UsbTransfer.Proofs.Completions
import UsbTransfer.Proofs.Removals
import UsbTransfer.Proofs.Resets
import UsbTransfer.Proofs.Coherence
import UsbTransfer.Proofs.Possessions
import UsbTransfer.Proofs.Harmless
import UsbTransfer.Proofs.Summaries
