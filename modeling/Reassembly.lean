import Reassembly.Http.Script
import Reassembly.Session.Run
import Reassembly.Proofs.Blocks
import Reassembly.Proofs.Upload
import Reassembly.Proofs.Truncation
import Reassembly.Proofs.Permits
import Reassembly.Proofs.LifeCycle
import Reassembly.Proofs.Session.Rehearsal
import Reassembly.Proofs.Gateway
import Reassembly.Proofs.Containers
import Reassembly.Proofs.KeyWrapping
import Reassembly.Proofs.Retries
import Reassembly.Proofs.Manifests
import Reassembly.Proofs.BlockDecryption
import Reassembly.Proofs.Bounds
import Reassembly.Proofs.ExactCover
import Reassembly.Proofs.Settings
import Reassembly.Proofs.Members
import Reassembly.Proofs.ManifestUrls
import Reassembly.Proofs.Statuses
import Reassembly.Proofs.Backoff
import Reassembly.Proofs.Addresses
import Reassembly.Proofs.Reports
import Reassembly.Proofs.Frugality
import Reassembly.Proofs.Secrets
import Reassembly.Proofs.Windows
import Reassembly.Proofs.Overrides
