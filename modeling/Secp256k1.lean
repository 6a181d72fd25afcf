import Secp256k1.Ecdsa.Basic
import Secp256k1.Engine.Tape
import Secp256k1.Secret
import Secp256k1.Serial
import Secp256k1.Proofs.Attempts
import Secp256k1.Proofs.BoundedMap
import Secp256k1.Proofs.CachedInverses
import Secp256k1.Proofs.Canonicity
import Secp256k1.Proofs.Compression
import Secp256k1.Proofs.Countermeasures
import Secp256k1.Proofs.Folding
import Secp256k1.Proofs.GroupLaw
import Secp256k1.Proofs.Inverses
import Secp256k1.Proofs.Normalization
import Secp256k1.Proofs.Precomputation
import Secp256k1.Proofs.Products
import Secp256k1.Proofs.Provenance
import Secp256k1.Proofs.Recoding
import Secp256k1.Proofs.Recovery
import Secp256k1.Proofs.Representations
import Secp256k1.Proofs.ScalarAction
import Secp256k1.Proofs.Sec1Grammar
import Secp256k1.Proofs.Serialization
import Secp256k1.Proofs.SquareRoots
import Secp256k1.Proofs.Statistics
import Secp256k1.Proofs.Totality
import Secp256k1.Proofs.Triples
import Secp256k1.Proofs.Trust
import Secp256k1.Proofs.Uniformity
import Secp256k1.Proofs.WideIntegers
