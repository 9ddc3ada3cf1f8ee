import Proforma.Main
import Proforma.Number.Fixed
import Proforma.Proofs.Alike
import Proforma.Proofs.Tree
import Proforma.Proofs.Building
import Proforma.Proofs.Cutting
import Proforma.Proofs.Noninterference
import Proforma.Proofs.Parsing
import Proforma.Proofs.Reading
import Proforma.Proofs.Roundtrip
import Proforma.Proofs.Fragment
import Proforma.Proofs.Proposing
import Proforma.Proofs.Joining
import Proforma.Proofs.Showing
import Proforma.Proofs.Accepting
import Proforma.Proofs.Nesting
import Proforma.Proofs.Sharing
import Proforma.Proofs.Places
import Proforma.Proofs.Aligning
import Proforma.Proofs.Concatenating
import Proforma.Proofs.Meaning
import Proforma.Proofs.Containment
import Proforma.Proofs.Segmenting
import Proforma.Proofs.Covering
import Proforma.Proofs.Fronting
import Proforma.Proofs.Pruning
import Proforma.Proofs.Caching
import Proforma.Proofs.Degrading
import Proforma.Proofs.Checking
import Proforma.Proofs.Overlapping
import Proforma.Proofs.Encoding
import Proforma.Proofs.Inspecting
import Proforma.Proofs.Renaming
import Proforma.Proofs.Piping
import Proforma.Proofs.Amounts
import Proforma.Proofs.Doubles
import Proforma.Proofs.Numbers
import Proforma.Proofs.Substituting
import Proforma.Proofs.Accounting
import Proforma.Template.Cursor
import Proforma.Proofs.Slicing
import Proforma.Proofs.Locating
import Proforma.Template.Scan
import Proforma.Proofs.Scanning
import Proforma.Proofs.Pointing
import Proforma.Proofs.Bounding
import Proforma.Proofs.Underlining
import Proforma.Proofs.Labelling
