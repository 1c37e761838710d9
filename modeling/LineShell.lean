import LineShell.Git.Script
import LineShell.Main
import LineShell.Proofs.Script
import LineShell.Proofs.AndOr
import LineShell.Proofs.Extent
import LineShell.Proofs.Rendering
import LineShell.Proofs.Growth
import LineShell.Proofs.Refusal
import LineShell.Proofs.Sequence
import LineShell.Proofs.Completing
import LineShell.Proofs.Offering
import LineShell.Proofs.Accepting
import LineShell.Proofs.Flagging
import LineShell.Proofs.Cutting
import LineShell.Proofs.Refreshing
import LineShell.Proofs.Unclosed
import LineShell.Proofs.Serving
import LineShell.Proofs.Flattening
import LineShell.Proofs.Spacing
import LineShell.Proofs.Collating
import LineShell.Proofs.Matching
import LineShell.Proofs.Narrowing
import LineShell.Proofs.Covering
import LineShell.Proofs.Scoping
import LineShell.Proofs.Accounting
import LineShell.Proofs.Closing
import LineShell.Proofs.Dividing
import LineShell.Proofs.Paging
import LineShell.Proofs.Pointing
import LineShell.Proofs.Regapping
import LineShell.Proofs.Typesetting
import LineShell.Proofs.Printing
import LineShell.Proofs.Merging
