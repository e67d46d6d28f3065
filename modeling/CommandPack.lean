import CommandPack.Main
import CommandPack.Program.Outline
import CommandPack.Proofs.Recounting
import CommandPack.Proofs.Registering
import CommandPack.Proofs.Showing
import CommandPack.Proofs.Racking
import CommandPack.Proofs.Enclosing
import CommandPack.Proofs.Depositing
import CommandPack.Proofs.Distinguishing
import CommandPack.Proofs.Filling
import CommandPack.Proofs.Exporting
import CommandPack.Proofs.Refusing
import CommandPack.Proofs.Enumerating
import CommandPack.Proofs.Addressing
import CommandPack.Proofs.Reporting
import CommandPack.Proofs.Creating
import CommandPack.Proofs.Memoizing
import CommandPack.Proofs.Suggesting
import CommandPack.Proofs.Dividing
import CommandPack.Proofs.Commenting
import CommandPack.Proofs.Truncating
import CommandPack.Proofs.Flooring
import CommandPack.Proofs.Nesting
import CommandPack.Proofs.Tracing
