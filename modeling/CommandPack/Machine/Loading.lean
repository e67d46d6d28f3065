import CommandPack.Machine.Run
import CommandPack.Listing

/-!
Machines that hold the functions of a listing.
-/

namespace CommandPack.Machine

def ofListing (setup : Setup) (l : Listing) : Machine :=
  let m : Machine := { toSetup := setup }
  l.functions.foldl (fun m f => m.define f.path f.lines) { m with tags := l.tags }

end CommandPack.Machine
