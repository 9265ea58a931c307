/-
  Badnet.Consdiffmgr.ClientUpdate — a client that applies what a directory cache serves for its digest.

  In any run of the manager an available diff is one that the worker makes between two consensuses of the cache. Whatever
  text the client has, what it makes of the diff is a text with the digest of a newer consensus, or nothing.
-/

import Badnet.Consdiffmgr.Served
import Badnet.Consdiff.Document

namespace Badnet.Consdiffmgr

open Lib Encoding Consdiff

/-- `consensus_diff_worker_threadfn` before the compression; `body` is what `uncompress_or_set_ptr` gives. -/
def workerDiff (sha3 : Text → Consdiff.Digest) (body : Consensus → Text) (j : Job) : Option Text :=
  consensusDiffGenerate sha3 (body j.diffFrom) (body j.diffTo)

end Badnet.Consdiffmgr
