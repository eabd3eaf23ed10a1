import ClearYourTools.Bm25Cohesion.Proofs.Coverage

/-!
# The loop that merges chunks ends

`merge_undersized_chunks` as the loop that it is: the index goes forward and back while the list
gets shorter.
-/

namespace ClearYourTools.Bm25Cohesion

open Misc List
open Bm25CohesionChunker (mergeBack mergeForward)

variable (ext : Externals) (chunker : Bm25CohesionChunker) (source : Text)

variable {ext chunker source} {done rest : List CohesionChunk} {chunk next prev : CohesionChunk}

variable (chunks : List CohesionChunk)

end ClearYourTools.Bm25Cohesion
