import ClearYourTools.CytClient.Proofs.GateVerdicts

/-!
# Feedback on the use of catalog tools

The feedback repeats the part of the gate that looks into the catalogs. The rules that come before
it are not repeated.
-/

namespace ClearYourTools.CytClient

open Misc List Option
open Json (PyFormat noFloats)

variable {φ : Type}

section

variable (p : PyFormat φ) (validate : SchemaValidator φ) (isAlnum : Char → Bool)
  (agent : Option Text) (configOn : Bool) (log : Option Text) (payload : Record φ)

variable {p validate isAlnum agent configOn log payload} {context : GateContext φ} {name : Text}
  {given : Option (Record φ)} {catalog : Text} {tool : Record φ}

variable (p validate isAlnum agent configOn log payload)

end

end ClearYourTools.CytClient
