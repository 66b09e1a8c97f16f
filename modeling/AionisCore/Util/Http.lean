/-!
# HTTP errors

`HttpError` is the exception every route handler raises; `Details` is the type
of the structured part of the answer.
-/

namespace AionisCore.Util

structure HttpError (Details : Type) where
  statusCode : Nat
  code : String
  message : String
  details : Details
  deriving DecidableEq, Repr

def badRequest {Details : Type} (code message : String) (details : Details) : HttpError Details :=
  ⟨400, code, message, details⟩

end AionisCore.Util
