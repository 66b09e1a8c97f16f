import AionisCore.Lib.JsString

/-!
# Text normalization

`normalizeText` collapses white space, trims and clamps. `TextPolicy` is how a
deployment treats free text: the length bound and whether `redactPII` is applied.
-/

namespace AionisCore.Util

open Lib.JsString

/-- `.replace(/\s+/g, " ")`; `inRun` tells whether the last character was white space. -/
def collapseWhite : (inRun : Bool) → List Char → List Char
  | _, [] => []
  | inRun, c :: cs =>
    if isWhite c then
      if inRun then collapseWhite true cs else ' ' :: collapseWhite true cs
    else c :: collapseWhite false cs

def normalizeText (input : String) (maxLen : Nat) : String :=
  let collapsed := trim (String.ofList (collapseWhite false input.toList))
  if length collapsed ≤ maxLen then collapsed else take (maxLen - 1) collapsed ++ "…"

structure TextPolicy where
  maxTextLen : Nat
  piiRedaction : Bool
  redactPII : String → String

/-- `normalizeMaybeRedact`. -/
def TextPolicy.normalize (opts : TextPolicy) (input : String) : String :=
  if input = "" then input
  else
    let normalized := normalizeText input opts.maxTextLen
    if opts.piiRedaction then opts.redactPII normalized else normalized

end AionisCore.Util
