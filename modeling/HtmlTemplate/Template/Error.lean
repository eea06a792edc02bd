import HtmlTemplate.Text.Basic

/-!
# Errors

Why a skeleton cannot be compiled and why a template cannot be rendered. Each cause carries what
its message says; the wording is in `message`.
-/

namespace HtmlTemplate

/-- Why a skeleton cannot be compiled. -/
inductive CompileError where
  /-- The event source gave up. -/
  | unreadable (reason : Text)
  /-- A slot stands where the name of a tag or attribute is expected. -/
  | slotInName (slot : Nat)
  /-- A slot shares an attribute value with text or another slot; `slot` is the first one there. -/
  | partialAttribute (name : Text) (slot : Nat)
  /-- A slot stands inside a comment. -/
  | slotInComment (slot : Nat)
  /-- The slots do not come in the order of the skeleton. -/
  | slotOutOfOrder (expected found : Nat)
  /-- Some slots were swallowed by the markup around them. -/
  | missingSlots (expected found : Nat)
  deriving Repr, DecidableEq

/-- The message of a compile error. -/
def CompileError.message : CompileError → Text
  | unreadable reason => "tokenizer error: ".toList ++ reason
  | slotInName slot =>
    "slot ".toList ++ Text.ofNat slot ++ " is in a tag or attribute name position".toList
  | partialAttribute name slot =>
    "slot ".toList ++ Text.ofNat slot ++ " is only part of the value of attribute `".toList ++
      name ++ ['`']
  | slotInComment slot => "slot ".toList ++ Text.ofNat slot ++ " is inside a comment".toList
  | slotOutOfOrder expected found =>
    "expected slot ".toList ++ Text.ofNat expected ++ ", found slot ".toList ++ Text.ofNat found
  | missingSlots expected found =>
    "skeleton declares ".toList ++ Text.ofNat expected ++ " slots, only ".toList ++
      Text.ofNat found ++ " were classified".toList

/-- Why a template cannot be rendered. -/
inductive RenderError where
  | compile (cause : CompileError)
  /-- The number of values differs from the number of slots. -/
  | slotCount (expected got : Nat)
  /-- The value of a slot was rejected. -/
  | rejected (slot : Nat) (reason : Text)
  /-- The transformation of an attribute failed. -/
  | intent (name : Text) (reason : Text)
  deriving Repr, DecidableEq

/-- The message of a render error. -/
def RenderError.message : RenderError → Text
  | compile cause => cause.message
  | slotCount expected got =>
    "template has ".toList ++ Text.ofNat expected ++ " slots, got ".toList ++ Text.ofNat got ++
      " values".toList
  | rejected slot reason =>
    "asynchronous value for slot ".toList ++ Text.ofNat slot ++ " was rejected: ".toList ++ reason
  | intent name reason =>
    "attribute transform for `".toList ++ name ++ "` failed: ".toList ++ reason

/-- The message about a minifier that failed. -/
def minifierMessage (reason : Text) : Text := "minifier failed: ".toList ++ reason

end HtmlTemplate
