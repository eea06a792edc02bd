import HtmlTemplate.Text.Basic

/-!
# Event handlers

The source of a handler is written into an attribute, where it is called in place. The short form
of a method, a name directly before its parameters, is no expression; `normalize` makes it a named
function.
-/

namespace HtmlTemplate

namespace Handler

/-- The word that starts a function expression. -/
def functionWord : Text := "function".toList

/-- Whether a source starts with a name directly before a parenthesis: the text before the first
parenthesis starts with a small letter, a dollar sign or an underscore, has no white space, and
does not start as a function expression does. -/
def isShorthand (source : Text) : Bool :=
  match Text.cut? ['('] source with
  | none => false
  | some ([], _) => false
  | some (c :: head, _) =>
    (Text.isSmall c || c == '$' || c == '_') &&
      !(c :: head).any Text.isUnicodeBlank && !Text.startsWith functionWord (c :: head)

/-- The source as an expression. -/
def normalize (source : Text) : Text :=
  if isShorthand source then functionWord ++ ' ' :: source else source

end Handler

end HtmlTemplate
