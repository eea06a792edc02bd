import HtmlTemplate.Text.Basic

/-!
# Escaping

Five characters have a meaning in markup. `escape` writes each as a character reference, so that
its result is plain text inside an element and inside a quoted attribute value. `escapeText` does
so for the three that matter between tags and leaves quotation marks alone. `unescape` reads the
five references back, left to right and once.
-/

namespace HtmlTemplate

namespace Text

/-- The written form of one character in an attribute value. -/
def escapeChar (c : Char) : Text :=
  if c = '&' then ['&', 'a', 'm', 'p', ';']
  else if c = '<' then ['&', 'l', 't', ';']
  else if c = '>' then ['&', 'g', 't', ';']
  else if c = '"' then ['&', 'q', 'u', 'o', 't', ';']
  else if c = '\'' then ['&', '#', '3', '9', ';']
  else [c]

/-- The written form of one character between tags. -/
def escapeTextChar (c : Char) : Text :=
  if c = '&' then ['&', 'a', 'm', 'p', ';']
  else if c = '<' then ['&', 'l', 't', ';']
  else if c = '>' then ['&', 'g', 't', ';']
  else [c]

/-- The text with `&`, `<`, `>`, `"` and `'` written as character references. -/
def escape (s : Text) : Text := s.flatMap escapeChar

/-- The text with `&`, `<` and `>` written as character references. -/
def escapeText (s : Text) : Text := s.flatMap escapeTextChar

/-- The text with the five references of `escape` replaced by their characters. -/
def unescape : Text → Text
  | '&' :: 'a' :: 'm' :: 'p' :: ';' :: s => '&' :: unescape s
  | '&' :: 'l' :: 't' :: ';' :: s => '<' :: unescape s
  | '&' :: 'g' :: 't' :: ';' :: s => '>' :: unescape s
  | '&' :: 'q' :: 'u' :: 'o' :: 't' :: ';' :: s => '"' :: unescape s
  | '&' :: '#' :: '3' :: '9' :: ';' :: s => '\'' :: unescape s
  | c :: s => c :: unescape s
  | [] => []

/-- Escaping a text is escaping its parts. -/
theorem escape_append (s t : Text) : escape (s ++ t) = escape s ++ escape t :=
  List.flatMap_append

/-- Escaping a text between tags is escaping its parts. -/
theorem escapeText_append (s t : Text) : escapeText (s ++ t) = escapeText s ++ escapeText t :=
  List.flatMap_append

end Text

end HtmlTemplate
