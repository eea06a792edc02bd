import HtmlTemplate.Text.Basic

/-!
# Tokens

The tokens of markup and the tag that is being read. The attributes of a tag are kept in the order
of their names, and of two attributes of one name the first one written counts.
-/

namespace HtmlTemplate

/-- An attribute of a start tag; character references in its value are decoded. -/
structure Attribute where
  name : Text
  value : Text
  deriving Repr, DecidableEq

/-- Adds an attribute to a list in the order of names, unless its name is there already. -/
def Attribute.insert (a : Attribute) : List Attribute → List Attribute
  | [] => [a]
  | b :: rest =>
    if a.name = b.name then b :: rest
    else if a.name < b.name then a :: b :: rest
    else b :: a.insert rest

/-- A tag as far as it has been read. -/
structure Tag where
  /-- Whether this is an end tag. -/
  closing : Bool
  name : Text
  attributes : List Attribute
  deriving Repr, DecidableEq

/-- The tag with one more attribute. -/
def Tag.withAttribute (tag : Tag) (name value : Text) : Tag :=
  { tag with attributes := Attribute.insert ⟨name, value⟩ tag.attributes }

/-- A piece of markup. -/
inductive Token where
  /-- One character of text. -/
  | character (c : Char)
  | startTag (name : Text) (attributes : List Attribute) (selfClosing : Bool)
  | endTag (name : Text)
  | comment (data : Text)
  | doctype (name : Text)
  deriving Repr, DecidableEq

/-- The characters of a text as tokens. -/
def Token.characters (s : Text) : List Token := s.map .character

/-- The token of a complete tag. The attributes of an end tag are dropped. -/
def Tag.token (tag : Tag) (selfClosing : Bool) : Token :=
  if tag.closing then .endTag tag.name else .startTag tag.name tag.attributes selfClosing

end HtmlTemplate
