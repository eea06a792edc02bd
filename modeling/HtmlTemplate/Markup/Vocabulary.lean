import HtmlTemplate.Text.Basic

/-!
# The vocabulary of markup

The names of elements and attributes that are treated apart: elements without content, elements
whose text is no markup, elements whose white space is kept, attributes that hold an event handler
and attributes that are switched on by their presence.
-/

namespace HtmlTemplate

namespace Vocabulary

/-- Elements that have no content and no end tag. -/
def voidElements : List Text :=
  ["area", "base", "br", "col", "embed", "hr", "img", "input", "keygen", "link", "menuitem",
    "meta", "param", "source", "track", "wbr"].map String.toList

/-- Elements whose text holds no tags. -/
def rawTextElements : List Text := ["script", "style", "textarea", "title"].map String.toList

/-- Elements whose text keeps its white space. -/
def preformattedElements : List Text := ["code", "input", "pre", "textarea"].map String.toList

/-- Attributes that are switched on by their presence. -/
def booleanAttributes : List Text :=
  ["async", "autofocus", "autoplay", "capture", "checked", "controls", "default", "defer",
    "disabled", "formnovalidate", "hidden", "ismap", "itemscope", "loop", "multiple", "muted",
    "nomodule", "novalidate", "open", "playsinline", "readonly", "required", "reversed",
    "selected", "truespeed", "typemustmatch", "usecache"].map String.toList

def script : Text := "script".toList

def style : Text := "style".toList

/-- Whether an element has no content, in any case of letters. -/
def isVoid (name : Text) : Bool := voidElements.contains (Text.lower name)

/-- Whether the text of an element holds no tags. The name is in small letters. -/
def isRawText (name : Text) : Bool := rawTextElements.contains name

/-- Whether the text of an element keeps its white space. -/
def isPreformatted (name : Text) : Bool := preformattedElements.contains name

/-- Whether a name is `start` followed by at least one small letter and nothing else. -/
def extendsBySmall (start name : Text) : Bool :=
  match Text.strip? start name with
  | some (c :: rest) => (c :: rest).all Text.isSmall
  | _ => false

/-- Whether an attribute holds an event handler: `on` and small letters. -/
def isEventAttribute (name : Text) : Bool := extendsBySmall ['o', 'n'] name

/-- Whether an attribute is written without a value when it is on: `allow` and small letters, and
the attributes of the list. -/
def isBooleanAttribute (name : Text) : Bool :=
  extendsBySmall ['a', 'l', 'l', 'o', 'w'] name || booleanAttributes.contains name

/-- Whether an attribute without a value is written as its bare name. -/
def isBareAttribute (name : Text) : Bool := isEventAttribute name || isBooleanAttribute name

/-- Whether an attribute holds style declarations, in any case of letters. -/
def isStyleAttribute (name : Text) : Bool := Text.lower name == style

end Vocabulary

end HtmlTemplate
