import HtmlTemplate.Journal
import HtmlTemplate.Value.Basic

/-!
# Options

What a host sets for compiling and rendering: transformations of attributes and of objects,
minifiers, whether content slots are surrounded by markers, and whether white space is collapsed.
Names of attributes are kept in small letters, as the tokenizer reports them.
-/

namespace HtmlTemplate

/-- A transformation of an attribute value: from the previous value, if there is one, and the new
one to the value to write, or to the reason why there is none. -/
abbrev Intent := Option Value → Value → Noted (Except Text Value)

/-- What to write instead of an object that has a certain key, from the value under that key. -/
abbrev Transformer := Value → Noted Value

/-- A shorter form of a script or style text, or the reason why there is none. -/
abbrev Minifier := Text → Except Text Text

/-- What a host sets. -/
structure Options where
  /-- Attributes with a transformation. -/
  intents : List (Text × Intent) := []
  /-- Keys of objects with a transformer, in the order in which they are tried. -/
  transformers : List (Text × Transformer) := []
  /-- Whether content slots are surrounded by markers. -/
  adoptable : Bool := false
  minifyScript : Minifier := .ok
  minifyStyle : Minifier := .ok
  /-- Whether runs of white space in literal text become one space. -/
  collapse : Bool := false
  /-- How many times in a row an object may be replaced by what a transformer makes of it, beyond
  once for each transformer. -/
  patience : Nat := 1024

namespace Options

/-- Sets the transformation of an attribute. -/
def withIntent (options : Options) (name : Text) (intent : Intent) : Options :=
  { options with intents := Entries.put (Text.lower name) intent options.intents }

/-- Sets the transformer of a key; a key that has one keeps its place. -/
def withTransformer (options : Options) (key : Text) (transformer : Transformer) : Options :=
  { options with transformers := Entries.put key transformer options.transformers }

/-- Whether an attribute has a transformation. -/
def isIntent (options : Options) (name : Text) : Bool :=
  (Entries.get? name options.intents).isSome

/-- How many times in a row an object may be replaced: a chain that uses each transformer once is
never cut short. An object that is reached after that many replacements is written as nothing. -/
def expansions (options : Options) : Nat := options.patience + options.transformers.length

/-- What the first transformer makes of an object whose key the object has. -/
def transform? (options : Options) (entries : List (Text × Value)) : Option (Noted Value) :=
  options.transformers.findSome? fun (key, transformer) =>
    (Entries.get? key entries).map fun value => do
      .note (.transformed key)
      transformer value

end Options

end HtmlTemplate
