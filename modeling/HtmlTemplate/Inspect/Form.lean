import HtmlTemplate.Text.Quoted

/-!
# Inspection forms

An inspection shows a value for somebody who looks for a mistake: the name of its kind and its
parts, texts in quotation marks. This module holds the four ways in which parts are put together.
-/

namespace HtmlTemplate

namespace Inspect

/-- Parts with a comma between neighbours. -/
def commas (parts : List Text) : Text := Text.join [',', ' '] parts

/-- A sequence. -/
def sequence (parts : List Text) : Text := '[' :: commas parts ++ [']']

/-- Keys with their values. -/
def mapping (entries : List (Text × Text)) : Text :=
  '\x7b' :: commas (entries.map fun (key, part) => key ++ [':', ' '] ++ part) ++ ['\x7d']

/-- A kind with parts that are known by their place. -/
def tuple (kind : String) (parts : List Text) : Text :=
  kind.toList ++ '(' :: commas parts ++ [')']

/-- A kind with parts that are known by their names. -/
def fields (kind : String) (parts : List (String × Text)) : Text :=
  kind.toList ++ [' ', '\x7b', ' '] ++
    commas (parts.map fun (name, part) => name.toList ++ [':', ' '] ++ part) ++ [' ', '\x7d']

/-- A truth value. -/
def bool (b : Bool) : Text := if b then "true".toList else "false".toList

/-- A value that may be missing. -/
def option (part : Option Text) : Text :=
  match part with
  | none => "None".toList
  | some part => tuple "Some" [part]

end Inspect

end HtmlTemplate
