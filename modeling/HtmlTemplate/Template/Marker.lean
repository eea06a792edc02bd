import HtmlTemplate.Text.Basic

/-!
# Slot markers

While a skeleton is compiled, each slot is held open by a marker that carries its number. The
markers are built from a token that no skeleton contains by chance: `hw` and thirty-two lowercase
hexadecimal digits. In an attribute the marker is the value, in content it is a comment.

Reading a marker back has three forms: a text that is exactly one marker (`slotOf?`), the first
marker anywhere in a text (`firstSlotIn?`), and a text cut at its comment markers (`split`).
-/

namespace HtmlTemplate

/-- The token that slot markers are built from. -/
structure Sentinel where
  token : Text
  /-- Two letters and thirty-two hexadecimal digits. -/
  shape : token.take 2 = ['h', 'w'] ∧ token.length = 34 ∧
    (token.drop 2).all (fun c => Text.isDigit c || ('a' ≤ c && c ≤ 'f')) = true

namespace Sentinel

/-- The marker of a slot in an attribute value. -/
def attributeMarker (s : Sentinel) (slot : Nat) : Text := s.token ++ ':' :: Text.ofNat slot

/-- The marker of a slot in content. -/
def commentMarker (s : Sentinel) (slot : Nat) : Text :=
  ['<', '!', '-', '-'] ++ s.attributeMarker slot ++ ['-', '-', '>']

/-- The slot of a text that is exactly one attribute marker. -/
def slotOf? (s : Sentinel) (text : Text) : Option Nat :=
  (Text.strip? s.token text).bind fun rest =>
    match rest with
    | ':' :: digits => Text.word? digits
    | _ => none

/-- The slot of the first marker in a text; a marker without a readable number counts as slot 0. -/
def firstSlotIn? (s : Sentinel) (text : Text) : Option Nat :=
  (Text.cut? s.token text).map fun (_, after) =>
    match after with
    | ':' :: rest => (Text.word? (rest.takeWhile Text.isDigit)).getD 0
    | _ => 0

/-- A part of a text that is cut at its comment markers. -/
inductive Piece where
  | literal (text : Text)
  | slot (slot : Nat)
  deriving Repr, DecidableEq

/-- How every comment marker begins. -/
def commentOpening (s : Sentinel) : Text := ['<', '!', '-', '-'] ++ s.token ++ [':']

/-- The number at the start of a text and what follows the marker's end, if both are there. -/
def markerEnd? (text : Text) : Option (Nat × Text) :=
  match Text.word? (text.takeWhile Text.isDigit),
      Text.strip? ['-', '-', '>'] (text.dropWhile Text.isDigit) with
  | some slot, some rest => some (slot, rest)
  | _, _ => none

/-- Cuts a text at its comment markers, at most `fuel` times. The opening of a marker that does not
end as one stays in a literal piece of its own. -/
def splitWithin (s : Sentinel) : Nat → Text → List Piece
  | 0, text => [.literal text]
  | fuel + 1, text =>
    match Text.cut? s.commentOpening text with
    | none => [.literal text]
    | some (before, after) =>
      match markerEnd? after with
      | some (slot, rest) => .literal before :: .slot slot :: splitWithin s fuel rest
      | none => .literal (before ++ s.commentOpening) :: splitWithin s fuel after

/-- The text cut at its comment markers: literal pieces and slots take turns, except around a
marker that is mangled. Each cut takes an opening away, so there are fewer cuts than characters. -/
def split (s : Sentinel) (text : Text) : List Piece := s.splitWithin text.length text

end Sentinel

end HtmlTemplate
