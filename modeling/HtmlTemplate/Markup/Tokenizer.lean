import HtmlTemplate.Markup.Reference
import HtmlTemplate.Markup.Token

/-!
# The tokenizer

Reads markup one character at a time. `State` is what has been read of the construct at hand,
`State.step` reads one character and says which tokens that completes, and `State.finish` says
which tokens the end of the input completes. There is no unreadable markup: what is no tag, comment
or reference is text.

The content of `script` and `style` holds nothing but their end tag, the content of `textarea` and
`title` nothing but character references and their end tag; everything else is ordinary markup.
Because reading is a fold over the characters, reading a text that is cut in two is reading its
first part and then, from the state reached, its second (`run_append`).
-/

namespace HtmlTemplate

/-- How far script text is inside a comment-like passage, where a nested `<script>` hides the next
end tag. Dashes are counted up to two, since `-->` leaves the passage. -/
inductive ScriptPhase where
  | plain
  /-- After `<!` and the given number of dashes. -/
  | opening (dashes : Nat)
  /-- Inside the passage, after the given number of dashes. -/
  | escaped (dashes : Nat)
  /-- In the letters of a start tag inside the passage. -/
  | entering (word : Text)
  /-- Inside a nested script, after the given number of dashes. -/
  | nested (dashes : Nat)
  /-- After a less-than sign inside a nested script. -/
  | nestedLess
  /-- In the letters of an end tag inside a nested script. -/
  | leaving (word : Text)
  deriving Repr, DecidableEq

/-- Content that ends only with the end tag of its element. -/
inductive RawContent where
  /-- Text with character references. -/
  | plain (element : Text)
  /-- Text without them. -/
  | script (element : Text) (phase : ScriptPhase)
  deriving Repr, DecidableEq

/-- The element that the content belongs to. -/
def RawContent.element : RawContent → Text
  | plain element => element
  | script element _ => element

/-- What encloses an attribute value. -/
inductive Quote where
  | double
  | single
  | none
  deriving Repr, DecidableEq

/-- Where the text of a character reference goes. -/
inductive ReferenceTarget where
  | data
  | raw (element : Text)
  | value (tag : Tag) (name : Text) (quote : Quote) (value : Text)
  deriving Repr, DecidableEq

/-- Whether the reference stands in an attribute value. -/
def ReferenceTarget.inAttribute : ReferenceTarget → Bool
  | value .. => true
  | _ => false

/-- How far a comment has been read. -/
inductive CommentPhase where
  /-- Right after `<!--`. -/
  | start
  /-- After a dash right after `<!--`. -/
  | startDash
  | body
  /-- After one dash. -/
  | dash
  /-- After two dashes or more. -/
  | dashes
  /-- After two dashes and an exclamation mark. -/
  | bang
  deriving Repr, DecidableEq

/-- How far a document type has been read; all that follows its name is skipped. -/
inductive DoctypePhase where
  | before
  | name
  | after
  deriving Repr, DecidableEq

/-- What has been read of the construct at hand. -/
inductive State where
  | data
  | raw (content : RawContent)
  /-- After a less-than sign in raw content. -/
  | rawLess (content : RawContent)
  /-- After `</` in raw content. -/
  | rawEndOpen (content : RawContent)
  /-- In the letters after `</` in raw content. -/
  | rawEndName (content : RawContent) (letters : Text)
  | reference (target : ReferenceTarget) (reference : Reference)
  /-- After a less-than sign. -/
  | tagOpen
  /-- After `</`. -/
  | endTagOpen
  | tagName (tag : Tag)
  | beforeName (tag : Tag)
  | attributeName (tag : Tag) (name : Text)
  | afterName (tag : Tag) (name : Text)
  | beforeValue (tag : Tag) (name : Text)
  | value (tag : Tag) (name : Text) (quote : Quote) (value : Text)
  | afterValue (tag : Tag)
  /-- After a slash inside a tag. -/
  | selfClosing (tag : Tag)
  /-- After `<!` and the given beginning of a comment or document type. -/
  | declaration (seen : Text)
  | comment (phase : CommentPhase) (data : Text)
  /-- A comment that ends at the next greater-than sign. -/
  | bogusComment (data : Text)
  | doctype (phase : DoctypePhase) (name : Text)
  deriving Repr, DecidableEq

namespace State

/-- The null character. -/
def null : Char := Char.ofNat 0

/-- A character as it is kept outside ordinary text: null is replaced. -/
def kept (c : Char) : Char := if c = null then Reference.replacement else c

/-- A character as it is kept in a name. -/
def keptInName (c : Char) : Char := if c = null then Reference.replacement else Text.lowerChar c

/-- The state in which the content of an element is read. -/
def content (name : Text) : State :=
  if name = ['s', 'c', 'r', 'i', 'p', 't'] ∨ name = ['s', 't', 'y', 'l', 'e'] then
    raw (.script name .plain)
  else if name = ['t', 'e', 'x', 't', 'a', 'r', 'e', 'a'] ∨ name = ['t', 'i', 't', 'l', 'e'] then
    raw (.plain name)
  else data

/-- The state after a complete tag. -/
def afterTag (tag : Tag) (closesItself : Bool) : State :=
  if tag.closing || closesItself then data else content tag.name

/-- The end of a tag. -/
def closeTag (tag : Tag) (closesItself : Bool) : State × List Token :=
  (afterTag tag closesItself, [tag.token closesItself])

/-- Puts tokens before those of a step. -/
def emitting (tokens : List Token) (step : State × List Token) : State × List Token :=
  (step.1, tokens ++ step.2)

/-! ## Text -/

/-- Ordinary text. -/
def stepData (c : Char) : State × List Token :=
  if c = '&' then (reference .data .start, [])
  else if c = '<' then (tagOpen, [])
  else (data, [.character c])

/-- Script text outside any comment-like passage. -/
def stepScriptPlain (element : Text) (c : Char) : State × List Token :=
  if c = '<' then (rawLess (.script element .plain), [])
  else (raw (.script element .plain), [.character (kept c)])

/-- Script text inside a comment-like passage. -/
def stepScriptEscaped (element : Text) (dashes : Nat) (c : Char) : State × List Token :=
  if c = '-' then (raw (.script element (.escaped (min (dashes + 1) 2))), [.character c])
  else if c = '<' then (rawLess (.script element (.escaped 0)), [])
  else if c = '>' ∧ dashes = 2 then (raw (.script element .plain), [.character c])
  else (raw (.script element (.escaped 0)), [.character (kept c)])

/-- Script text inside a nested script. -/
def stepScriptNested (element : Text) (dashes : Nat) (c : Char) : State × List Token :=
  if c = '-' then (raw (.script element (.nested (min (dashes + 1) 2))), [.character c])
  else if c = '<' then (raw (.script element .nestedLess), [.character c])
  else if c = '>' ∧ dashes = 2 then (raw (.script element .plain), [.character c])
  else (raw (.script element (.nested 0)), [.character (kept c)])

/-- Whether a character ends the word after `<` or `</` in script text. -/
def endsWord (c : Char) : Bool := Text.isBlank c || c == '/' || c == '>'

/-- The word that opens and closes a nested script. -/
def scriptWord : Text := ['s', 'c', 'r', 'i', 'p', 't']

/-- Script text. -/
def stepScript (element : Text) (phase : ScriptPhase) (c : Char) : State × List Token :=
  match phase with
  | .plain => stepScriptPlain element c
  | .opening dashes =>
    if c = '-' then
      (raw (.script element (if dashes = 0 then .opening 1 else .escaped 2)), [.character c])
    else stepScriptPlain element c
  | .escaped dashes => stepScriptEscaped element dashes c
  | .entering word =>
    if endsWord c then
      (raw (.script element (if word = scriptWord then .nested 0 else .escaped 0)),
        [.character c])
    else if Text.isLetter c then
      (raw (.script element (.entering (word ++ [Text.lowerChar c]))), [.character c])
    else stepScriptEscaped element 0 c
  | .nested dashes => stepScriptNested element dashes c
  | .nestedLess =>
    if c = '/' then (raw (.script element (.leaving [])), [.character c])
    else stepScriptNested element 0 c
  | .leaving word =>
    if endsWord c then
      (raw (.script element (if word = scriptWord then .escaped 0 else .nested 0)),
        [.character c])
    else if Text.isLetter c then
      (raw (.script element (.leaving (word ++ [Text.lowerChar c]))), [.character c])
    else stepScriptNested element 0 c

/-- Raw content. -/
def stepRaw (content : RawContent) (c : Char) : State × List Token :=
  match content with
  | .plain element =>
    if c = '&' then (reference (.raw element) .start, [])
    else if c = '<' then (rawLess content, [])
    else (raw content, [.character (kept c)])
  | .script element phase => stepScript element phase c

/-- After a less-than sign in raw content. -/
def stepRawLess (content : RawContent) (c : Char) : State × List Token :=
  if c = '/' then (rawEndOpen content, [])
  else
    match content with
    | .script element .plain =>
      if c = '!' then (raw (.script element (.opening 0)), Token.characters ['<', '!'])
      else emitting [.character '<'] (stepRaw content c)
    | .script element (.escaped _) =>
      if Text.isLetter c then
        emitting [.character '<'] (stepScript element (.entering []) c)
      else emitting [.character '<'] (stepRaw content c)
    | _ => emitting [.character '<'] (stepRaw content c)

/-- After `</` in raw content. -/
def stepRawEndOpen (content : RawContent) (c : Char) : State × List Token :=
  if Text.isLetter c then (rawEndName content [c], [])
  else emitting (Token.characters ['<', '/']) (stepRaw content c)

/-- In the letters after `</` in raw content: only the name of the element makes an end tag. -/
def stepRawEndName (content : RawContent) (letters : Text) (c : Char) : State × List Token :=
  let tag : Tag := ⟨true, Text.lower letters, []⟩
  if Text.isLetter c then (rawEndName content (letters ++ [c]), [])
  else if tag.name = content.element ∧ Text.isBlank c then (beforeName tag, [])
  else if tag.name = content.element ∧ c = '/' then (selfClosing tag, [])
  else if tag.name = content.element ∧ c = '>' then closeTag tag false
  else emitting (Token.characters ('<' :: '/' :: letters)) (stepRaw content c)

/-! ## Tags -/

/-- In the name of a tag. -/
def stepTagName (tag : Tag) (c : Char) : State × List Token :=
  if Text.isBlank c then (beforeName tag, [])
  else if c = '/' then (selfClosing tag, [])
  else if c = '>' then closeTag tag false
  else (tagName { tag with name := tag.name ++ [keptInName c] }, [])

/-- Before the name of an attribute. -/
def stepBeforeName (tag : Tag) (c : Char) : State × List Token :=
  if Text.isBlank c then (beforeName tag, [])
  else if c = '/' then (selfClosing tag, [])
  else if c = '>' then closeTag tag false
  else (attributeName tag [keptInName c], [])

/-- In the name of an attribute. -/
def stepAttributeName (tag : Tag) (name : Text) (c : Char) : State × List Token :=
  if Text.isBlank c then (afterName tag name, [])
  else if c = '/' then (selfClosing (tag.withAttribute name []), [])
  else if c = '>' then closeTag (tag.withAttribute name []) false
  else if c = '=' then (beforeValue tag name, [])
  else (attributeName tag (name ++ [keptInName c]), [])

/-- After the name of an attribute and a blank. -/
def stepAfterName (tag : Tag) (name : Text) (c : Char) : State × List Token :=
  if Text.isBlank c then (afterName tag name, [])
  else if c = '/' then (selfClosing (tag.withAttribute name []), [])
  else if c = '>' then closeTag (tag.withAttribute name []) false
  else if c = '=' then (beforeValue tag name, [])
  else (attributeName (tag.withAttribute name []) [keptInName c], [])

/-- In the value of an attribute. -/
def stepValue (tag : Tag) (name : Text) (quote : Quote) (text : Text) (c : Char) :
    State × List Token :=
  if c = '&' then (reference (.value tag name quote text) .start, [])
  else
    match quote with
    | .double =>
      if c = '"' then (afterValue (tag.withAttribute name text), [])
      else (value tag name quote (text ++ [kept c]), [])
    | .single =>
      if c = '\'' then (afterValue (tag.withAttribute name text), [])
      else (value tag name quote (text ++ [kept c]), [])
    | .none =>
      if Text.isBlank c then (beforeName (tag.withAttribute name text), [])
      else if c = '>' then closeTag (tag.withAttribute name text) false
      else (value tag name quote (text ++ [kept c]), [])

/-- After the equals sign of an attribute. -/
def stepBeforeValue (tag : Tag) (name : Text) (c : Char) : State × List Token :=
  if Text.isBlank c then (beforeValue tag name, [])
  else if c = '"' then (value tag name .double [], [])
  else if c = '\'' then (value tag name .single [], [])
  else if c = '>' then closeTag (tag.withAttribute name []) false
  else stepValue tag name .none [] c

/-- After the closing quotation mark of an attribute value. -/
def stepAfterValue (tag : Tag) (c : Char) : State × List Token :=
  stepBeforeName tag c

/-- After a slash inside a tag. -/
def stepSelfClosing (tag : Tag) (c : Char) : State × List Token :=
  if c = '>' then closeTag tag true else stepBeforeName tag c

/-! ## Comments and document types -/

/-- In a comment that ends at the next greater-than sign. -/
def stepBogusComment (text : Text) (c : Char) : State × List Token :=
  if c = '>' then (data, [.comment text]) else (bogusComment (text ++ [kept c]), [])

/-- In a comment, outside anything that may end it. -/
def stepCommentBody (text : Text) (c : Char) : State × List Token :=
  if c = '-' then (comment .dash text, []) else (comment .body (text ++ [kept c]), [])

/-- In a comment. -/
def stepComment (phase : CommentPhase) (text : Text) (c : Char) : State × List Token :=
  match phase with
  | .start =>
    if c = '-' then (comment .startDash text, [])
    else if c = '>' then (data, [.comment text])
    else stepCommentBody text c
  | .startDash =>
    if c = '-' then (comment .dashes text, [])
    else if c = '>' then (data, [.comment text])
    else stepCommentBody (text ++ ['-']) c
  | .body => stepCommentBody text c
  | .dash =>
    if c = '-' then (comment .dashes text, []) else stepCommentBody (text ++ ['-']) c
  | .dashes =>
    if c = '>' then (data, [.comment text])
    else if c = '!' then (comment .bang text, [])
    else if c = '-' then (comment .dashes (text ++ ['-']), [])
    else stepCommentBody (text ++ ['-', '-']) c
  | .bang =>
    if c = '-' then (comment .dash (text ++ ['-', '-', '!']), [])
    else if c = '>' then (data, [.comment text])
    else stepCommentBody (text ++ ['-', '-', '!']) c

/-- The word that opens a document type, in any case of letters. -/
def doctypeWord : Text := ['d', 'o', 'c', 't', 'y', 'p', 'e']

/-- After `<!`. -/
def stepDeclaration (seen : Text) (c : Char) : State × List Token :=
  if seen ++ [c] = ['-'] then (declaration ['-'], [])
  else if seen ++ [c] = ['-', '-'] then (comment .start [], [])
  else if Text.lower (seen ++ [c]) = doctypeWord then (doctype .before [], [])
  else if Text.startsWith (Text.lower (seen ++ [c])) doctypeWord then
    (declaration (seen ++ [c]), [])
  else stepBogusComment seen c

/-- In a document type. -/
def stepDoctype (phase : DoctypePhase) (name : Text) (c : Char) : State × List Token :=
  if c = '>' then (data, [.doctype name])
  else
    match phase with
    | .before =>
      if Text.isBlank c then (doctype .before name, []) else (doctype .name [keptInName c], [])
    | .name =>
      if Text.isBlank c then (doctype .after name, [])
      else (doctype .name (name ++ [keptInName c]), [])
    | .after => (doctype .after name, [])

/-- After a less-than sign. -/
def stepTagOpen (c : Char) : State × List Token :=
  if c = '!' then (declaration [], [])
  else if c = '/' then (endTagOpen, [])
  else if Text.isLetter c then (tagName ⟨false, [Text.lowerChar c], []⟩, [])
  else if c = '?' then (bogusComment ['?'], [])
  else emitting [.character '<'] (stepData c)

/-- After `</`. -/
def stepEndTagOpen (c : Char) : State × List Token :=
  if Text.isLetter c then (tagName ⟨true, [Text.lowerChar c], []⟩, [])
  else if c = '>' then (data, [])
  else stepBogusComment [] c

/-! ## All states -/

/-- The state after a complete reference. -/
def resume (target : ReferenceTarget) (text : Text) : State × List Token :=
  match target with
  | .data => (data, Token.characters text)
  | .raw element => (raw (.plain element), Token.characters text)
  | .value tag name quote before => (value tag name quote (before ++ text), [])

/-- The first character after a reference that ended before it. -/
def stepTarget (target : ReferenceTarget) (text : Text) (c : Char) : State × List Token :=
  match target with
  | .data => emitting (Token.characters text) (stepData c)
  | .raw element => emitting (Token.characters text) (stepRaw (.plain element) c)
  | .value tag name quote before => stepValue tag name quote (before ++ text) c

/-- In a character reference. -/
def stepReference (target : ReferenceTarget) (ref : Reference) (c : Char) : State × List Token :=
  match ref.step target.inAttribute c with
  | .more ref => (reference target ref, [])
  | .done text => resume target text
  | .before text => stepTarget target text c

/-- Reads one character. -/
def step : State → Char → State × List Token
  | data, c => stepData c
  | raw content, c => stepRaw content c
  | rawLess content, c => stepRawLess content c
  | rawEndOpen content, c => stepRawEndOpen content c
  | rawEndName content letters, c => stepRawEndName content letters c
  | reference target ref, c => stepReference target ref c
  | tagOpen, c => stepTagOpen c
  | endTagOpen, c => stepEndTagOpen c
  | tagName tag, c => stepTagName tag c
  | beforeName tag, c => stepBeforeName tag c
  | attributeName tag name, c => stepAttributeName tag name c
  | afterName tag name, c => stepAfterName tag name c
  | beforeValue tag name, c => stepBeforeValue tag name c
  | value tag name quote text, c => stepValue tag name quote text c
  | afterValue tag, c => stepAfterValue tag c
  | selfClosing tag, c => stepSelfClosing tag c
  | declaration seen, c => stepDeclaration seen c
  | comment phase text, c => stepComment phase text c
  | bogusComment text, c => stepBogusComment text c
  | doctype phase name, c => stepDoctype phase name c

/-- The tokens that the end of the input completes. A tag that is cut off is dropped. -/
def finish : State → List Token
  | data => []
  | raw _ => []
  | rawLess _ => [.character '<']
  | rawEndOpen _ => Token.characters ['<', '/']
  | rawEndName _ letters => Token.characters ('<' :: '/' :: letters)
  | reference target ref =>
    if target.inAttribute then [] else Token.characters (ref.finish false)
  | tagOpen => [.character '<']
  | endTagOpen => Token.characters ['<', '/']
  | tagName _ => []
  | beforeName _ => []
  | attributeName .. => []
  | afterName .. => []
  | beforeValue .. => []
  | value .. => []
  | afterValue _ => []
  | selfClosing _ => []
  | declaration seen => [.comment seen]
  | comment _ text => [.comment text]
  | bogusComment text => [.comment text]
  | doctype _ name => [.doctype name]

/-- The state after a text. -/
def after : State → Text → State
  | state, [] => state
  | state, c :: s => after (state.step c).1 s

/-- The tokens that a text completes. -/
def emitted : State → Text → List Token
  | _, [] => []
  | state, c :: s => (state.step c).2 ++ emitted (state.step c).1 s

/-- The tokens of a text that is the rest of the input. -/
def run : State → Text → List Token
  | state, [] => state.finish
  | state, c :: s =>
    let (next, tokens) := state.step c
    tokens ++ run next s

theorem after_append (state : State) (s t : Text) :
    state.after (s ++ t) = (state.after s).after t := by
  induction s generalizing state with
  | nil => rfl
  | cons c s ih => exact ih _

theorem emitted_append (state : State) (s t : Text) :
    state.emitted (s ++ t) = state.emitted s ++ (state.after s).emitted t := by
  induction s generalizing state with
  | nil => rfl
  | cons c s ih => simp only [List.cons_append, emitted, after, ih, List.append_assoc]

/-- Reading a text that is cut in two is reading its first part and then, from the state reached,
its second. -/
theorem run_append (state : State) (s t : Text) :
    state.run (s ++ t) = state.emitted s ++ (state.after s).run t := by
  induction s generalizing state with
  | nil => rfl
  | cons c s ih => simp only [List.cons_append, run, emitted, after, ih, List.append_assoc]

end State

/-- Line ends are line feeds: a carriage return becomes one, together with a line feed after it. -/
def normalizeNewlines : Text → Text
  | '\r' :: '\n' :: s => '\n' :: normalizeNewlines s
  | '\r' :: s => '\n' :: normalizeNewlines s
  | c :: s => c :: normalizeNewlines s
  | [] => []

/-- The tokens of a markup text. -/
def Token.read (markup : Text) : List Token := State.data.run (normalizeNewlines markup)

end HtmlTemplate
