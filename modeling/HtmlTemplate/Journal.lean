import HtmlTemplate.Template.Error
import HtmlTemplate.Template.Kind

/-!
# The journal

Compiling and rendering tell their host what they do: which values were asked to produce something,
and which decisions were taken on the way. Each such `Note` is an effect of the library in the
sense that a host can see it, its order and how often it comes. `Noted` is a result together with
the notes made on the way to it; notes of a sequence are the notes of its parts in order.
-/

namespace HtmlTemplate

/-- Something that a host is told. -/
inductive Note where
  /-- A component rendered itself. -/
  | rendered (name : Option Text)
  /-- The producer of a deferred value was called. -/
  | called (name : Option Text)
  /-- A future settled, with a value or a rejection. -/
  | settled (name : Option Text)
  /-- A content transformer was applied. -/
  | transformed (key : Text)
  /-- An attribute transformation was applied. -/
  | intended (name : Text)
  /-- A render through the engine begins. -/
  | renderBegins
  /-- The slots of a skeleton are about to be classified. -/
  | classifyBegins
  | classified (slot : Nat) (kind : SlotKind)
  /-- A minifier failed and the text was kept. -/
  | minifierFailed (language : Text) (reason : Text)
  | compiled (slots chunks : Nat)
  /-- A skeleton without a stored template is about to be compiled. -/
  | compileBegins (slots : Nat)
  /-- A stored template was found. -/
  | cacheHit
  | purged (count : Nat)
  /-- A render has to wait for some of its values. -/
  | renderWaits (slots : Nat)
  /-- The elements of an array are streamed one by one. -/
  | arrayStreams (slot leaves : Nat)
  /-- No content transformer takes an object with these keys. -/
  | unmatched (keys : List Text)
  /-- A value that is not available yet was met where none can be waited for. -/
  | unresolved (shape : Text)
  | streamAborted (error : RenderError)
  deriving Repr, DecidableEq

/-- A result and the notes made on the way to it. -/
structure Noted (α : Type) where
  result : α
  notes : List Note

namespace Noted

variable {α β : Type}

/-- A result without notes. -/
def silent (a : α) : Noted α := ⟨a, []⟩

/-- A note without a result. -/
def note (n : Note) : Noted Unit := ⟨(), [n]⟩

/-- Applies a function to the result. -/
def map (f : α → β) (x : Noted α) : Noted β := ⟨f x.result, x.notes⟩

/-- Goes on with the result. -/
def bind (x : Noted α) (f : α → Noted β) : Noted β :=
  let y := f x.result
  ⟨y.result, x.notes ++ y.notes⟩

instance : Monad Noted where
  pure := silent
  bind := bind

@[simp] theorem pure_result (a : α) : (pure a : Noted α).result = a := rfl

@[simp] theorem pure_notes (a : α) : (pure a : Noted α).notes = [] := rfl

@[simp] theorem bind_result (x : Noted α) (f : α → Noted β) :
    (x >>= f).result = (f x.result).result := rfl

@[simp] theorem bind_notes (x : Noted α) (f : α → Noted β) :
    (x >>= f).notes = x.notes ++ (f x.result).notes := rfl

end Noted

end HtmlTemplate
