import HtmlTemplate.Cache

/-!
# Sessions

What a host does with skeletons and a template cache, one operation after the other, and what comes
of it. The host holds handles on skeletons, which keep them alive, and weak handles, which do not;
an operation names a handle by its place among those that are held, and does nothing when there is
none. What came of the operations is kept in order as the history of the session.
-/

namespace HtmlTemplate

/-- Something that a host does. -/
inductive Operation where
  | create (segments : List Text)
  /-- Makes one more handle on a skeleton. -/
  | clone (handle : Nat)
  | drop (handle : Nat)
  /-- Makes a weak handle on a skeleton. -/
  | downgrade (handle : Nat)
  /-- Makes a handle from a weak handle, if its skeleton still lives. -/
  | upgrade (weak : Nat)
  /-- Asks for the template of a skeleton; the function compiles it if need be. -/
  | get (handle : Nat) (compile : Cache.Compile)
  | purge

/-- What came of an operation. -/
inductive Happening where
  | created (skeleton : Skeleton)
  | cloned (skeleton copy : Skeleton)
  | dropped (skeleton : Skeleton)
  /-- A weak handle with the number `id` was made. -/
  | downgraded (skeleton : Skeleton) (id : Nat)
  | upgraded (id : Nat) (found : Option Skeleton)
  /-- A template was asked for; `called` tells whether the function was called. -/
  | got (skeleton : Skeleton) (compile : Cache.Compile) (called : Bool)
    (result : Except CompileError StoredTemplate)
  | purged (count : Nat)

/-- Skeletons, a cache and what the host holds. -/
structure Session where
  skeletons : Skeletons
  cache : Cache
  /-- The handles that are held. -/
  handles : List Skeleton
  /-- The numbers of the weak handles that are held. -/
  weak : List Nat

namespace Session

/-- Nothing has happened yet. -/
def start : Session := ⟨.empty, .empty, [], []⟩

/-- Makes a skeleton; its first handle goes to the host. -/
def create (s : Session) (segments : List Text) : Happening × Session :=
  let (skeleton, skeletons) := s.skeletons.create segments
  (.created skeleton, { s with skeletons := skeletons, handles := skeleton :: s.handles })

/-- Makes one more handle on a skeleton. -/
def clone (s : Session) (skeleton : Skeleton) : Happening × Session :=
  (.cloned skeleton skeleton,
    { s with
      skeletons := s.skeletons.retain skeleton.id
      handles := skeleton :: s.handles })

/-- Drops the handle at a place. -/
def drop (s : Session) (handle : Nat) (skeleton : Skeleton) : Happening × Session :=
  (.dropped skeleton,
    { s with
      skeletons := s.skeletons.release skeleton.id
      handles := s.handles.eraseIdx handle })

/-- Makes a weak handle on a skeleton. -/
def downgrade (s : Session) (skeleton : Skeleton) : Happening × Session :=
  (.downgraded skeleton skeleton.id, { s with weak := skeleton.id :: s.weak })

/-- Makes a handle from a weak handle, if its skeleton still lives. -/
def upgrade (s : Session) (id : Nat) : Happening × Session :=
  match s.skeletons.upgrade? id with
  | some (skeleton, skeletons) =>
    (.upgraded id (some skeleton),
      { s with skeletons := skeletons, handles := skeleton :: s.handles })
  | none => (.upgraded id none, s)

/-- Asks for the template of a skeleton. The journal tells first whether a template was found or is
about to be compiled. -/
def get (s : Session) (skeleton : Skeleton) (compile : Cache.Compile) : Happening × Session :=
  let answer := s.cache.getOrCompile skeleton compile
  let called := answer.notes.head? == some (.compileBegins skeleton.slotCount)
  (.got skeleton compile called answer.result.1, { s with cache := answer.result.2 })

/-- Removes what belongs to skeletons that live no more. -/
def purge (s : Session) : Happening × Session :=
  let answer := (s.cache.purge s.skeletons).result
  (.purged answer.1, { s with cache := answer.2 })

/-- Does one operation, unless it names a handle that is not held. -/
def step? (s : Session) : Operation → Option (Happening × Session)
  | .create segments => some (s.create segments)
  | .clone handle => s.handles[handle]?.map s.clone
  | .drop handle => s.handles[handle]?.map (s.drop handle)
  | .downgrade handle => s.handles[handle]?.map s.downgrade
  | .upgrade weak => s.weak[weak]?.map s.upgrade
  | .get handle compile => s.handles[handle]?.map (s.get · compile)
  | .purge => some s.purge

/-- Does operations in order: the history, and the session after them. -/
def run (s : Session) : List Operation → List Happening × Session
  | [] => ([], s)
  | operation :: rest =>
    match s.step? operation with
    | none => s.run rest
    | some (happening, s) =>
      let (history, s) := s.run rest
      (happening :: history, s)

end Session

end HtmlTemplate
