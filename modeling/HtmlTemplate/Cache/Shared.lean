import HtmlTemplate.Cache

/-!
# A cache that several callers share

Calls of `Cache.getOrCompile` that go on at the same time, cut into the steps between which others
may act: the lookup under the read lock, the insertion under the write lock, the look into the cell
of the entry, and the filling of the cell. Entries are shared objects, so a call keeps the entry
that it has found when a purge takes it out of the map. A cell is filled by one call at a time: the
others wait, and when the filling fails the cell is empty again and a waiting call may try.

A call has a handle on its skeleton from its beginning to its end. Everything else that a host does
with handles may happen in between.
-/

namespace HtmlTemplate

/-- The place for a template in an entry. -/
inductive Cell where
  | empty
  /-- The call fills the cell; its compile has the number `serial`. -/
  | busy (call serial : Nat)
  | full (stored : StoredTemplate)

/-- The template in a cell. -/
def Cell.stored? : Cell → Option StoredTemplate
  | .full stored => some stored
  | _ => none

/-- An entry; the number is that of the skeleton to which its weak handle belongs. -/
structure SharedEntry where
  id : Nat
  cell : Cell

/-- How far a call has come. -/
inductive Phase where
  /-- Before the lookup. -/
  | search
  /-- The lookup has found nothing. -/
  | enter
  /-- The entry is at hand; before the look into its cell. -/
  | read (place : Nat)
  /-- There was no template in the cell; before the filling. -/
  | fill (place : Nat)
  /-- The function of the call runs. -/
  | compile (place serial : Nat)
  /-- Before the return. -/
  | leave (result : Except CompileError StoredTemplate)
  | done (result : Except CompileError StoredTemplate)

/-- Whether a call in this phase has its handle. -/
def Phase.inFlight : Phase → Bool
  | .done _ => false
  | _ => true

/-- One call for the template of a skeleton. -/
structure Call where
  skeleton : Skeleton
  compile : Cache.Compile
  phase : Phase

/-- The handle that a call has. -/
def Call.handle? (call : Call) : Option Skeleton :=
  if call.phase.inFlight then some call.skeleton else none

/-- What somebody outside can see of a call. -/
inductive Act where
  /-- The function of the call begins. -/
  | begins (serial : Nat)
  | ends (result : Except CompileError StoredTemplate)
  /-- The call returns. -/
  | returns (result : Except CompileError StoredTemplate)

/-- Something that a call for the skeleton with the number `id` did. -/
structure Turn where
  id : Nat
  call : Nat
  act : Act

/-- What may happen next. Handles and calls are named by their places. -/
inductive Move where
  | create (segments : List Text)
  | clone (handle : Nat)
  | drop (handle : Nat)
  /-- Makes a handle from a weak handle with this number. -/
  | upgrade (id : Nat)
  /-- Somebody begins to ask for a template, with a handle of theirs. -/
  | ask (handle : Nat) (compile : Cache.Compile)
  /-- The next step of a call. -/
  | advance (call : Nat)
  | purge

/-- A cache with the calls that were made. -/
structure SharedCache where
  skeletons : Skeletons
  /-- All entries that were ever made; a place in this list is a reference to an entry. -/
  entries : List SharedEntry
  /-- The places of the entries by the numbers of their skeletons. -/
  map : List (Nat × Nat)
  /-- How many compiles were begun. -/
  compiles : Nat
  calls : List Call
  /-- The handles that no call has. -/
  handles : List Skeleton

namespace SharedCache

/-- Nothing has happened yet. -/
def start : SharedCache := ⟨.empty, [], [], 0, [], []⟩

/-- The cache without the calls. -/
def view (c : SharedCache) : Cache :=
  ⟨c.map.filterMap fun (id, place) => c.entries[place]?.map fun entry =>
    ⟨id, entry.cell.stored?⟩, c.compiles⟩

/-- A call goes on to a phase. -/
def goTo (c : SharedCache) (n : Nat) (call : Call) (phase : Phase) : SharedCache :=
  { c with calls := c.calls.set n { call with phase := phase } }

/-- The cell of an entry changes. -/
def setCell (c : SharedCache) (place : Nat) (entry : SharedEntry) (cell : Cell) : SharedCache :=
  { c with entries := c.entries.set place { entry with cell := cell } }

/-- A new entry with an empty cell. -/
def insert (c : SharedCache) (id : Nat) : SharedCache :=
  { c with entries := c.entries ++ [⟨id, .empty⟩], map := c.map ++ [(id, c.entries.length)] }

/-- A call looks for the entry of its skeleton. -/
def look (c : SharedCache) (n : Nat) (call : Call) (missing : SharedCache) : SharedCache :=
  match c.map.lookup call.skeleton.id with
  | some place => c.goTo n call (.read place)
  | none => missing

/-- A call looks into the cell of its entry. -/
def read (c : SharedCache) (n : Nat) (call : Call) (place : Nat) (entry : SharedEntry) :
    SharedCache :=
  match entry.cell with
  | .full stored => c.goTo n call (.leave (.ok stored))
  | _ => c.goTo n call (.fill place)

/-- A call begins to fill the cell of its entry, unless another call does or has done so. -/
def fill? (c : SharedCache) (n : Nat) (call : Call) (place : Nat) (entry : SharedEntry) :
    Option (List Turn × SharedCache) :=
  match entry.cell with
  | .full stored => some ([], c.goTo n call (.leave (.ok stored)))
  | .busy .. => none
  | .empty =>
    let serial := c.compiles + 1
    some ([⟨call.skeleton.id, n, .begins serial⟩],
      { (c.setCell place entry (.busy n serial)).goTo n call (.compile place serial) with
        compiles := serial })

/-- The function of a call ends. -/
def settle (c : SharedCache) (n : Nat) (call : Call) (place serial : Nat) (entry : SharedEntry) :
    List Turn × SharedCache :=
  match (call.compile call.skeleton).result with
  | .error error =>
    ([⟨call.skeleton.id, n, .ends (.error error)⟩],
      (c.setCell place entry .empty).goTo n call (.leave (.error error)))
  | .ok template =>
    let stored : StoredTemplate := ⟨serial, template⟩
    ([⟨call.skeleton.id, n, .ends (.ok stored)⟩],
      (c.setCell place entry (.full stored)).goTo n call (.leave (.ok stored)))

/-- A call returns and gives its handle back. -/
def leave (c : SharedCache) (n : Nat) (call : Call) (result : Except CompileError StoredTemplate) :
    List Turn × SharedCache :=
  ([⟨call.skeleton.id, n, .returns result⟩],
    { c.goTo n call (.done result) with handles := call.skeleton :: c.handles })

/-- The next step of a call. A call that has returned has none, and one that wants to fill a cell
has none as long as another call fills it. -/
def advance (c : SharedCache) (n : Nat) (call : Call) : Option (List Turn × SharedCache) :=
  match call.phase with
  | .search => some ([], c.look n call (c.goTo n call .enter))
  | .enter => some ([], c.look n call
    ((c.insert call.skeleton.id).goTo n call (.read c.entries.length)))
  | .read place => c.entries[place]?.map fun entry => ([], c.read n call place entry)
  | .fill place => c.entries[place]?.bind (c.fill? n call place)
  | .compile place serial => c.entries[place]?.map (c.settle n call place serial)
  | .leave result => some (c.leave n call result)
  | .done _ => none

/-- Takes the entries of skeletons that live no more out of the map. -/
def purge (c : SharedCache) : SharedCache :=
  { c with
    map := c.map.filter fun (_, place) =>
      c.entries[place]?.any fun entry => c.skeletons.isAlive entry.id }

/-- Does what is next, unless that is impossible. -/
def move? (c : SharedCache) : Move → Option (List Turn × SharedCache)
  | .create segments =>
    let (skeleton, skeletons) := c.skeletons.create segments
    some ([], { c with skeletons := skeletons, handles := skeleton :: c.handles })
  | .clone handle => c.handles[handle]?.map fun skeleton =>
    ([], { c with
      skeletons := c.skeletons.retain skeleton.id
      handles := skeleton :: c.handles })
  | .drop handle => c.handles[handle]?.map fun skeleton =>
    ([], { c with
      skeletons := c.skeletons.release skeleton.id
      handles := c.handles.eraseIdx handle })
  | .upgrade id => (c.skeletons.upgrade? id).map fun (skeleton, skeletons) =>
    ([], { c with skeletons := skeletons, handles := skeleton :: c.handles })
  | .ask handle compile => c.handles[handle]?.map fun skeleton =>
    ([], { c with
      calls := c.calls ++ [⟨skeleton, compile, .search⟩]
      handles := c.handles.eraseIdx handle })
  | .advance n => c.calls[n]?.bind (c.advance n)
  | .purge => some ([], c.purge)

/-- Does things in order, without those that are impossible: what could be seen, and the cache after
them. -/
def run (c : SharedCache) : List Move → List Turn × SharedCache
  | [] => ([], c)
  | move :: rest =>
    match c.move? move with
    | none => c.run rest
    | some (turns, c) =>
      let (log, c) := c.run rest
      (turns ++ log, c)

end SharedCache

end HtmlTemplate
