import HtmlTemplate.Proofs.Cache.Basic
import HtmlTemplate.Proofs.Skeleton
import HtmlTemplate.Session

/-!
# The cache over whole sessions

The books of a session (`Session.account`) are kept from its history alone: which numbers were given
to skeletons, which handles are held, how often a compile function was called, and for which
skeletons a template was made that no purge has removed. `Session.Lawful` says that the skeletons
and the cache agree with the books and that each skeleton is compiled once with success
(`Session.Served`), and `Session.lawful_run` that this holds after every session.

The invariant has two halves, kept by each operation: the handles (`Holding`) and the cache
(`Serving`). What ties them together is that a number whose handles are gone is never held again, so
that a purge only takes what nobody can ask for any more.
-/

namespace HtmlTemplate

namespace Session

/-! ## The books -/

/-- What can be written down about a session from its history. -/
structure Account where
  /-- The numbers given to new skeletons, in order. -/
  given : List Nat
  /-- The numbers of the skeletons on which handles are held, once for each handle. -/
  held : List Nat
  /-- How often a compile function was called. -/
  calls : Nat
  /-- The skeletons with a template that was made and not purged. -/
  kept : List Nat

/-- Writes down what happened. -/
def Account.record (a : Account) : Happening → Account
  | .created skeleton => { a with given := a.given ++ [skeleton.id], held := skeleton.id :: a.held }
  | .cloned _ copy => { a with held := copy.id :: a.held }
  | .dropped skeleton => { a with held := a.held.erase skeleton.id }
  | .downgraded .. => a
  | .upgraded _ (some skeleton) => { a with held := skeleton.id :: a.held }
  | .upgraded _ none => a
  | .got skeleton _ true (.ok _) =>
    { a with calls := a.calls + 1, kept := a.kept ++ [skeleton.id] }
  | .got _ _ true (.error _) => { a with calls := a.calls + 1 }
  | .got _ _ false _ => a
  | .purged _ => { a with kept := a.kept.filter fun id => id ∈ a.held }

/-- The books after a history. -/
def account (history : List Happening) : Account :=
  history.foldl Account.record ⟨[], [], 0, []⟩

/-- The answer to somebody who asked for the template of a skeleton: whether a compile function was
called, and what came of it. -/
def answer? (id : Nat) : Happening → Option (Bool × Except CompileError StoredTemplate)
  | .got skeleton _ called result => if skeleton.id = id then some (called, result) else none
  | _ => none

/-- The template that was made. -/
def made? : Happening → Option StoredTemplate
  | .got _ _ true (.ok stored) => some stored
  | _ => none

/-- The answers to those who asked for the template of a skeleton. -/
def answers (id : Nat) (history : List Happening) :
    List (Bool × Except CompileError StoredTemplate) := history.filterMap (answer? id)

/-- The templates that were made. -/
def made (history : List Happening) : List StoredTemplate := history.filterMap made?

/-- Handles keep the number of their skeleton, and an answer for which a function was called is what
the function gave. -/
def IsFaithful : Happening → Prop
  | .cloned skeleton copy => copy = skeleton
  | .downgraded skeleton id => id = skeleton.id
  | .upgraded id (some skeleton) => skeleton.id = id
  | .got skeleton compile true result =>
    result.map StoredTemplate.template = (compile skeleton).result
  | _ => True

/-- How a skeleton is served: functions are called until one succeeds, and from then on everybody
gets the very template that it made. -/
inductive Served :
    List (Bool × Except CompileError StoredTemplate) → Option StoredTemplate → Prop where
  | nobody : Served [] none
  | failed {before} (error : CompileError) :
    Served before none → Served (before ++ [(true, .error error)]) none
  | compiled {before} (stored : StoredTemplate) :
    Served before none → Served (before ++ [(true, .ok stored)]) (some stored)
  | found {before} {stored : StoredTemplate} :
    Served before (some stored) → Served (before ++ [(false, .ok stored)]) (some stored)

/-- What holds of the skeletons and the cache after a history. -/
structure Lawful (history : List Happening) (s : Session) : Prop where
  /-- No number is given to two skeletons. -/
  unshared : (account history).given.Nodup
  /-- Numbers are no larger than the number of skeletons, so they are words while there are fewer
  skeletons than words. -/
  words : ∀ id ∈ (account history).given, 0 < id ∧ id ≤ (account history).given.length
  faithful : ∀ happening ∈ history, IsFaithful happening
  /-- The host holds the handles that its books say. -/
  held : (s.handles.map Skeleton.id).Perm (account history).held
  /-- A skeleton lives exactly while a handle on it is held. -/
  alive : ∀ id, s.skeletons.isAlive id = true ↔ id ∈ (account history).held
  /-- A weak handle gives a handle on its skeleton exactly while another one is held. -/
  upgrades : ∀ id, (∃ skeleton known, s.skeletons.upgrade? id = some (skeleton, known) ∧
    skeleton.id = id) ↔ id ∈ (account history).held
  /-- Each skeleton is served with one template, which the cache keeps while it lives. -/
  served : ∀ id, ∃ stored?, Served (answers id history) stored? ∧
    (id ∈ (account history).held → s.cache.find? id = stored?)
  /-- Templates that were made by different calls can be told apart. -/
  serials : ((made history).map StoredTemplate.serial).Nodup
  calls : s.cache.compiles = (account history).calls
  kept : (account history).kept.Nodup ∧
    ∀ id, id ∈ (account history).kept ↔ (s.cache.find? id).isSome = true
  size : s.cache.size = (account history).kept.length
  empty : s.cache.isEmpty = true ↔ s.cache.size = 0
  /-- A purge removes exactly the entries of skeletons without a handle, and tells how many. -/
  purge : (s.cache.purge s.skeletons).result.2.entries =
      s.cache.entries.filter (fun entry => entry.id ∈ (account history).held) ∧
    (s.cache.purge s.skeletons).result.1 =
      s.cache.entries.countP fun entry => entry.id ∉ (account history).held

variable {history : List Happening} {happening : Happening} {s s' : Session} {id : Nat}

theorem account_append (history : List Happening) (happening : Happening) :
    account (history ++ [happening]) = (account history).record happening := by
  rw [account, List.foldl_append]
  rfl

theorem answers_append (id : Nat) (history : List Happening) (happening : Happening) :
    answers id (history ++ [happening]) = answers id history ++ (answer? id happening).toList := by
  rw [answers, List.filterMap_append]
  refine congrArg _ ?_
  cases found : answer? id happening with
  | none => rw [List.filterMap_cons_none found, List.filterMap_nil, Option.toList_none]
  | some answer => rw [List.filterMap_cons_some found, List.filterMap_nil, Option.toList_some]

theorem made_append (history : List Happening) (happening : Happening) :
    made (history ++ [happening]) = made history ++ (made? happening).toList := by
  rw [made, List.filterMap_append]
  refine congrArg _ ?_
  cases found : made? happening with
  | none => rw [List.filterMap_cons_none found, List.filterMap_nil, Option.toList_none]
  | some stored => rw [List.filterMap_cons_some found, List.filterMap_nil, Option.toList_some]

/-- Everybody who gets a template gets the one that was made. -/
theorem Served.stored {answers : List (Bool × Except CompileError StoredTemplate)}
    {stored? : Option StoredTemplate} (h : Served answers stored?) {called : Bool}
    {stored : StoredTemplate} (member : (called, .ok stored) ∈ answers) :
    stored? = some stored := by
  induction h with
  | nobody => exact absurd member List.not_mem_nil
  | failed error before ih =>
    rcases List.mem_append.mp member with early | last
    · exact ih early
    · cases List.mem_singleton.mp last
  | compiled made before ih =>
    rcases List.mem_append.mp member with early | last
    · cases ih early
    · cases List.mem_singleton.mp last
      rfl
  | found before ih =>
    rcases List.mem_append.mp member with early | last
    · exact ih early
    · cases List.mem_singleton.mp last
      rfl

/-! ## Handles -/

/-- The handles agree with the books. -/
structure Holding (history : List Happening) (s : Session) : Prop where
  tracks : s.skeletons.Tracks s.handles
  next : s.skeletons.next = (account history).given.length + 1
  given : (account history).given = List.range' 1 (account history).given.length
  held : (s.handles.map Skeleton.id).Perm (account history).held

theorem Holding.mem_held (h : Holding history s) :
    id ∈ (account history).held ↔ id ∈ s.handles.map Skeleton.id :=
  h.held.mem_iff.symm

theorem Holding.alive (h : Holding history s) :
    s.skeletons.isAlive id = true ↔ id ∈ (account history).held := by
  rw [h.mem_held]
  exact h.tracks.isAlive_iff

/-- Numbers are given in order, from one on. -/
theorem Holding.mem_given (h : Holding history s) :
    id ∈ (account history).given ↔ 0 < id ∧ id < s.skeletons.next := by
  rw [h.given, List.mem_range'_1, h.next]
  omega

theorem Holding.next_not_given (h : Holding history s) :
    s.skeletons.next ∉ (account history).given := fun member =>
  absurd (h.mem_given.mp member).2 (Nat.lt_irrefl _)

theorem Holding.given_of_held (h : Holding history s) (held : id ∈ (account history).held) :
    id ∈ (account history).given := by
  obtain ⟨skeleton, member, rfl⟩ := List.mem_map.mp (h.mem_held.mp held)
  exact h.mem_given.mpr (h.tracks.given_held member)

/-- What does not concern handles leaves the books of handles alone. -/
theorem Holding.same (h : Holding history s) (skeletons : s'.skeletons = s.skeletons)
    (handles : s'.handles = s.handles) {calls : Nat} {kept : List Nat}
    (record : (account history).record happening =
      { account history with calls := calls, kept := kept }) :
    Holding (history ++ [happening]) s' := by
  refine ⟨?_, ?_, ?_, ?_⟩
  · rw [skeletons, handles]
    exact h.tracks
  · rw [skeletons, account_append, record]
    exact h.next
  · rw [account_append, record]
    exact h.given
  · rw [handles, account_append, record]
    exact h.held

theorem Holding.create (h : Holding history s) (segments : List Text) :
    Holding (history ++ [(s.create segments).1]) (s.create segments).2 := by
  have length : (account (history ++ [(s.create segments).1])).given.length =
      (account history).given.length + 1 := by
    rw [account_append]
    exact List.length_append
  refine ⟨h.tracks.create segments, ?_, ?_, ?_⟩
  · rw [length, ← h.next]
    rfl
  · rw [length, List.range'_concat, ← h.given, account_append, Nat.one_mul,
      Nat.add_comm 1, ← h.next]
    rfl
  · rw [account_append]
    exact h.held.cons _

/-- One more handle on a skeleton that is held already. -/
theorem Holding.retain (h : Holding history s) {skeleton : Skeleton} (member : skeleton ∈ s.handles)
    (skeletons : s'.skeletons = s.skeletons.retain skeleton.id)
    (handles : s'.handles = skeleton :: s.handles)
    (record : (account history).record happening =
      { account history with held := skeleton.id :: (account history).held }) :
    Holding (history ++ [happening]) s' := by
  refine ⟨?_, ?_, ?_, ?_⟩
  · rw [skeletons, handles]
    exact h.tracks.retain member
  · rw [skeletons, account_append, record]
    exact h.next
  · rw [account_append, record]
    exact h.given
  · rw [handles, account_append, record]
    exact h.held.cons _

theorem Holding.drop (h : Holding history s) {handle : Nat} {skeleton : Skeleton}
    (found : s.handles[handle]? = some skeleton) :
    Holding (history ++ [(s.drop handle skeleton).1]) (s.drop handle skeleton).2 := by
  have apart : s.handles.Perm (skeleton :: s.handles.eraseIdx handle) := by
    obtain ⟨bound, same⟩ := List.getElem?_eq_some_iff.mp found
    exact same ▸ (List.getElem_cons_eraseIdx_perm bound).symm
  refine ⟨(h.tracks.perm apart).release, ?_, ?_, ?_⟩
  · rw [account_append]
    exact h.next
  · rw [account_append]
    exact h.given
  · rw [account_append]
    have both := ((apart.map Skeleton.id).symm.trans h.held).erase skeleton.id
    rw [List.map_cons, List.erase_cons_head] at both
    exact both

/-! ## The cache -/

/-- The cache agrees with the books. -/
structure Serving (history : List Happening) (s : Session) : Prop where
  distinct : s.cache.numbers.Nodup
  /-- Entries belong to numbers that were given. -/
  entered : ∀ id ∈ s.cache.numbers, id ∈ (account history).given
  calls : s.cache.compiles = (account history).calls
  nodup : (account history).kept.Nodup
  kept : ∀ id, id ∈ (account history).kept ↔ (s.cache.find? id).isSome = true
  /-- Only what is held no more can be missing. -/
  served : ∀ id, ∃ stored?, Served (answers id history) stored? ∧
    (s.cache.find? id = stored? ∨
      s.cache.find? id = none ∧ id ∈ (account history).given ∧ id ∉ (account history).held)
  bound : ∀ stored ∈ made history, stored.serial ≤ s.cache.compiles
  serials : ((made history).map StoredTemplate.serial).Nodup

/-- What does not concern the cache keeps it in agreement, as long as what is held no more stays
so. -/
theorem Serving.same (h : Serving history s) (cache : s'.cache = s.cache) {given held : List Nat}
    (record : (account history).record happening =
      { account history with given := given, held := held })
    (older : ∀ id ∈ (account history).given, id ∈ given)
    (gone : ∀ id ∈ (account history).given, id ∉ (account history).held → id ∉ held)
    (silent : ∀ id, answer? id happening = none) (nothing : made? happening = none) :
    Serving (history ++ [happening]) s' := by
  have books := (account_append history happening).trans record
  refine ⟨?_, ?_, ?_, ?_, ?_, fun id => ?_, ?_, ?_⟩
  · rw [cache]
    exact h.distinct
  · rw [cache, books]
    exact fun id member => older id (h.entered id member)
  · rw [cache, books]
    exact h.calls
  · rw [books]
    exact h.nodup
  · rw [cache, books]
    exact h.kept
  · obtain ⟨stored?, served, place⟩ := h.served id
    rw [books, answers_append, silent, Option.toList_none, List.append_nil, cache]
    refine ⟨stored?, served, place.imp_right ?_⟩
    rintro ⟨missing, was, lost⟩
    exact ⟨missing, older id was, gone id was lost⟩
  · rw [made_append, nothing, Option.toList_none, List.append_nil, cache]
    exact h.bound
  · rw [made_append, nothing, Option.toList_none, List.append_nil]
    exact h.serials

/-- The answers for a skeleton after one more of them. -/
theorem answers_got (id : Nat) (history : List Happening) (skeleton : Skeleton)
    (compile : Cache.Compile) (called : Bool) (result : Except CompileError StoredTemplate) :
    answers id (history ++ [.got skeleton compile called result]) =
      if skeleton.id = id then answers id history ++ [(called, result)]
        else answers id history := by
  rw [answers_append, answer?]
  split
  · rfl
  · exact List.append_nil _

/-- A template that is kept is given back. -/
theorem Serving.found (h : Serving history s) {skeleton : Skeleton} {stored : StoredTemplate}
    (found : s.cache.find? skeleton.id = some stored) (compile : Cache.Compile) :
    Serving (history ++ [.got skeleton compile false (.ok stored)]) s := by
  have books : account (history ++ [.got skeleton compile false (.ok stored)]) =
      account history := account_append _ _
  have all : made (history ++ [.got skeleton compile false (.ok stored)]) = made history :=
    (made_append _ _).trans (List.append_nil _)
  refine ⟨h.distinct, ?_, ?_, ?_, ?_, fun id => ?_, ?_, ?_⟩
  · rw [books]
    exact h.entered
  · rw [books]
    exact h.calls
  · rw [books]
    exact h.nodup
  · rw [books]
    exact h.kept
  · obtain ⟨stored?, served, place⟩ := h.served id
    rw [books, answers_got]
    split
    · rename_i asked
      subst asked
      have same : stored? = some stored := by
        rcases place with same | ⟨missing, _⟩
        · rw [← same, found]
        · rw [found] at missing
          cases missing
      exact ⟨some stored, (same ▸ served).found, Or.inl found⟩
    · exact ⟨stored?, served, place⟩
  · rw [all]
    exact h.bound
  · rw [all]
    exact h.serials

/-- Somebody who holds a skeleton finds no template only if all calls before have failed. -/
theorem Serving.unserved (h : Serving history s) (held : id ∈ (account history).held)
    (missing : s.cache.find? id = none) : Served (answers id history) none := by
  obtain ⟨stored?, served, place⟩ := h.served id
  rcases place with same | ⟨_, _, gone⟩
  · rw [missing] at same
    exact same ▸ served
  · exact absurd held gone

/-- A call that fails leaves an entry without a template. -/
theorem Serving.failed (h : Serving history s) {skeleton : Skeleton}
    (given : skeleton.id ∈ (account history).given) (held : skeleton.id ∈ (account history).held)
    (missing : s.cache.find? skeleton.id = none) (compile : Cache.Compile) (error : CompileError) :
    Serving (history ++ [.got skeleton compile true (.error error)])
      { s with cache := (s.cache.afterCompile skeleton.id (.error error)).2 } := by
  have books : account (history ++ [.got skeleton compile true (.error error)]) =
      { account history with calls := (account history).calls + 1 } := account_append _ _
  have all : made (history ++ [.got skeleton compile true (.error error)]) = made history :=
    (made_append _ _).trans (List.append_nil _)
  have stays : ∀ id, (s.cache.afterCompile skeleton.id (.error error)).2.find? id =
      s.cache.find? id := Cache.find?_enter s.cache skeleton.id
  refine ⟨Cache.nodup_enter h.distinct skeleton.id, ?_, ?_, ?_, ?_, fun id => ?_, ?_, ?_⟩
  · rw [books]
    intro id member
    rcases Cache.mem_numbers_enter.mp member with old | rfl
    · exact h.entered id old
    · exact given
  · rw [books]
    exact congrArg Nat.succ h.calls
  · rw [books]
    exact h.nodup
  · rw [books]
    intro id
    rw [stays]
    exact h.kept id
  · rw [books, stays, answers_got]
    split
    · rename_i asked
      subst asked
      exact ⟨none, (h.unserved held missing).failed error, Or.inl missing⟩
    · exact h.served id
  · rw [all]
    exact fun stored member => Nat.le_succ_of_le (h.bound stored member)
  · rw [all]
    exact h.serials

/-- A call that succeeds makes the one template of its skeleton. -/
theorem Serving.compiled (h : Serving history s) {skeleton : Skeleton}
    (given : skeleton.id ∈ (account history).given) (held : skeleton.id ∈ (account history).held)
    (missing : s.cache.find? skeleton.id = none) (compile : Cache.Compile) (template : Template) :
    Serving (history ++ [.got skeleton compile true (.ok ⟨s.cache.compiles + 1, template⟩)])
      { s with cache := (s.cache.afterCompile skeleton.id (.ok template)).2 } := by
  have books :
      account (history ++ [.got skeleton compile true (.ok ⟨s.cache.compiles + 1, template⟩)]) =
      { account history with
        calls := (account history).calls + 1
        kept := (account history).kept ++ [skeleton.id] } := account_append _ _
  have all : made (history ++ [.got skeleton compile true (.ok ⟨s.cache.compiles + 1, template⟩)]) =
      made history ++ [⟨s.cache.compiles + 1, template⟩] := made_append _ _
  have finds : ∀ id, (s.cache.afterCompile skeleton.id (.ok template)).2.find? id =
      if id = skeleton.id then some ⟨s.cache.compiles + 1, template⟩ else s.cache.find? id := by
    intro id
    rw [← Cache.find?_enter s.cache skeleton.id id]
    exact Cache.find?_store _ _ _ _ (Cache.mem_numbers_enter.mpr (Or.inr rfl))
  have numbers : (s.cache.afterCompile skeleton.id (.ok template)).2.numbers =
      (s.cache.enter skeleton.id).numbers := Cache.numbers_store _ _ _
  have new : skeleton.id ∉ (account history).kept := by
    rw [h.kept, missing]
    simp
  refine ⟨?_, ?_, ?_, ?_, fun id => ?_, fun id => ?_, ?_, ?_⟩
  · exact numbers ▸ Cache.nodup_enter h.distinct skeleton.id
  · rw [books]
    intro id member
    rw [numbers] at member
    rcases Cache.mem_numbers_enter.mp member with old | rfl
    · exact h.entered id old
    · exact given
  · rw [books]
    exact congrArg Nat.succ h.calls
  · rw [books]
    refine List.nodup_append.mpr ⟨h.nodup, List.nodup_singleton _, ?_⟩
    rintro number member _ added rfl
    have same : number = skeleton.id := List.mem_singleton.mp added
    exact new (same ▸ member)
  · rw [books, finds, List.mem_append, List.mem_singleton, h.kept]
    split
    · rename_i same
      simp [same]
    · rename_i other
      simp [other]
  · rw [books, finds, answers_got]
    by_cases asked : skeleton.id = id
    · subst asked
      rw [if_pos rfl, if_pos rfl]
      exact ⟨_, (h.unserved held missing).compiled _, Or.inl rfl⟩
    · rw [if_neg asked, if_neg (Ne.symm asked)]
      exact h.served id
  · rw [all]
    intro stored member
    rcases List.mem_append.mp member with old | last
    · exact Nat.le_succ_of_le (h.bound stored old)
    · rw [List.mem_singleton.mp last]
      exact Nat.le_refl _
  · rw [all, List.map_append]
    refine List.nodup_append.mpr ⟨h.serials, List.nodup_singleton _, ?_⟩
    rintro serial member _ added rfl
    obtain ⟨stored, old, same⟩ := List.mem_map.mp member
    have bound := h.bound stored old
    have last : serial = s.cache.compiles + 1 := List.mem_singleton.mp added
    omega

/-- Who asks for the template of a skeleton holds it. -/
theorem Serving.get (h : Serving history s) (holding : Holding history s) {skeleton : Skeleton}
    (member : skeleton ∈ s.handles) (compile : Cache.Compile) :
    Holding (history ++ [(s.get skeleton compile).1]) (s.get skeleton compile).2 ∧
      Serving (history ++ [(s.get skeleton compile).1]) (s.get skeleton compile).2 ∧
        IsFaithful (s.get skeleton compile).1 := by
  have held : skeleton.id ∈ (account history).held :=
    holding.mem_held.mpr (List.mem_map_of_mem member)
  have given : skeleton.id ∈ (account history).given := holding.given_of_held held
  unfold Session.get
  cases kept : s.cache.find? skeleton.id with
  | some stored =>
    rw [Cache.getOrCompile_of_some kept]
    exact ⟨holding.same rfl rfl rfl, h.found kept compile, trivial⟩
  | none =>
    rw [Cache.getOrCompile_of_none kept]
    have called : ((Note.compileBegins skeleton.slotCount :: (compile skeleton).notes).head? ==
        some (.compileBegins skeleton.slotCount)) = true := beq_self_eq_true _
    dsimp only
    rw [called]
    cases compiled : (compile skeleton).result with
    | error error =>
      exact ⟨holding.same rfl rfl rfl, h.failed given held kept compile error, compiled.symm⟩
    | ok template =>
      exact ⟨holding.same rfl rfl rfl, h.compiled given held kept compile template, compiled.symm⟩

/-- A purge takes only what nobody holds. -/
theorem Serving.purge (h : Serving history s) (holding : Holding history s) :
    Serving (history ++ [s.purge.1]) s.purge.2 := by
  have books : account (history ++ [s.purge.1]) =
      { account history with
        kept := (account history).kept.filter fun id => id ∈ (account history).held } :=
    account_append _ _
  have left : s.purge.2.cache =
      { s.cache with entries := s.cache.entries.filter fun entry =>
        s.skeletons.isAlive entry.id } :=
    congrArg Prod.snd (Cache.purge_result s.cache s.skeletons)
  have stays : s.purge.2.cache.numbers.Sublist s.cache.numbers := by
    rw [left]
    exact List.filter_sublist.map _
  have finds : ∀ id, s.purge.2.cache.find? id =
      if s.skeletons.isAlive id then s.cache.find? id else none := by
    intro id
    rw [left]
    exact Cache.find?_filter h.distinct s.skeletons.isAlive id
  refine ⟨h.distinct.sublist stays, ?_, ?_, ?_, fun id => ?_, fun id => ?_, ?_, ?_⟩
  · rw [books]
    exact fun id member => h.entered id (stays.subset member)
  · rw [books, left]
    exact h.calls
  · rw [books]
    exact h.nodup.filter _
  · rw [books, finds, List.mem_filter, h.kept, decide_eq_true_iff, ← holding.alive]
    split
    · rename_i lives
      simp [lives]
    · rename_i dead
      simp [dead]
  · obtain ⟨stored?, served, place⟩ := h.served id
    rw [books, finds, answers_append]
    refine ⟨stored?, (List.append_nil _).symm ▸ served, ?_⟩
    split
    · exact place
    · rename_i dead
      rw [holding.alive] at dead
      rcases place with same | ⟨missing, given, gone⟩
      · cases found : s.cache.find? id with
        | none => exact Or.inl (found.symm.trans same)
        | some stored =>
          exact Or.inr ⟨rfl, h.entered id (Cache.mem_numbers_of_find? found), dead⟩
      · exact Or.inr ⟨rfl, given, gone⟩
  · rw [made_append, left]
    exact (List.append_nil (made history)).symm ▸ h.bound
  · rw [made_append]
    exact (List.append_nil (made history)).symm ▸ h.serials

/-! ## Whole sessions -/

/-- What holds while a session goes on. -/
structure Agrees (history : List Happening) (s : Session) : Prop where
  holding : Holding history s
  serving : Serving history s
  faithful : ∀ happening ∈ history, IsFaithful happening

theorem agrees_start : Agrees [] start :=
  ⟨⟨Skeletons.tracks_empty, rfl, rfl, .refl _⟩,
    ⟨List.nodup_nil, fun _ member => absurd member List.not_mem_nil, rfl, List.nodup_nil,
      fun _ => by simp [account, start, Cache.find?, Cache.empty],
      fun _ => ⟨none, .nobody, Or.inl rfl⟩, fun _ member => absurd member List.not_mem_nil,
      List.nodup_nil⟩,
    fun _ member => absurd member List.not_mem_nil⟩

theorem Agrees.append (h : Agrees history s) (holding : Holding (history ++ [happening]) s')
    (serving : Serving (history ++ [happening]) s') (faithful : IsFaithful happening) :
    Agrees (history ++ [happening]) s' := by
  refine ⟨holding, serving, fun other member => ?_⟩
  rcases List.mem_append.mp member with old | last
  · exact h.faithful other old
  · rw [List.mem_singleton.mp last]
    exact faithful

/-- What changes neither skeletons nor the cache. -/
theorem Agrees.same (h : Agrees history s) (skeletons : s'.skeletons = s.skeletons)
    (handles : s'.handles = s.handles) (cache : s'.cache = s.cache)
    (record : (account history).record happening = account history)
    (silent : ∀ id, answer? id happening = none) (nothing : made? happening = none)
    (faithful : IsFaithful happening) : Agrees (history ++ [happening]) s' :=
  h.append (h.holding.same skeletons handles record)
    (h.serving.same cache record (fun _ member => member) (fun _ _ gone => gone) silent nothing)
    faithful

/-- One more handle on a skeleton that is held already. -/
theorem Agrees.retain (h : Agrees history s) {skeleton : Skeleton} (member : skeleton ∈ s.handles)
    (skeletons : s'.skeletons = s.skeletons.retain skeleton.id)
    (handles : s'.handles = skeleton :: s.handles) (cache : s'.cache = s.cache)
    (record : (account history).record happening =
      { account history with held := skeleton.id :: (account history).held })
    (silent : ∀ id, answer? id happening = none) (nothing : made? happening = none)
    (faithful : IsFaithful happening) : Agrees (history ++ [happening]) s' := by
  refine h.append (h.holding.retain member skeletons handles record)
    (h.serving.same cache record (fun _ given => given) ?_ silent nothing) faithful
  intro id _ gone again
  rcases List.mem_cons.mp again with rfl | old
  · exact gone (h.holding.mem_held.mpr (List.mem_map_of_mem member))
  · exact gone old

/-- One operation keeps everything in agreement. -/
theorem Agrees.step {operation : Operation} (h : Agrees history s)
    (done : s.step? operation = some (happening, s')) : Agrees (history ++ [happening]) s' := by
  -- The handle that an operation names is held.
  have named : ∀ {handle : Nat} {act : Skeleton → Happening × Session},
      s.handles[handle]?.map act = some (happening, s') →
      ∃ skeleton, s.handles[handle]? = some skeleton ∧ skeleton ∈ s.handles ∧
        act skeleton = (happening, s') := by
    intro handle act found
    obtain ⟨skeleton, place, same⟩ := Option.map_eq_some_iff.mp found
    exact ⟨skeleton, place, List.mem_of_getElem? place, same⟩
  cases operation with
  | create segments =>
    cases done
    refine h.append (h.holding.create segments)
      (h.serving.same rfl rfl (fun _ => List.mem_append_left _) ?_ (fun _ => rfl) rfl) trivial
    intro id given gone member
    rcases List.mem_cons.mp member with rfl | old
    · exact h.holding.next_not_given given
    · exact gone old
  | clone handle =>
    obtain ⟨skeleton, _, member, same⟩ := named done
    cases same
    exact h.retain member rfl rfl rfl rfl (fun _ => rfl) rfl rfl
  | drop handle =>
    obtain ⟨skeleton, place, _, same⟩ := named done
    cases same
    refine h.append (h.holding.drop place)
      (h.serving.same rfl rfl (fun _ given => given) ?_ (fun _ => rfl) rfl) trivial
    exact fun id _ gone again => gone (List.mem_of_mem_erase again)
  | downgrade handle =>
    obtain ⟨skeleton, _, _, same⟩ := named done
    cases same
    exact h.same rfl rfl rfl rfl (fun _ => rfl) rfl rfl
  | upgrade weak =>
    obtain ⟨id, _, same⟩ := Option.map_eq_some_iff.mp done
    unfold Session.upgrade at same
    split at same
    · rename_i skeleton known found
      obtain ⟨⟨member, rfl⟩, rfl⟩ := h.holding.tracks.upgrade?_eq_some.mp found
      cases same
      exact h.retain member rfl rfl rfl rfl (fun _ => rfl) rfl rfl
    · cases same
      exact h.same rfl rfl rfl rfl (fun _ => rfl) rfl trivial
  | get handle compile =>
    obtain ⟨skeleton, _, member, same⟩ := named done
    have all := h.serving.get h.holding member compile
    rw [same] at all
    exact h.append all.1 all.2.1 all.2.2
  | purge =>
    cases done
    exact h.append (h.holding.same rfl rfl rfl) (h.serving.purge h.holding) trivial

/-- Whole sessions keep everything in agreement. -/
theorem Agrees.run (h : Agrees history s) (operations : List Operation) :
    Agrees (history ++ (s.run operations).1) (s.run operations).2 := by
  induction operations generalizing history s with
  | nil =>
    rw [Session.run, List.append_nil]
    exact h
  | cons operation rest ih =>
    unfold Session.run
    cases done : s.step? operation with
    | none => exact ih h
    | some next =>
      have later := ih (h.step done)
      rw [List.append_assoc] at later
      exact later

theorem Agrees.lawful (h : Agrees history s) : Lawful history s := by
  have size := Cache.size_eq_length h.serving.distinct h.serving.nodup h.serving.kept
  have alive : ∀ entry : CacheEntry, s.skeletons.isAlive entry.id =
      decide (entry.id ∈ (account history).held) := by
    intro entry
    rw [Bool.eq_iff_iff, h.holding.alive, decide_eq_true_iff]
  refine ⟨?_, fun id given => ?_, h.faithful, h.holding.held, fun _ => h.holding.alive,
    fun id => ?_, fun id => ?_, h.serving.serials, h.serving.calls,
    ⟨h.serving.nodup, h.serving.kept⟩, size, Cache.isEmpty_iff_size_eq_zero _, ?_, ?_⟩
  · rw [h.holding.given]
    exact List.nodup_range'
  · have bounds := h.holding.mem_given.mp given
    rw [h.holding.next] at bounds
    omega
  · rw [h.holding.mem_held, List.mem_map]
    constructor
    · rintro ⟨skeleton, known, found, same⟩
      exact ⟨skeleton, (h.holding.tracks.upgrade?_eq_some.mp found).1.1, same⟩
    · rintro ⟨skeleton, member, same⟩
      exact ⟨skeleton, _, h.holding.tracks.upgrade?_eq_some.mpr ⟨⟨member, same⟩, rfl⟩, same⟩
  · obtain ⟨stored?, served, place⟩ := h.serving.served id
    refine ⟨stored?, served, fun held => ?_⟩
    rcases place with same | ⟨_, _, gone⟩
    · exact same
    · exact absurd held gone
  · rw [Cache.purge_result]
    simp only [alive]
  · rw [Cache.purge_result]
    simp only [alive]
    rw [List.length_eq_countP_add_countP
      (p := fun entry => decide (entry.id ∈ (account history).held)),
      List.countP_eq_length_filter, Nat.add_sub_cancel_left]
    simp

/-- Whatever a host does with skeletons and a cache, one operation after the other: numbers are not
shared, a skeleton lives while a handle on it is held, it is compiled until that succeeds once, its
template is kept as long as it lives, and a purge takes what belongs to no living skeleton. -/
theorem lawful_run (operations : List Operation) :
    Lawful (start.run operations).1 (start.run operations).2 :=
  (agrees_start.run operations).lawful

/-- A failed compile is tried again, the template stays while the skeleton lives, and goes with
it. -/
example (error : CompileError) (template : Template) :
    let fails : Cache.Compile := fun _ => ⟨.error error, []⟩
    let works : Cache.Compile := fun _ => ⟨.ok template, []⟩
    let asked := start.run [.create [], .get 0 fails, .get 0 works, .get 0 fails, .purge]
    answers 1 asked.1 =
        [(true, .error error), (true, .ok ⟨2, template⟩), (false, .ok ⟨2, template⟩)] ∧
      asked.2.cache.size = 1 ∧ (asked.2.run [.drop 0, .purge]).2.cache.size = 0 := by
  refine ⟨?_, ?_, ?_⟩ <;> cbv

end Session

end HtmlTemplate
