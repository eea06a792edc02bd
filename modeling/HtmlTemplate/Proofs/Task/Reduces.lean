import HtmlTemplate.Proofs.Task.Wake

/-!
# What polls can do to a task

`Reduces` says what can happen to a task, each time with the notes that are made of it: a future is
asked for or settles, a component is rendered, a producer is called, a member of a group goes on. It
knows neither clock nor queue nor whose turn it is. Whatever a poll does, it is a reduction whose
notes come to the journal in the same order, and it draws no marker (`poll_goesOn`). So what
reductions keep, polls keep.
-/

namespace HtmlTemplate

variable {options : Options}

namespace Value

/-- There is nothing to do for the value: it is available as it is. -/
inductive Whole (options : Options) : Mode → Value → Prop
  | null {mode} : Whole options mode null
  | bool {mode b} : Whole options mode (bool b)
  | int {mode n} : Whole options mode (int n)
  | float {mode x} : Whole options mode (float x)
  | str {mode text} : Whole options mode (str text)
  | html {mode markup} : Whole options mode (html markup)
  | handler {mode source} : Whole options mode (handler source)
  | array {mode items} : anyAsync items = false → Whole options mode (array items)
  | object {mode entries} : mode.content = false → Whole options mode (object entries)
  | unmatched {n entries} : options.transform? entries = none →
      Whole options ⟨true, n + 1⟩ (object entries)
  | component {mode name body} : mode.content = false → Whole options mode (component name body)

end Value

namespace Task

/-- A task can become another one, and these notes are made of it. -/
inductive Reduces (options : Options) : Task → List Note → Task → Prop
  | refl {t} : Reduces options t [] t
  | trans {t u w notes notes'} : Reduces options t notes u → Reduces options u notes' w →
      Reduces options t (notes ++ notes') w
  | available {mode v} : v.Whole options mode → Reduces options (fresh mode v) [] (done (.ok v))
  /-- An object that was replaced too often. -/
  | cut {entries} : Reduces options (fresh ⟨true, 0⟩ (.object entries)) [] (done (.ok .null))
  | transformed {n entries transformed} : options.transform? entries = some transformed →
      Reduces options (fresh ⟨true, n + 1⟩ (.object entries)) transformed.notes
        (fresh ⟨true, n⟩ transformed.result)
  | rendered {mode name body} : mode.content = true →
      Reduces options (fresh mode (.component name body)) [.rendered name] (fresh mode body)
  | never {mode} : Reduces options (fresh mode .never) [] forever
  | resolves {mode delay name value timer} :
      Reduces options (fresh mode (.resolves delay name value)) []
        (asleep mode timer name (.ok value))
  | rejects {mode delay name reason timer} :
      Reduces options (fresh mode (.rejects delay name reason)) []
        (asleep mode timer name (.error reason))
  | settled {mode timer name value} :
      Reduces options (asleep mode timer name (.ok value)) [.settled name] (fresh mode value)
  | rejected {mode timer name reason} :
      Reduces options (asleep mode timer name (.error reason)) [.settled name]
        (done (.error reason))
  | placeholder {mode kind value} :
      Reduces options (fresh mode (.placeholder kind value)) [] (convert kind (fresh mode value))
  | called {mode kind name future} :
      Reduces options (fresh mode (.deferred kind name future)) [.called name]
        (convert kind (fresh mode future))
  | inside {kind t u notes} : Reduces options t notes u →
      Reduces options (convert kind t) notes (convert kind u)
  | converted {kind v} :
      Reduces options (convert kind (done (.ok v))) (convertValue kind v).notes
        (done (.ok (convertValue kind v).result))
  | unconverted {kind reason} :
      Reduces options (convert kind (done (.error reason))) [] (done (.error reason))
  | array {mode items} : Value.anyAsync items = true →
      Reduces options (fresh mode (.array items)) []
        (group (items.map (fresh mode)) (Group.readyAtFirst items.length))
  | member {members ready i t u notes} : members[i]? = some t → Reduces options t notes u →
      Reduces options (group members ready) notes (group (members.set i u) ready)
  | queued {members ready ready'} : ready'.isSome = ready.isSome →
      Reduces options (group members ready) [] (group members ready')
  | verdict {g : Group} : Reduces options (group g.members g.ready) [] g.task

/-- A task goes on from one timeline to another, which is told of it and draws no marker. -/
def GoesOn (options : Options) (t : Task) (line : Timeline) (u : Task) (line' : Timeline) : Prop :=
  ∃ notes, Reduces options t notes u ∧ line.Tells notes line' ∧ line'.markers = line.markers

namespace GoesOn

variable {t u w : Task} {line line' line'' : Timeline}

theorem refl (t : Task) (line : Timeline) : GoesOn options t line t line :=
  ⟨[], .refl, .refl line, rfl⟩

theorem trans (h : GoesOn options t line u line') (h' : GoesOn options u line' w line'') :
    GoesOn options t line w line'' := by
  obtain ⟨notes, reduces, tells, same⟩ := h
  obtain ⟨notes', reduces', tells', same'⟩ := h'
  exact ⟨notes ++ notes', reduces.trans reduces', tells.trans tells', same'.trans same⟩

/-- Nothing is told of a reduction without notes. -/
theorem silent (reduces : Reduces options t [] u) (line : Timeline) :
    GoesOn options t line u line :=
  ⟨[], reduces, .refl line, rfl⟩

/-- The notes of a reduction are entered. -/
theorem record {α : Type} {x : Noted α} (reduces : Reduces options t x.notes u) (line : Timeline) :
    GoesOn options t line u (Live.record x line).2 :=
  ⟨x.notes, reduces, .record x line, rfl⟩

theorem inside (h : GoesOn options t line u line') (kind : PlaceholderKind) :
    GoesOn options (convert kind t) line (convert kind u) line' := by
  obtain ⟨notes, reduces, tells, same⟩ := h
  exact ⟨notes, reduces.inside, tells, same⟩

theorem member {members : List Task} {i : Nat} (found : members[i]? = some t)
    (h : GoesOn options t line u line') (ready : Option (List Nat)) :
    GoesOn options (group members ready) line (group (members.set i u) ready) line' := by
  obtain ⟨notes, reduces, tells, same⟩ := h
  exact ⟨notes, .member found reduces, tells, same⟩

end GoesOn

/-! ## Polls -/

/-- Whatever a poll does, it is a reduction. -/
abbrev PollGoesOn (options : Options) (poll : Task → Live (Polled Task)) : Prop :=
  ∀ t line, GoesOn options t line (poll t line).1.state (poll t line).2

section Step

variable {poll : Task → Live (Polled Task)}

theorem goesOn_groupPoll (h : PollGoesOn options poll) (g : Group) (line : Timeline) :
    GoesOn options (group g.members g.ready) line
      (group (g.poll poll line).1.state.members (g.poll poll line).1.state.ready)
      (g.poll poll line).2 := by
  -- Members go on one by one, whichever are polled; the queue changes once, at the end.
  have members := Group.poll_invariant
    (fun members line' =>
      GoesOn options (group g.members g.ready) line (group members g.ready) line')
    (fun goesOn found => goesOn.trans (.member found (h _ _) _)) g (.refl _ line)
  exact members.trans (.silent (.queued (isSome_ready_groupPoll poll g line)) _)

theorem goesOn_stepGroup (h : PollGoesOn options poll) (g : Group) (line : Timeline) :
    GoesOn options (group g.members g.ready) line (stepGroup poll g line).1.state
      (stepGroup poll g line).2 :=
  (goesOn_groupPoll h g line).trans (.silent .verdict _)

theorem goesOn_stepConvert (h : PollGoesOn options poll) (kind : PlaceholderKind) (inner : Task)
    (line : Timeline) :
    GoesOn options (convert kind inner) line (stepConvert poll kind inner line).1.state
      (stepConvert poll kind inner line).2 := by
  have polled := (h inner line).inside kind
  refine polled.trans ?_
  show GoesOn options (convert kind (poll inner line).1.state) (poll inner line).2
    (converted kind (poll inner line).1.state (poll inner line).2).1
    (converted kind (poll inner line).1.state (poll inner line).2).2
  cases (poll inner line).1.state with
  | done result =>
    cases result with
    | ok v => exact .record .converted _
    | error reason => exact .silent .unconverted _
  | _ => exact .refl _ _

/-- What was waited for a timer goes on when it rings. -/
theorem goesOn_ring (h : PollGoesOn options poll) (mode : Mode) (timer : Timer) (name : Option Text)
    (outcome : Except Text Value) (line : Timeline) :
    GoesOn options (asleep mode timer name outcome) line
      (stepFuture poll mode 0 name outcome line).1.state
      (stepFuture poll mode 0 name outcome line).2 := by
  cases outcome with
  | ok value => exact .trans (.record (x := .note (.settled name)) .settled line) (h _ _)
  | error reason => exact .record (x := .note (.settled name)) .rejected line

/-- A future goes on as a timer that is set for it. -/
theorem goesOn_stepFuture (h : PollGoesOn options poll) {t : Task} (mode : Mode) (delay : Nat)
    (name : Option Text) (outcome : Except Text Value) (line : Timeline)
    (asks : ∀ timer, Reduces options t [] (asleep mode timer name outcome)) :
    GoesOn options t line (stepFuture poll mode delay name outcome line).1.state
      (stepFuture poll mode delay name outcome line).2 := by
  cases delay with
  | zero => exact .trans (.silent (asks ⟨line.now, line.timers⟩) line) (goesOn_ring h _ _ _ _ line)
  | succ delay => exact ⟨[], asks _, .silent rfl, rfl⟩

theorem goesOn_stepObject (h : PollGoesOn options poll) (mode : Mode)
    (entries : List (Text × Value)) (line : Timeline) :
    GoesOn options (fresh mode (.object entries)) line
      (stepObject options poll mode entries line).1.state
      (stepObject options poll mode entries line).2 := by
  obtain ⟨content, expansions⟩ := mode
  cases content with
  | false => exact .silent (.available (.object rfl)) line
  | true =>
    cases expansions with
    | zero => exact .silent .cut line
    | succ expansions =>
      simp only [stepObject, if_true]
      cases found : options.transform? entries with
      | none => exact .silent (.available (.unmatched found)) line
      | some transformed => exact .trans (.record (.transformed found) line) (h _ _)

theorem goesOn_stepFresh (h : PollGoesOn options poll) (mode : Mode) (value : Value)
    (line : Timeline) :
    GoesOn options (fresh mode value) line (stepFresh options poll mode value line).1.state
      (stepFresh options poll mode value line).2 := by
  cases value with
  | array items =>
    simp only [stepFresh]
    split
    · rename_i waits
      exact .trans (.silent (.array waits) line) (goesOn_stepGroup h
        ⟨items.map (fresh mode), Group.readyAtFirst items.length⟩ line)
    · rename_i silent
      exact .silent (.available (.array (by simpa using silent))) line
  | object entries => exact goesOn_stepObject h mode entries line
  | component name body =>
    simp only [stepFresh]
    split
    · rename_i content
      exact .trans (.record (x := .note (.rendered name)) (.rendered content) line) (h _ _)
    · rename_i content
      exact .silent (.available (.component (by simpa using content))) line
  | resolves delay name value => exact goesOn_stepFuture h mode delay name _ line fun _ => .resolves
  | rejects delay name reason => exact goesOn_stepFuture h mode delay name _ line fun _ => .rejects
  | never => exact .silent .never line
  | placeholder kind value =>
    exact .trans (.silent .placeholder line) (goesOn_stepConvert h kind _ line)
  | deferred kind name future =>
    exact .trans (.record (x := .note (.called name)) .called line) (goesOn_stepConvert h kind _ _)
  | null => exact .silent (.available .null) line
  | bool b => exact .silent (.available .bool) line
  | int n => exact .silent (.available .int) line
  | float x => exact .silent (.available .float) line
  | str text => exact .silent (.available .str) line
  | html markup => exact .silent (.available .html) line
  | handler source => exact .silent (.available .handler) line

theorem goesOn_step (h : PollGoesOn options poll) : PollGoesOn options (step options poll) := by
  intro t line
  cases t with
  | fresh mode value => exact goesOn_stepFresh h mode value line
  | asleep mode timer name outcome =>
    rw [step_asleep]
    split
    · exact .refl _ line
    · exact goesOn_ring h mode timer name outcome line
  | forever => exact .refl _ line
  | convert kind inner => exact goesOn_stepConvert h kind inner line
  | group members ready => exact goesOn_stepGroup h ⟨members, ready⟩ line
  | done result => exact .refl _ line

theorem pollWithin_goesOn (depth : Nat) : PollGoesOn options (pollWithin options depth) := by
  induction depth with
  | zero => exact fun t line => .refl t line
  | succ depth ih => exact goesOn_step ih

end Step

/-- Whatever a poll does, it is a reduction, of which the timeline is told. -/
theorem poll_goesOn (options : Options) : PollGoesOn options (poll options) :=
  fun t line => pollWithin_goesOn (size options t) t line

/-! ## Timers -/

theorem reduces_members {f : Task → Task} (before : List Task) {members : List Task}
    (each : ∀ t ∈ members, Reduces options t [] (f t)) (ready : Option (List Nat)) :
    Reduces options (group (before ++ members) ready) []
      (group (before ++ members.map f) ready) := by
  induction members generalizing before with
  | nil => exact .refl
  | cons s rest ih =>
    have first : Reduces options (group (before ++ s :: rest) ready) []
        (group ((before ++ s :: rest).set before.length (f s)) ready) :=
      .member (by simp) (each s List.mem_cons_self)
    rw [List.set_append_right _ _ (Nat.le_refl _), Nat.sub_self, List.set_cons_zero] at first
    have others := ih (before ++ [f s]) fun t member => each t (List.mem_cons_of_mem s member)
    rw [List.append_assoc, List.append_assoc] at others
    exact first.trans others

/-- When timers ring, tasks only take their place in a queue. -/
theorem reduces_wake (options : Options) (tick : Nat) (t : Task) :
    Reduces options t [] (wake tick t) := by
  induction t using memberInduction with
  | convert kind inner ih => exact ih.inside
  | group members ready ih =>
    rw [wake, wakeEach_eq_map]
    exact (reduces_members [] ih ready).trans (.queued Option.isSome_map)
  | _ => exact .refl

/-! ## Members, one by one -/

/-- Each of some tasks can become the one in its place. -/
def EachReduces (options : Options) (members others : List Task) : Prop :=
  ∀ (i : Nat) (u : Task), others[i]? = some u →
    ∃ t notes, members[i]? = some t ∧ Reduces options t notes u

theorem EachReduces.set {members others : List Task} (h : EachReduces options members others)
    {i : Nat} {u w : Task} {notes : List Note} (found : others[i]? = some u)
    (reduces : Reduces options u notes w) :
    EachReduces options members (others.set i w) := by
  intro j x left
  rw [List.getElem?_set] at left
  split at left
  · rename_i same
    subst same
    obtain ⟨t, notes', first, before⟩ := h i u found
    split at left
    · cases left
      exact ⟨t, notes' ++ notes, first, before.trans reduces⟩
    · cases left
  · exact h j x left

/-- A poll of a group reduces its members, each in its place, and draws no marker. -/
theorem eachReduces_groupPoll (options : Options) (g : Group) (line : Timeline) :
    EachReduces options g.members (g.poll (poll options) line).1.state.members ∧
      (g.poll (poll options) line).2.markers = line.markers := by
  refine Group.poll_invariant (fun members line' =>
    EachReduces options g.members members ∧ line'.markers = line.markers) ?_ g
    ⟨fun i t found => ⟨t, [], found, .refl⟩, rfl⟩
  intro members line₁ i t holds found
  obtain ⟨notes, reduces, _, same⟩ := poll_goesOn options t line₁
  exact ⟨holds.1.set found reduces, same.trans holds.2⟩

end Task

end HtmlTemplate
