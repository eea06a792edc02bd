import HtmlTemplate.Proofs.Render.Beside
import HtmlTemplate.Proofs.Render.Timed

/-!
# Jobs with and without markers

What a host asks for is an `Order`: a slot, some content, a page, or a page that is sent in
fragments. It becomes a `Job`, which is answered at once, or is polled and woken until it is. With
markers a job goes on as it does without, and draws them for content slots of its order and for
nothing else (`Order.start_drawn`, `Job.poll_drawn`).
-/

namespace HtmlTemplate

/-- Something that a host asks for. -/
inductive Order where
  | slot (kind : SlotKind) (value : Value)
  | content (value : Value)
  | render (template : Template) (values : List Value)
  | stream (template : Template) (values : List Value)

/-- How far an order is. -/
inductive Job where
  | answered (result : Except RenderError Text)
  | waiting (page : PendingText)
  /-- A page whose slots have settled, or one of them without a value. -/
  | written (page : PendingText) (result : Except RenderError Text)
  /-- A page that is sent in fragments: those that were given out so far, and the failure, if any,
  that ended it. -/
  | sending (f : Fragments) (sent : List Text) (failure : Option RenderError)

/-- Begins with an order. -/
def Order.start (options : Options) : Order → Live Job
  | slot kind value => do
    let result ← Slot.write options kind value
    pure (.answered result)
  | content value => do
    let text ← Slot.content options value
    pure (.answered (.ok text))
  | render template values => do
    match ← template.render options values with
    | .error error => pure (.answered (.error error))
    | .ok (.ready text) => pure (.answered (.ok text))
    | .ok (.pending page) => pure (.waiting page)
  | stream template values => do
    match ← template.fragments options values with
    | .error error => pure (.answered (.error error))
    | .ok f => pure (.sending f [] none)

/-- The kinds of the slots in an order. -/
def Order.kinds : Order → List SlotKind
  | slot kind _ => [kind]
  | content _ => [.content]
  | render template _ => template.slots
  | stream template _ => template.slots

/-- Whether there is a value for each slot of an order. -/
def Order.checkCount : Order → Except RenderError Unit
  | render template values => template.checkCount values
  | stream template values => template.checkCount values
  | _ => .ok ()

/-- What an order is written as. -/
def Order.spots : Order → List Spot
  | slot kind _ => [.ofKind 0 kind]
  | content _ => [.content 0]
  | render template _ => .plain :: Spot.page 0 template.slots
  | stream template values => .plain :: Spot.stream 0 (template.slots.zip values)

/-- What stands at the spots of an order without markers, if there is nothing to wait for. A page
that is sent has only its fragments. -/
def Order.bodies (options : Options) : Order → List (Except RenderError Text)
  | slot kind value => [(Slot.written options kind value).result]
  | content value => [.ok (Content.write options value).result]
  | render template values => template.bodies options values
  | stream _ _ => []

namespace Job

/-- A page that is sent, after a reply. -/
def told (sent : List Text) (failure : Option RenderError) :
    Fragments × Reply (Option Fragments.Item) → Job
  | (f, .said (some (.ok text))) => sending f (sent ++ [text]) failure
  | (f, .said (some (.error error))) => sending f sent (some error)
  | (f, _) => sending f sent failure

/-- Polls a job. -/
def poll (options : Options) : Job → Live Job
  | answered result => pure (answered result)
  | waiting page => do
    let (page, reply) ← page.poll options
    match reply with
    | .said result => pure (written page result)
    | _ => pure (waiting page)
  | written page result => pure (written page result)
  | sending f sent failure => do
    let replied ← f.poll options
    pure (told sent failure replied)

/-- The job after the timers have rung that are due by a tick. -/
def wake (options : Options) (tick : Nat) : Job → Job
  | answered result => answered result
  | waiting page => waiting ((PendingText.waiting options).wake tick page)
  | written page result => written page result
  | sending f sent failure => sending ((Fragments.waiting options).wake tick f) sent failure

end Job

variable {options : Options} {owners owners' : List Owner} {line line' : Timeline} {job : Nat}

/-! ## One job -/

/-- A poll of a group keeps its members in place. -/
theorem Group.length_poll (poll : Task → Live (Polled Task)) (g : Group) (line : Timeline) :
    (g.poll poll line).1.state.members.length = g.members.length := by
  obtain ⟨members, ready⟩ := g
  cases ready with
  | none => exact length_pollTogether poll Task.isFailed members line
  | some ready => exact Queue.length_pollInTurn ⟨members, ready⟩ line

/-- What a job is with markers, and without. -/
inductive Job.Beside (options : Options) (owners : List Owner)
    (job : Nat) : Order → Job → Job → Prop
  | refused {order error} : order.checkCount = .error error →
      Beside options owners job order (.answered (.error error)) (.answered (.error error))
  | answered {order result result'} :
      MarkedPage owners job order.spots (order.bodies options) result result' →
      Beside options owners job order (.answered result) (.answered result')
  | waiting {template : Template} {given slots} :
      slots.members.length = template.slotCount → (∀ slot, (job, slot) ∉ owners) →
      Beside options owners job (.render template given) (.waiting ⟨template, slots⟩)
        (.waiting ⟨template, slots⟩)
  | written {template : Template} {given slots values result result'} :
      slots.verdict = .settled values →
      MarkedPage owners job (Order.render template given).spots (template.bodies options values)
        result result' →
      Beside options owners job (.render template given) (.written ⟨template, slots⟩ result)
        (.written ⟨template, slots⟩ result')
  | rejected {template : Template} {given slots} (slot : Nat) (reason : Text) :
      slots.verdict = .failed slot reason →
      Beside options owners job (.render template given)
        (.written ⟨template, slots⟩ (.error (.rejected slot reason)))
        (.written ⟨template, slots⟩ (.error (.rejected slot reason)))
  | sending {order steps steps' given ready sent sent'} : Spot.Distinct order.spots →
      Fragments.Beside owners job order.spots steps steps' →
      AllMarked owners job order.spots sent sent' →
      given = sent.length → given ≤ order.spots.length →
      Beside options owners job order (.sending ⟨steps, given, ready, false⟩ sent none)
        (.sending ⟨steps', given, ready, false⟩ sent' none)
  | failed {order sent sent'} (error : RenderError) : AllMarked owners job order.spots sent sent' →
      Beside options owners job order (.sending ⟨[], 0, [], true⟩ sent (some error))
        (.sending ⟨[], 0, [], true⟩ sent' (some error))

namespace Job

variable {order : Order} {j j' : Job}

/-- Markers of other jobs make no difference. -/
theorem Beside.grow (h : Job.Beside options owners job order j j') {other : Nat}
    {slots : Nat → Prop} (grows : Grows other slots owners owners') (ne : job ≠ other) :
    Job.Beside options owners' job order j j' := by
  have still : ∀ {slot}, (job, slot) ∉ owners → (job, slot) ∉ owners' := fun new =>
    grows.not_mem_of_ne new ne
  cases h with
  | refused refusal => exact .refused refusal
  | answered result => exact .answered (result.grow grows.kept)
  | waiting length fresh => exact .waiting length fun slot => still (fresh slot)
  | written settled page => exact .written settled (page.grow grows.kept)
  | rejected slot reason failed => exact .rejected slot reason failed
  | sending distinct steps sent given le =>
    exact .sending distinct (steps.grow grows.kept fun _ _ free slot own => still (free slot own))
      (sent.grow grows.kept) given le
  | failed error sent => exact .failed error (sent.grow grows.kept)

/-- The steps of a page before anything was given out. -/
theorem Beside.ofSteps {steps steps' : List Step} (distinct : Spot.Distinct order.spots)
    (beside : Fragments.Beside owners job order.spots steps steps') :
    Job.Beside options owners job order (.sending (.ofSteps steps) [] none)
      (.sending (.ofSteps steps') [] none) := by
  rw [Fragments.ofSteps, Fragments.ofSteps, beside.length_eq.1, beside.length_eq.2]
  exact .sending distinct beside .nil rfl (Nat.zero_le _)

theorem Beside.wake (h : Job.Beside options owners job order j j') (tick : Nat) :
    Job.Beside options owners job order (j.wake (options.marking true) tick)
      (j'.wake (options.marking false) tick) := by
  cases h with
  | refused refusal => exact .refused refusal
  | answered result => exact .answered result
  | waiting length fresh =>
    refine .waiting ?_ fresh
    rw [Task.wakeEach_eq_map, List.length_map]
    exact length
  | written settled page => exact .written settled page
  | rejected slot reason failed => exact .rejected slot reason failed
  | sending distinct steps sent given le =>
    simp only [Job.wake, Fragments.waiting, steps.map_task]
    exact .sending distinct (steps.wake tick) sent given le
  | failed error sent => exact .failed error sent

/-- A page that waits is written as soon as its slots have settled. -/
theorem poll_waiting_drawn (drawn : Timeline.Drawn owners line line') {template : Template}
    (given : List Value) {slots : Group} (count : slots.members.length = template.slotCount)
    (fresh : ∀ slot, (job, slot) ∉ owners) :
    Draws job (Spot.Has (Order.render template given).spots) owners
      (fun owners' => Job.Beside options owners' job (.render template given))
      (Job.poll (options.marking true) (.waiting ⟨template, slots⟩) line)
      (Job.poll (options.marking false) (.waiting ⟨template, slots⟩) line') := by
  obtain ⟨same, drawn'⟩ := Task.groupPoll_same (Timeline.parallel_drawn owners) options slots drawn
  have length := Group.length_poll (Task.poll options) slots line
  rcases polled : slots.poll (Task.poll options) line with ⟨p, line₁⟩
  rcases polled' : slots.poll (Task.poll options) line' with ⟨p', line₁'⟩
  rw [polled, polled'] at same drawn'
  rw [polled, count] at length
  cases same
  rw [← Task.poll_marking true] at polled
  rw [← Task.poll_marking false] at polled'
  have page : PendingText.poll (options.marking true) ⟨template, slots⟩ line = _ :=
    PendingText.poll_apply polled
  have page' : PendingText.poll (options.marking false) ⟨template, slots⟩ line' = _ :=
    PendingText.poll_apply polled'
  simp only [Job.poll, Live.bind_apply, page, page']
  cases verdict : p.state.verdict with
  | waiting => cases p.again <;> exact .nothing drawn' (.waiting length fresh)
  | failed slot reason => exact .nothing drawn' (.rejected slot reason verdict)
  | settled values =>
    have number : values.length = template.slotCount := by
      rw [Task.members_of_settled verdict, List.length_map] at length
      exact length
    obtain ⟨owners', grows, drawn'', pages⟩ :=
      Template.write_drawn options drawn' template number fresh
    exact ⟨owners', grows, drawn'', .written verdict pages⟩

/-- A page that is sent is told what it gives out. -/
theorem told_give_drawn (drawn : Timeline.Drawn owners line line') {spot : Spot}
    {steps steps' : List Step} {ready : List Nat} {sent sent' : List Text}
    {item item' : Fragments.Item} (distinct : Spot.Distinct order.spots)
    (beside : Fragments.Beside owners job order.spots steps steps')
    (all : AllMarked owners job order.spots sent sent')
    (found : order.spots[sent.length]? = some spot)
    (result : MarkedResult owners job spot item item') :
    Draws job (Spot.Has order.spots) owners (fun owners' => Job.Beside options owners' job order)
      ((told sent none <$> Fragments.give ⟨steps, sent.length, ready, false⟩ item : Live Job) line)
      ((told sent' none <$> Fragments.give ⟨steps', sent.length, ready, false⟩ item' : Live Job)
        line') := by
  cases result with
  | ok marked =>
    have below : sent.length < order.spots.length := (List.getElem?_eq_some_iff.mp found).1
    refine .nothing drawn (.sending distinct beside (all.snoc found marked) ?_ below)
    rw [List.length_append]
    rfl
  | error error =>
    exact .nothing ((Timeline.parallel_drawn owners).record _ drawn) (.failed error all)

/-- A page that is sent gives out what is there, or polls its steps first. -/
theorem poll_sending_drawn (drawn : Timeline.Drawn owners line line') {steps steps' : List Step}
    {ready : List Nat} {sent sent' : List Text} (distinct : Spot.Distinct order.spots)
    (beside : Fragments.Beside owners job order.spots steps steps')
    (all : AllMarked owners job order.spots sent sent') (left : sent.length < order.spots.length) :
    Draws job (Spot.Has order.spots) owners (fun owners' => Job.Beside options owners' job order)
      (Job.poll (options.marking true) (.sending ⟨steps, sent.length, ready, false⟩ sent none) line)
      (Job.poll (options.marking false) (.sending ⟨steps', sent.length, ready, false⟩ sent' none)
        line') := by
  have left₁ : sent.length < steps.length := by rw [beside.length_eq.1]; exact left
  have left₂ : sent.length < steps'.length := by rw [beside.length_eq.2]; exact left
  simp only [Job.poll, Live.bind_apply]
  rcases beside.front? sent.length with ⟨none₁, none₂⟩ | ⟨_, _, _, found, some₁, some₂, result⟩
  · obtain ⟨owners₁, grows, drawn₁, beside₁, same, again⟩ :=
      Fragments.pollInTurn_drawn options distinct sent.length drawn beside ready
    rcases polled₁ : Queue.pollInTurn (Step.poll (options.marking true))
      (fun s => s.result?.isSome) (fun steps => (Fragments.front? sent.length steps).isSome)
      ⟨steps, ready⟩ line with ⟨p, line₁⟩
    rcases polled₂ : Queue.pollInTurn (Step.poll (options.marking false))
      (fun s => s.result?.isSome) (fun steps => (Fragments.front? sent.length steps).isSome)
      ⟨steps', ready⟩ line' with ⟨p', line₂⟩
    rw [polled₁, polled₂] at drawn₁ beside₁ same again
    dsimp only at drawn₁ beside₁ same again
    have all₁ := all.grow grows.kept
    rw [Fragments.poll_of_turns rfl left₁ none₁ polled₁,
      Fragments.poll_of_turns rfl left₂ none₂ polled₂]
    rcases beside₁.front? sent.length with ⟨none₁, none₂⟩ | ⟨_, _, _, found, some₁, some₂, result⟩
    · simp only [none₁, none₂, same, again]
      refine ⟨owners₁, grows, drawn₁, ?_⟩
      cases p.again <;> exact .sending distinct beside₁ all₁ rfl (Nat.le_of_lt left)
    · simp only [some₁, some₂, same]
      obtain ⟨owners₂, grows', drawn₂, told⟩ :=
        told_give_drawn drawn₁ distinct beside₁ all₁ found result
      exact ⟨owners₂, grows.trans grows', drawn₂, told⟩
  · rw [Fragments.poll_of_front rfl left₁ some₁, Fragments.poll_of_front rfl left₂ some₂]
    exact told_give_drawn drawn distinct beside all found result

/-- A job goes on with markers as it does without. -/
theorem poll_drawn (drawn : Timeline.Drawn owners line line')
    (h : Job.Beside options owners job order j j') :
    Draws job (Spot.Has order.spots) owners (fun owners' => Job.Beside options owners' job order)
      (Job.poll (options.marking true) j line) (Job.poll (options.marking false) j' line') := by
  cases h with
  | refused refusal => exact .nothing drawn (.refused refusal)
  | answered result => exact .nothing drawn (.answered result)
  | waiting count fresh => exact poll_waiting_drawn drawn _ count fresh
  | written settled page => exact .nothing drawn (.written settled page)
  | rejected slot reason failed => exact .nothing drawn (.rejected slot reason failed)
  | failed error all =>
    simp only [Job.poll, Live.bind_apply]
    rw [Fragments.poll_of_ended (.inl rfl), Fragments.poll_of_ended (.inl rfl)]
    exact .nothing drawn (.failed error all)
  | sending distinct beside all given le =>
    subst given
    rcases Nat.eq_or_lt_of_le le with ended | left
    · simp only [Job.poll, Live.bind_apply]
      rw [Fragments.poll_of_ended (.inr (beside.length_eq.1.trans ended.symm).le),
        Fragments.poll_of_ended (.inr (beside.length_eq.2.trans ended.symm).le)]
      exact .nothing drawn (.sending distinct beside all rfl le)
    · exact poll_sending_drawn drawn distinct beside all left

end Job

/-! ## The beginning of a job -/

/-- A slot by itself is a page of one spot. -/
theorem MarkedResult.page {spot : Spot} {result result' : Except RenderError Text}
    (h : MarkedResult owners job spot result result') :
    MarkedPage owners job [spot] [result'] result result' := by
  cases h with
  | @ok text text' marked =>
    have page : MarkedPage owners job [spot] [.ok text'] _ _ := .ok (.cons marked .nil) rfl rfl
    simpa using page
  | error error => exact .error [] rfl

namespace Order

variable {template : Template} {values : List Value}

/-- Without values to wait for, a page is answered at once. -/
theorem start_of_instant (options : Options) (count : values.length = template.slotCount)
    (instant : Value.anyAsync values = false) (line : Timeline) :
    (Order.render template values).start options line =
      (.answered (template.write options values line).1,
        (template.write options values line).2) := by
  simp only [start, Live.bind_apply, Template.render_of_instant options count instant]
  cases (template.write options values line).1 <;> rfl

theorem start_render_drawn (drawn : Timeline.Drawn owners line line')
    (fresh : ∀ slot, (job, slot) ∉ owners) (template : Template) (values : List Value) :
    Draws job (Spot.Has (Order.render template values).spots) owners
      (fun owners' => Job.Beside options owners' job (.render template values))
      ((Order.render template values).start (options.marking true) line)
      ((Order.render template values).start (options.marking false) line') := by
  by_cases count : values.length = template.slotCount
  · cases waits : Value.anyAsync values with
    | true =>
      simp only [start, Live.bind_apply, Template.render_of_waits _ count waits]
      have members : (template.freshSlots options values).members.length = template.slotCount := by
        simp only [Template.freshSlots, List.length_map, List.length_zip, count]
        exact Nat.min_self _
      exact .nothing ((Timeline.parallel_drawn owners).record _ drawn) (.waiting members fresh)
    | false =>
      obtain ⟨owners', grows, drawn', pages⟩ :=
        Template.write_drawn options drawn template count fresh
      rw [start_of_instant _ count waits, start_of_instant _ count waits]
      exact ⟨owners', grows, drawn', .answered pages⟩
  · have check : template.checkCount values = .error _ := if_neg count
    simp only [start, Live.bind_apply, Template.render_of_miscounted _ check]
    exact .nothing drawn (.refused check)

theorem start_stream_drawn (drawn : Timeline.Drawn owners line line')
    (fresh : ∀ slot, (job, slot) ∉ owners) (template : Template) (values : List Value) :
    Draws job (Spot.Has (Order.stream template values).spots) owners
      (fun owners' => Job.Beside options owners' job (.stream template values))
      ((Order.stream template values).start (options.marking true) line)
      ((Order.stream template values).start (options.marking false) line') := by
  by_cases count : values.length = template.slotCount
  · obtain ⟨owners', grows, drawn', steps⟩ := Fragments.stepsFrom_drawn options drawn
      (template.slots.zip (values.zip (template.chunks.drop 1))) fun slot _ => fresh slot
    rw [Template.zip_values count] at grows steps
    have first : Fragments.Beside owners' job [.plain] [Step.literal (template.chunks.headD [])]
        [.literal (template.chunks.headD [])] := .one (.literal .plain)
    have distinct : Spot.Distinct (Order.stream template values).spots :=
      .cons (fun _ _ _ same => by cases same) (Spot.distinct_stream 0 _)
    simp only [start, Live.bind_apply, Template.fragments_apply _ count]
    refine ⟨owners', grows.mono fun _ => Spot.has_plain_cons.mpr, drawn', ?_⟩
    exact .ofSteps distinct (first.append steps)
  · have check : template.checkCount values = .error _ := if_neg count
    simp only [start, Live.bind_apply, Template.fragments_of_miscounted _ check]
    exact .nothing drawn (.refused check)

/-- An order begins with markers as it does without. -/
theorem start_drawn (drawn : Timeline.Drawn owners line line')
    (fresh : ∀ slot, (job, slot) ∉ owners) (order : Order) :
    Draws job (Spot.Has order.spots) owners (fun owners' => Job.Beside options owners' job order)
      (order.start (options.marking true) line) (order.start (options.marking false) line') := by
  have one : ∀ spot : Spot, ∀ slot, spot.IsOf slot → Spot.Has [spot] slot := fun spot slot own =>
    ⟨spot, List.mem_singleton_self spot, own⟩
  cases order with
  | slot kind value =>
    have body := Slot.write_unmarked options kind value line'
    obtain ⟨owners', grows, drawn', result⟩ :=
      Slot.write_drawn options drawn kind (fun slot _ => fresh slot) value
    refine ⟨owners', grows.mono (one _), drawn', .answered ?_⟩
    rw [bodies, ← body]
    exact result.page
  | content value =>
    have body := Slot.write_unmarked options .content value line'
    obtain ⟨owners', grows, drawn', marked⟩ := Slot.content_drawn options drawn (fresh 0) value
    refine ⟨owners', grows.mono (one _), drawn', .answered ?_⟩
    rw [bodies, ← show _ = Except.ok (Content.write options value).result from body]
    exact (MarkedResult.ok marked).page
  | render template values => exact start_render_drawn drawn fresh template values
  | stream template values => exact start_stream_drawn drawn fresh template values

end Order

/-! ## What can be seen of a job -/

/-- Only content slots of an order have markers. -/
theorem Order.content_of_has {order : Order} {slot : Nat} (h : Spot.Has order.spots slot) :
    order.kinds[slot]? = some .content := by
  cases order with
  | slot kind value =>
    rcases Spot.has_ofKind_cons h with ⟨rfl, rfl⟩ | ⟨_, member, _⟩
    · rfl
    · cases member
  | content value =>
    have own : Spot.Has [Spot.ofKind 0 .content] slot := h
    rcases Spot.has_ofKind_cons own with ⟨rfl, _⟩ | ⟨_, member, _⟩
    · rfl
    · cases member
  | render template values =>
    obtain ⟨i, rfl, found⟩ := Spot.content_of_has_page (Spot.has_plain_cons.mp h)
    rwa [Nat.zero_add]
  | stream template values =>
    obtain ⟨i, rfl, found⟩ := Spot.content_of_has_stream (Spot.has_plain_cons.mp h)
    rw [List.getElem?_map] at found
    obtain ⟨⟨kind, value⟩, both, rfl⟩ := Option.map_eq_some_iff.mp found
    rw [Nat.zero_add]
    exact (List.getElem?_zip_eq_some.mp both).1

/-- What a job shows with markers, and without. -/
inductive Job.Shows (options : Options) (owners : List Owner) (job : Nat) : Order → Job → Job → Prop
  | refused {order error} : order.checkCount = .error error →
      Shows options owners job order (.answered (.error error)) (.answered (.error error))
  | answered {order result result'} :
      MarkedPage owners job order.spots (order.bodies options) result result' →
      Shows options owners job order (.answered result) (.answered result')
  | waiting {template : Template} {given slots} :
      Shows options owners job (.render template given) (.waiting ⟨template, slots⟩)
        (.waiting ⟨template, slots⟩)
  /-- The bodies of the slots are those of the values with which they settled. -/
  | written {template : Template} {given slots values result result'} :
      slots.verdict = .settled values →
      MarkedPage owners job (Order.render template given).spots (template.bodies options values)
        result result' →
      Shows options owners job (.render template given) (.written ⟨template, slots⟩ result)
        (.written ⟨template, slots⟩ result')
  | rejected {template : Template} {given slots} (slot : Nat) (reason : Text) :
      slots.verdict = .failed slot reason →
      Shows options owners job (.render template given)
        (.written ⟨template, slots⟩ (.error (.rejected slot reason)))
        (.written ⟨template, slots⟩ (.error (.rejected slot reason)))
  /-- What was sent stands at the first spots, and what remains to be sent, at the others. -/
  | sending {order f f' sent sent'} : AllMarked owners job order.spots sent sent' →
      sent.length + f.remaining = order.spots.length → f'.remaining = f.remaining →
      Shows options owners job order (.sending f sent none) (.sending f' sent' none)
  | failed {order f f' sent sent'} (error : RenderError) :
      AllMarked owners job order.spots sent sent' → f.remaining = 0 → f'.remaining = 0 →
      Shows options owners job order (.sending f sent (some error)) (.sending f' sent' (some error))

theorem Job.Beside.shows {order : Order} {j j' : Job}
    (h : Job.Beside options owners job order j j') : Job.Shows options owners job order j j' := by
  cases h with
  | refused refusal => exact .refused refusal
  | answered result => exact .answered result
  | waiting => exact .waiting
  | written settled page => exact .written settled page
  | rejected slot reason failed => exact .rejected slot reason failed
  | failed error all => exact .failed error all rfl rfl
  | @sending order steps steps' given ready sent sent' distinct beside all same le =>
    obtain ⟨length, length'⟩ := beside.length_eq
    have left : Fragments.remaining ⟨steps, given, ready, false⟩ = order.spots.length - given :=
      congrArg (· - given) length
    have left' : Fragments.remaining ⟨steps', given, ready, false⟩ = order.spots.length - given :=
      congrArg (· - given) length'
    refine .sending all ?_ (left'.trans left.symm)
    rw [left, ← same]
    exact Nat.add_sub_cancel' le

end HtmlTemplate
