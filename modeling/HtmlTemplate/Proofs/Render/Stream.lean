import HtmlTemplate.Proofs.Render.Run

/-!
# What a reader of a page gets

A page that is sent in fragments is planned before anything is asked for: a step for each chunk and
for what stands in each slot. `Template.results` is what these steps come to, each by itself: a
value that arrives comes to what it resolves to, written (`Template.results_of_arrives`). A reader
gets the results in that order, whatever settles first, and learns of the first failure when
everything before it has been given out (`Template.fragments_in_order`).
-/

namespace HtmlTemplate

variable {options : Options}

namespace Fragments

/-- The answer to the request after `n` others, when the steps come to `results`. -/
def told : List (Option Item) → Nat → Option (Option Item)
  | [], _ => some none
  | none :: _, _ => none
  | some (.ok text) :: _, 0 => some (some (.ok text))
  | some (.ok _) :: rest, n + 1 => told rest n
  | some (.error error) :: _, 0 => some (some (.error error))
  | some (.error _) :: _, _ + 1 => some none

/-- The fragments that are sent, and how that ends, when the steps come to `results`. -/
def sent : List (Option Item) → List Text × StreamEnd
  | [] => ([], .complete)
  | none :: _ => ([], .stalled)
  | some (.ok text) :: rest => (text :: (sent rest).1, (sent rest).2)
  | some (.error error) :: _ => ([], .failed error)

/-- The stream after some requests. -/
def asked (options : Options) : Nat → Fragments → Live Fragments
  | 0, f => pure f
  | n + 1, f => do
    let (f, _) ← f.next options
    asked options n f

variable {results : List (Option Item)} {line : Timeline} {f : Fragments}

/-- The steps of a stream are on their way to `results`. -/
abbrev Comes (plain : options.adoptable = false) (results : List (Option Item)) (line : Timeline)
    (f : Fragments) : Prop :=
  OnTheWay (Course.ofResults plain results) results.length line f

theorem asked_succ (n : Nat) (f : Fragments) (line : Timeline) :
    asked options (n + 1) f line =
      asked options n (f.next options line).1.1 (f.next options line).2 := rfl

theorem asked_of_ended (h : f.failed = true ∨ f.steps.length ≤ f.given) (n : Nat)
    (line : Timeline) : asked options n f line = (f, line) := by
  induction n with
  | zero => rfl
  | succ n ih => rw [asked_succ, next_of_ended h, ih]

theorem asked_of_stuck (h : Stuck f) (n : Nat) (line : Timeline) :
    (asked options n f line).1 = f := by
  induction n generalizing line with
  | zero => rfl
  | succ n ih => rw [asked_succ, next_of_stuck h, ih]

theorem drop_of_getElem? {α : Type} {l : List α} {n : Nat} {a : α} (h : l[n]? = some a) :
    l.drop n = a :: l.drop (n + 1) := by
  obtain ⟨bound, rfl⟩ := List.getElem?_eq_some_iff.mp h
  exact List.drop_eq_getElem_cons bound

/-- Every request is answered as the results have it, and after the end nothing happens any more. -/
theorem next_asked (plain : options.adoptable = false) (n : Nat) (h : Comes plain results line f) :
    ((asked options n f line).1.next options (asked options n f line).2).1.2 =
        told (results.drop f.given) n ∧
      (told (results.drop f.given) n = some none →
        (asked options n f line).1.next options (asked options n f line).2 =
          (((asked options n f line).1, some none), (asked options n f line).2)) := by
  induction n generalizing f line with
  | zero =>
    obtain ⟨f', o, line', _, answered, result⟩ := next_of_onTheWay h
    rw [asked, Live.pure_apply, result]
    cases answered with
    | ended passed =>
      rw [List.drop_eq_nil_of_le (h.length ▸ passed)]
      exact ⟨rfl, fun _ => rfl⟩
    | gives inside rest =>
      rw [drop_of_getElem? (Course.result_of_finished inside rest)]
      exact ⟨rfl, fun none => by cases none⟩
    | fails inside rest =>
      rw [drop_of_getElem? (Course.result_of_finished inside rest)]
      exact ⟨rfl, fun none => by cases none⟩
    | stalls inside rest waits never =>
      rw [drop_of_getElem? (Course.result_of_stuck inside rest waits never)]
      exact ⟨rfl, fun none => by cases none⟩
  | succ n ih =>
    obtain ⟨f', o, line', _, answered, result⟩ := next_of_onTheWay h
    rw [asked_succ, result]
    cases answered with
    | ended passed =>
      have ended : ∀ line, asked options n f line = (f, line) := asked_of_ended (.inr passed) n
      rw [List.drop_eq_nil_of_le (h.length ▸ passed), ended, next_of_ended (.inr passed)]
      exact ⟨rfl, fun _ => rfl⟩
    | gives inside rest onTheWay next =>
      rw [drop_of_getElem? (Course.result_of_finished inside rest), ← next]
      exact ih onTheWay
    | fails inside rest =>
      have ended : ∀ line, asked options n ⟨[], 0, [], true⟩ line = (⟨[], 0, [], true⟩, line) :=
        asked_of_ended (.inl rfl) n
      rw [drop_of_getElem? (Course.result_of_finished inside rest), ended, next_of_ended (.inl rfl)]
      exact ⟨rfl, fun _ => rfl⟩
    | stalls inside rest waits never stuck =>
      rw [drop_of_getElem? (Course.result_of_stuck inside rest waits never), asked_of_stuck stuck,
        next_of_stuck stuck]
      exact ⟨rfl, fun none => by cases none⟩

/-- A page that is sent to its end, or as far as it comes. -/
theorem drainWithin_eq (plain : options.adoptable = false) (count : Nat)
    (h : Comes plain results line f) (enough : results.length < count + f.given) :
    ((drainWithin options count f line).1.1.map Prod.snd, (drainWithin options count f line).1.2) =
      sent (results.drop f.given) := by
  induction count generalizing f line with
  | zero =>
    rw [List.drop_eq_nil_of_le (by omega)]
    rfl
  | succ count ih =>
    obtain ⟨f', o, line', _, answered, result⟩ := next_of_onTheWay h
    simp only [drainWithin, Live.bind_apply, result]
    cases answered with
    | ended passed =>
      rw [List.drop_eq_nil_of_le (h.length ▸ passed)]
      rfl
    | gives inside rest onTheWay next =>
      have others := ih onTheWay (by omega)
      rw [drop_of_getElem? (Course.result_of_finished inside rest), sent, ← next, ← others]
      rfl
    | fails inside rest =>
      rw [drop_of_getElem? (Course.result_of_finished inside rest)]
      rfl
    | stalls inside rest waits never =>
      rw [drop_of_getElem? (Course.result_of_stuck inside rest waits never)]
      rfl

theorem drain_eq (plain : options.adoptable = false) (h : Comes plain results line f) :
    ((drain options f line).1.1.map Prod.snd, (drain options f line).1.2) =
      sent (results.drop f.given) := by
  refine drainWithin_eq plain _ h ?_
  rw [remaining, h.going, h.length]
  simp only [Bool.false_eq_true, if_false]
  omega

/-! ## The plan of a page -/

/-- The steps of one slot. Those of an array stand between the places of the markers that are not
wanted. -/
def slotPlan (options : Options) (slot : Nat) (kind : SlotKind) (value : Value) : List Step :=
  match kind, value with
  | .content, .array items =>
    Step.literal [] :: ((Value.leaves items).map fun leaf =>
      Step.resolving slot .element (.fresh (Template.slotMode options .content) leaf)) ++
        [Step.literal []]
  | kind, value =>
    [Step.resolving slot (.slot kind) (.fresh (Template.slotMode options kind) value)]

/-- The steps of slots from a number on, each with its value and the chunk after it. -/
def planFrom (options : Options) (slot : Nat) : List (SlotKind × Value × Text) → List Step
  | [] => []
  | (kind, value, chunk) :: rest =>
    slotPlan options slot kind value ++ Step.literal chunk :: planFrom options (slot + 1) rest

theorem slotSteps_eq (plain : options.adoptable = false) (slot : Nat) (kind : SlotKind)
    (value : Value) (line : Timeline) :
    ∃ line', slotSteps options slot kind value line = (slotPlan options slot kind value, line') ∧
      line.Later line' := by
  have alone : ∀ kind, ∃ line', (pure [Step.resolving slot (.slot kind)
      (.fresh (Template.slotMode options kind) value)] : Live (List Step)) line =
        ([Step.resolving slot (.slot kind) (.fresh (Template.slotMode options kind) value)],
          line') ∧
      line.Later line' := fun kind => ⟨line, rfl, .refl line⟩
  cases kind with
  | content =>
    cases value with
    | array items =>
      refine ⟨(Live.note (.arrayStreams slot (Value.leaves items).length) line).2, ?_,
        Live.later_note _ line⟩
      simp only [slotSteps, arraySteps, Live.bind_apply, Slot.marker_of_not_adoptable plain]
      rfl
    | _ => exact alone .content
  | _ => exact alone _

theorem stepsFrom_eq (plain : options.adoptable = false) (slot : Nat)
    (slots : List (SlotKind × Value × Text)) (line : Timeline) :
    ∃ line', stepsFrom options slot slots line = (planFrom options slot slots, line') ∧
      line.Later line' := by
  induction slots generalizing slot line with
  | nil => exact ⟨line, rfl, .refl line⟩
  | cons first rest ih =>
    obtain ⟨kind, value, chunk⟩ := first
    obtain ⟨line₁, steps, later⟩ := slotSteps_eq plain slot kind value line
    obtain ⟨line₂, others, later'⟩ := ih (slot + 1) line₁
    refine ⟨line₂, ?_, later.trans later'⟩
    simp only [stepsFrom, Live.bind_apply, steps, others]
    rfl

theorem unasked_slotPlan (slot : Nat) (kind : SlotKind) (value : Value) :
    ∀ s ∈ slotPlan options slot kind value, s.Unasked := by
  intro s member
  unfold slotPlan at member
  split at member
  · rcases List.mem_append.mp member with member | last
    · rcases List.mem_cons.mp member with rfl | member
      · exact .literal
      · obtain ⟨leaf, _, rfl⟩ := List.mem_map.mp member
        exact .resolving
    · rw [List.mem_singleton.mp last]
      exact .literal
  · rw [List.mem_singleton.mp member]
    exact .resolving

theorem unasked_planFrom (slot : Nat) (slots : List (SlotKind × Value × Text)) :
    ∀ s ∈ planFrom options slot slots, s.Unasked := by
  induction slots generalizing slot with
  | nil => simp [planFrom]
  | cons first rest ih =>
    obtain ⟨kind, value, chunk⟩ := first
    intro s member
    rcases List.mem_append.mp member with member | member
    · exact unasked_slotPlan slot kind value s member
    · rcases List.mem_cons.mp member with rfl | member
      · exact .literal
      · exact ih (slot + 1) s member

/-- Steps that nobody has polled are on their way to what they come to by themselves. -/
theorem onTheWay_ofSteps (plain : options.adoptable = false) {steps : List Step}
    (unasked : ∀ s ∈ steps, s.Unasked) (line : Timeline) :
    Comes plain (steps.map (Step.alone options line.now)) line (ofSteps steps) := by
  refine ⟨rfl, (List.length_map _).symm, fun s member => (unasked s member).ready line,
    fit_ofSteps fun s member => (unasked s member).result?, fun i s found =>
      ⟨fun _ o result => ?_, fun outside => absurd (mem_ready_ofSteps found) outside⟩⟩
  have found : steps[i]? = some s := found
  obtain rfl : Step.alone options line.now s = o := by simpa [found] using result
  exact Step.promises_alone plain ((unasked s (List.mem_of_getElem? found)).ready _)

end Fragments

namespace Template

/-- The steps of a page: its first chunk, and for each slot what stands there and the next chunk. -/
def plan (options : Options) (template : Template) (values : List Value) : List Step :=
  Step.literal (template.chunks.headD []) ::
    Fragments.planFrom options 0 (template.slots.zip (values.zip (template.chunks.drop 1)))

/-- What the steps of a page come to, each by itself, when they are asked for at a tick. -/
def results (options : Options) (template : Template) (values : List Value) (now : Nat) :
    List (Option Fragments.Item) :=
  (template.plan options values).map (Step.alone options now)

theorem unasked_plan (options : Options) (template : Template) (values : List Value) :
    ∀ s ∈ template.plan options values, s.Unasked := by
  intro s member
  rcases List.mem_cons.mp member with rfl | member
  · exact .literal
  · exact Fragments.unasked_planFrom _ _ s member

/-- What a step comes to, it comes to by its own value. -/
theorem comes_of_results (plain : options.adoptable = false) {template : Template}
    {values : List Value} {now i : Nat} {s : Step} {o : Option Fragments.Item}
    (step : (template.plan options values)[i]? = some s)
    (result : (template.results options values now)[i]? = some o) : s.Comes options o := by
  obtain rfl : Step.alone options now s = o := by simpa [results, step] using result
  exact Step.comes_alone plain
    (template.unasked_plan options values s (List.mem_of_getElem? step)) now

/-- The step of a value that arrives comes to what the value resolves to, written. -/
theorem results_of_arrives (plain : options.adoptable = false) {template : Template}
    {values : List Value} {i slot : Nat} {writing : Writing} {mode : Mode} {value : Value}
    (step : (template.plan options values)[i]? = some (.resolving slot writing (.fresh mode value)))
    (arrives : value.Arrives options mode) (now : Nat) :
    (template.results options values now)[i]? =
      some (some (Step.written options writing (value.resolved options mode)).result) := by
  have result : (template.results options values now)[i]? =
      some (Step.alone options now (.resolving slot writing (.fresh mode value))) := by
    simp [results, step]
  rw [result, (comes_of_results plain step result).of_settles arrives.fate_eq]

theorem fragments_of_miscounted (options : Options) {template : Template} {values : List Value}
    {error : RenderError} (check : template.checkCount values = .error error) (line : Timeline) :
    template.fragments options values line = (.error error, line) := by
  simp only [fragments, check]
  rfl

theorem fragments_apply (options : Options) {template : Template} {values : List Value}
    (count : values.length = template.slotCount) (line : Timeline) :
    template.fragments options values line =
      let out := Fragments.stepsFrom options 0
        (template.slots.zip (values.zip (template.chunks.drop 1))) line
      (.ok (.ofSteps (.literal (template.chunks.headD []) :: out.1)), out.2) := by
  have check : template.checkCount values = .ok () := if_pos count
  simp only [fragments, check, Live.bind_apply]
  rfl

theorem fragments_eq_plan (plain : options.adoptable = false) (template : Template)
    {values : List Value} (count : values.length = template.slotCount) (line : Timeline) :
    ∃ line', template.fragments options values line =
        (.ok (.ofSteps (template.plan options values)), line') ∧ line.Later line' := by
  obtain ⟨line', steps, later⟩ := Fragments.stepsFrom_eq plain 0
    (template.slots.zip (values.zip (template.chunks.drop 1))) line
  refine ⟨line', ?_, later⟩
  rw [fragments_apply options count, steps]
  rfl

theorem onTheWay_plan (plain : options.adoptable = false) (template : Template)
    (values : List Value) (line : Timeline) :
    Fragments.Comes plain (template.results options values line.now) line
      (.ofSteps (template.plan options values)) :=
  Fragments.onTheWay_ofSteps plain (template.unasked_plan options values) line

/-- Fragments come in the order of the template, whatever settles first. Whenever somebody polls a
stream, and whatever happens meanwhile, it gives out the items of its steps in order. The requests
of a reader who waits are answered by the results of the steps up to the first failure, and after
the end nothing is polled, noted or waited for any more. What is sent is what the steps before the
first one come to that fails or never settles. -/
theorem fragments_in_order (plain : options.adoptable = false) (template : Template)
    {values : List Value} (count : values.length = template.slotCount) (line : Timeline) :
    (∃ line', template.fragments options values line =
        (.ok (.ofSteps (template.plan options values)), line') ∧
      (∀ {replies f last},
        Fragments.Run options (.ofSteps (template.plan options values)) line' replies f last →
          Fragments.Answers options (template.plan options values) replies f) ∧
      ∀ n, match Fragments.asked options n (.ofSteps (template.plan options values)) line' with
        | (f, later) =>
          (f.next options later).1.2 = Fragments.told (template.results options values line.now) n ∧
          (Fragments.told (template.results options values line.now) n = some none →
            f.next options later = ((f, some none), later))) ∧
    ∃ fragments ending, (template.stream options values line).1 = .ok (fragments, ending) ∧
      (fragments.map Prod.snd, ending) =
        Fragments.sent (template.results options values line.now) := by
  obtain ⟨line', started, later⟩ := fragments_eq_plan plain template count line
  have onTheWay := onTheWay_plan plain template values line'
  rw [later.1] at onTheWay
  refine ⟨⟨line', started, fun run => run.answers plain (template.unasked_plan options values),
    fun n => Fragments.next_asked plain n onTheWay⟩, ?_⟩
  have drained := Fragments.drain_eq plain onTheWay
  refine ⟨_, _, ?_, drained⟩
  simp only [stream, Live.bind_apply, started]
  rfl

/-- A slow slot in front of a quick one. -/
def twoSlots : Template := ⟨[['a'], ['b'], ['c']], [.content, .content], rfl⟩

/-- The value of the first slot settles last, and the fragments come in order nevertheless, whether
the page is sent to its end or a stream of it is polled again and again. -/
theorem fragments_in_order_twoSlots :
    let values := [Value.resolves 2 none (.str ['x']), .str ['y']]
    ({} : Options).adoptable = false ∧ values.length = twoSlots.slotCount ∧
      (∃ f line', twoSlots.fragments {} values Timeline.start = (.ok f, line') ∧
        ∀ {replies g last}, Fragments.Run {} f line' replies g last →
          Fragments.items replies <+: [.ok ['a'], .ok ['x'], .ok ['b'], .ok ['y'], .ok ['c']]) ∧
      ∃ fragments, (twoSlots.stream {} values Timeline.start).1 = .ok (fragments, .complete) ∧
        fragments.map Prod.snd = [['a'], ['x'], ['b'], ['y'], ['c']] := by
  intro values
  obtain ⟨⟨line', started, answers, _⟩, fragments, ending, streamed, sent⟩ :=
    @fragments_in_order {} rfl twoSlots values rfl Timeline.start
  refine ⟨rfl, rfl, ⟨_, line', started, fun run => ?_⟩, fragments, ?_⟩
  · refine (answers run).inPlace.isPrefix fun i s item found yields => ?_
    rcases i with _ | _ | _ | _ | _ | i <;> cases found
    · cases yields
      rfl
    · cases Step.Comes.of_settles (o := some item) yields rfl
      rfl
    · cases yields
      rfl
    · cases Step.Comes.of_settles (o := some item) yields rfl
      rfl
    · cases yields
      rfl
  · have texts : Fragments.sent (twoSlots.results {} values Timeline.start.now) =
        ([['a'], ['x'], ['b'], ['y'], ['c']], .complete) := by rfl
    obtain ⟨given, rfl⟩ := Prod.ext_iff.mp (sent.trans texts)
    exact ⟨streamed, given⟩

end Template

end HtmlTemplate
