import HtmlTemplate.Proofs.Render.Timed
import HtmlTemplate.Proofs.Task.Agree
import HtmlTemplate.Proofs.Task.Blamed

/-!
# Whom a failed page blames

A page that waits is all or nothing. Where everything settles, it fails if the value of some slot
rejects: it blames such a slot, for a reason of that slot's own value, and has written nothing by
then, so that no transformation of an attribute was called and no marker drawn. Otherwise the first
slot whose transformation refuses the value is to blame, and if there is none, the page is there
(`Template.pending_blames`).
-/

namespace HtmlTemplate

variable {options options' : Options}

/-! ## Transformations that refuse -/

namespace Slot

/-- The error of a slot whose transformation refuses a value. -/
def refusal? (options : Options) (kind : SlotKind) (value : Value) : Option RenderError :=
  match kind with
  | .intent name =>
    match Entries.get? name options.intents with
    | none => none
    | some transform =>
      match (transform none value).result with
      | .error reason => some (.intent name reason)
      | .ok _ => none
  | _ => none

variable {kind : SlotKind} {value : Value} {line : Timeline}

/-- Writing a slot fails if the transformation refuses the value, and only then. -/
theorem write_eq_refusal (options : Options) (kind : SlotKind) (value : Value) (line : Timeline) :
    match refusal? options kind value with
    | some error => (write options kind value line).1 = .error error
    | none => ∃ text, (write options kind value line).1 = .ok text := by
  cases kind with
  | intent name =>
    have written : (write options (.intent name) value line).1 =
        (intent options name value).result :=
      rfl
    rw [written, refusal?, intent]
    cases Entries.get? name options.intents with
    | none => exact ⟨_, rfl⟩
    | some transform =>
      simp only [Noted.bind_result]
      cases (transform none value).result with
      | error reason => rfl
      | ok result => cases result <;> exact ⟨_, rfl⟩
  | _ => exact ⟨_, rfl⟩

theorem intent_of_refusal {error : RenderError}
    (refused : refusal? options kind value = some error) :
    ∃ name reason, error = .intent name reason := by
  unfold refusal? at refused
  split at refused
  · split at refused
    · cases refused
    · split at refused
      · cases refused
        exact ⟨_, _, rfl⟩
      · cases refused
  · cases refused

end Slot

namespace Template

/-- Slots are written if none refuses its value; otherwise the first one that does is to blame. -/
theorem writeSlots_eq_refusal (options : Options) (slots : List (SlotKind × Value × Text))
    (line : Timeline) :
    match slots.findSome? fun p => Slot.refusal? options p.1 p.2.1 with
    | some error => (writeSlots options slots line).1 = .error error
    | none => ∃ text, (writeSlots options slots line).1 = .ok text := by
  induction slots generalizing line with
  | nil => exact ⟨[], rfl⟩
  | cons first rest ih =>
    obtain ⟨kind, value, chunk⟩ := first
    have here := Slot.write_eq_refusal options kind value line
    rcases written : Slot.write options kind value line with ⟨result, line'⟩
    rw [written] at here
    rw [List.findSome?_cons]
    cases refusal : Slot.refusal? options kind value with
    | some error =>
      rw [refusal] at here
      obtain rfl : result = .error error := here
      rw [writeSlots_of_error written]
    | none =>
      rw [refusal] at here
      obtain ⟨text, rfl⟩ : ∃ text, result = .ok text := here
      have others := ih line'
      rw [writeSlots_of_ok written]
      cases later : rest.findSome? fun p => Slot.refusal? options p.1 p.2.1 with
      | some error =>
        rw [later] at others
        replace others : (writeSlots options rest line').1 = .error error := others
        rw [others]
        rfl
      | none =>
        rw [later] at others
        obtain ⟨text', others⟩ := others
        exact ⟨text ++ chunk ++ text', by rw [others]; rfl⟩

/-- Writing a page rejects no value. -/
theorem write_ne_rejected (options : Options) (template : Template) (values : List Value)
    (line : Timeline) (slot : Nat) (reason : Text) :
    (template.write options values line).1 ≠ .error (.rejected slot reason) := by
  intro rejected
  rw [write_apply] at rejected
  have slots := writeSlots_eq_refusal options
    (template.slots.zip (values.zip (template.chunks.drop 1))) line
  split at slots
  · rename_i error refused
    rw [slots] at rejected
    cases rejected
    obtain ⟨p, _, refused⟩ := List.exists_of_findSome?_eq_some refused
    obtain ⟨_, _, same⟩ := Slot.intent_of_refusal refused
    cases same
  · obtain ⟨text, slots⟩ := slots
    rw [slots] at rejected
    cases rejected

/-- The error of the first slot whose transformation refuses its value. -/
def refusal? (options : Options) (template : Template) (values : List Value) : Option RenderError :=
  (template.slots.zip values).findSome? fun p => Slot.refusal? options p.1 p.2

theorem write_eq_refusal (options : Options) {template : Template} {values : List Value}
    (count : values.length = template.slotCount) (line : Timeline) :
    match template.refusal? options values with
    | some error => (template.write options values line).1 = .error error
    | none => ∃ text, (template.write options values line).1 = .ok text := by
  have slots := writeSlots_eq_refusal options
    (template.slots.zip (values.zip (template.chunks.drop 1))) line
  have same : (template.slots.zip (values.zip (template.chunks.drop 1))).findSome?
      (fun p => Slot.refusal? options p.1 p.2.1) = template.refusal? options values := by
    rw [refusal?, ← zip_values count, List.findSome?_map]
    rfl
  rw [same] at slots
  rw [write_apply]
  cases refusal : template.refusal? options values with
  | some error =>
    rw [refusal] at slots
    exact congrArg (Except.map (template.chunks.headD [] ++ ·)) slots
  | none =>
    rw [refusal] at slots
    obtain ⟨text, slots⟩ := slots
    exact ⟨_, congrArg (Except.map (template.chunks.headD [] ++ ·)) slots⟩

end Template

/-! ## Rejections -/

namespace PendingText

variable {page page' : PendingText} {line line' : Timeline} {p : Polled Group}

/-- What is left of each slot after a poll is a reduction of it, and no marker was drawn. -/
theorem eachReduces_poll (polled : page.slots.poll (Task.poll options) line = (p, line')) :
    Task.EachReduces options page.slots.members p.state.members ∧ line'.markers = line.markers := by
  have each := Task.eachReduces_groupPoll options page.slots line
  rwa [polled] at each

/-- As long as a page is not written, how attributes are written makes no difference. -/
theorem poll_of_agree (agree : options.Agree options')
    (polled : page.slots.poll (Task.poll options) line = (p, line'))
    (unwritten : ∀ values, p.state.verdict ≠ .settled values) :
    poll options' page line = poll options page line := by
  rw [poll_apply polled]
  rw [← Task.poll_of_agree agree] at polled
  rw [poll_apply polled]
  cases verdict : p.state.verdict with
  | settled values => exact absurd verdict (unwritten values)
  | _ => rfl

/-- What leads a page to be rejected. -/
structure Blamed (options : Options) (page : PendingText) (line : Timeline) (slot : Nat)
    (reason : Text) (page' : PendingText) (line' : Timeline) : Prop where
  mayFail : ∃ t, page.slots.members[slot]? = some t ∧ t.MayFail options reason
  markers : line'.markers = line.markers
  /-- How attributes are written makes no difference. -/
  unwritten : ∀ {options'}, options.Agree options' →
    (waiting options').Runs page line page' (some (.error (.rejected slot reason))) line'

/-- A page that says that it is rejected names a slot that has failed. -/
theorem blamed_of_said {slot : Nat} {reason : Text}
    (polled : poll options page line = ((page', .said (.error (.rejected slot reason))), line')) :
    Blamed options page line slot reason page' line' := by
  rcases group : page.slots.poll (Task.poll options) line with ⟨p, line₁⟩
  obtain ⟨each, markers⟩ := eachReduces_poll group
  have applied := poll_apply group
  rw [polled] at applied
  cases verdict : p.state.verdict with
  | waiting =>
    rw [verdict] at applied
    cases again : p.again <;> rw [again] at applied <;> cases applied
  | failed slot' reason' =>
    rw [verdict] at applied
    cases applied
    have unwritten : ∀ values, p.state.verdict ≠ .settled values := fun values settled => by
      rw [verdict] at settled
      cases settled
    exact ⟨each.mayFail ⟨_, Task.member_of_failed verdict, .done⟩, markers, fun agree =>
      .said ((poll_of_agree agree group unwritten).trans polled)⟩
  | settled values =>
    rw [verdict] at applied
    have wrote : Reply.said (.error (.rejected slot reason)) =
        Reply.said (page.template.write options values line₁).1 :=
      congrArg (fun out => out.1.2) applied
    exact absurd (Reply.said.inj wrote).symm (Template.write_ne_rejected _ _ _ _ _ _)

/-- A page that is rejected blames a slot that may fail for the reason given, has drawn no marker,
and has asked nobody how to write attributes. -/
theorem blamed_of_runs {slot : Nat} {reason : Text}
    (run : (waiting options).Runs page line page' (some (.error (.rejected slot reason))) line') :
    Blamed options page line slot reason page' line' := by
  generalize said : some (Except.error (RenderError.rejected slot reason)) = o at run
  have silent : ∀ {p : Polled Group}, p.state.verdict = .waiting →
      ∀ values, p.state.verdict ≠ .settled values := fun waiting values settled => by
    rw [waiting] at settled
    cases settled
  -- A run that ends in a rejection only polls slots on its way, and nothing in it depends on how
  -- attributes are written.
  induction run with
  | said polled =>
    cases said
    exact blamed_of_said polled
  | again polled _ ih =>
    obtain ⟨p, group, rfl, waiting, _⟩ := polled_of_nothing (fun _ same => by cases same) polled
    obtain ⟨each, markers⟩ := eachReduces_poll group
    have rest := ih said
    exact ⟨each.mayFail rest.mayFail, rest.markers.trans markers, fun agree =>
      .again ((poll_of_agree agree group (silent waiting)).trans polled) (rest.unwritten agree)⟩
  | stalled => cases said
  | woken polled next _ ih =>
    obtain ⟨p, group, rfl, waiting, _⟩ := polled_of_nothing (fun _ same => by cases same) polled
    obtain ⟨each, markers⟩ := eachReduces_poll group
    have rest := ih said
    exact ⟨each.mayFail (Task.mayFail_of_wakeEach rest.mayFail), rest.markers.trans markers,
      fun agree => .woken ((poll_of_agree agree group (silent waiting)).trans polled) next
        (rest.unwritten agree)⟩

/-- Waiting for a page gives what its run does. -/
theorem await_of_runs {result : Except RenderError Text} (ready : Ready line page)
    (run : (waiting options).Runs page line page' (some result) line') :
    (Rendered.pending page).await options line = (some result, line') := by
  obtain ⟨_, _, _, run', awaited⟩ := Waiting.await_runs sound_waiting page line ready
  obtain ⟨rfl, rfl, rfl⟩ := run.unique run'
  simp only [Rendered.await, Live.bind_apply, awaited]
  rfl

end PendingText

/-! ## Pages of templates -/

namespace Template

variable {template : Template} {values : List Value} {line : Timeline}

/-- All that is asked for on the way to the values of the slots settles, with a value or without. -/
def Ends (options : Options) (template : Template) (values : List Value) : Prop :=
  ∀ p ∈ template.slots.zip values, ¬ p.2.Reaches options (slotMode options p.1) .never

/-- The value of a slot reaches a future that is rejected for a reason. -/
def Rejects (options : Options) (template : Template) (values : List Value) (slot : Nat)
    (reason : Text) : Prop :=
  ∃ kind value, template.slots[slot]? = some kind ∧ values[slot]? = some value ∧
    value.Rejects options (slotMode options kind) reason

/-- The transformation of the attribute that a slot stands in refuses what its value resolves to. -/
def Refuses (options : Options) (template : Template) (values : List Value) (slot : Nat)
    (name reason : Text) : Prop :=
  ∃ value transform, template.slots[slot]? = some (.intent name) ∧ values[slot]? = some value ∧
    Entries.get? name options.intents = some transform ∧
    (transform none (value.resolved options (slotMode options (.intent name)))).result =
      .error reason

/-- The timelines and results of a call with too few values, or too many. -/
theorem wrong_count (options : Options) (count : values.length ≠ template.slotCount)
    (line : Timeline) :
    template.render options values line =
        (.error (.slotCount template.slotCount values.length), line) ∧
      template.fragments options values line =
        (.error (.slotCount template.slotCount values.length), line) ∧
      template.stream options values line =
        (.error (.slotCount template.slotCount values.length), line) := by
  have check : template.checkCount values =
      .error (.slotCount template.slotCount values.length) := if_neg count
  have fragments := fragments_of_miscounted options check line
  refine ⟨render_of_miscounted options check line, fragments, ?_⟩
  simp only [stream, Live.bind_apply, fragments]
  rfl

/-! ### When a value rejects -/

theorem rejects_of_mayFail {slot : Nat} {reason : Text}
    (fails : ∃ t, (template.freshSlots options values).members[slot]? = some t ∧
      t.MayFail options reason) : template.Rejects options values slot reason := by
  obtain ⟨t, found, fails⟩ := fails
  obtain ⟨⟨kind, value⟩, inside, rfl⟩ := Option.map_eq_some_iff.mp
    (List.getElem?_map ▸ found : (template.slots.zip values)[slot]?.map _ = some t)
  obtain ⟨found, found'⟩ := List.getElem?_zip_eq_some.mp inside
  cases fails with
  | fresh rejects => exact ⟨kind, value, found, found', rejects⟩

theorem mem_fates (options : Options) {kind : SlotKind} {value : Value} {slot : Nat}
    (found : template.slots[slot]? = some kind) (found' : values[slot]? = some value) :
    value.fate options (slotMode options kind) ∈ template.fates options values :=
  List.mem_map.mpr ⟨(kind, value),
    List.mem_of_getElem? (List.getElem?_zip_eq_some.mpr ⟨found, found'⟩), rfl⟩

/-- Where everything settles, no page waits for ever. -/
theorem joined_ne_never (ends : template.Ends options values) (ready : Option (List Nat)) :
    Fate.joined ready (template.fates options values) ≠ .never := by
  intro endless
  obtain ⟨p, member, never⟩ := List.mem_map.mp (Fate.never_mem_of_joined endless)
  exact ends p member (Value.reaches_never_of_never never)

/-- A page with a value that rejects is rejected, and names a slot whose own value rejects for the
reason given. Before, no marker is drawn, and no transformation of an attribute is called: with any
others the same happens. -/
theorem await_of_rejects (ends : template.Ends options values)
    (rejects : ∃ slot reason, template.Rejects options values slot reason) (start : Timeline) :
    ∃ slot reason last, template.Rejects options values slot reason ∧
      (Rendered.pending ⟨template, template.freshSlots options values⟩).await options start =
        (some (.error (.rejected slot reason)), last) ∧
      last.markers = start.markers ∧
      ∀ intents, (Rendered.pending ⟨template, template.freshSlots options values⟩).await
          { options with intents := intents } start =
        (some (.error (.rejected slot reason)), last) := by
  have fit := fit_freshSlots options template values start
  obtain ⟨page, said, last, run, _⟩ :=
    Waiting.await_runs PendingText.sound_waiting _ start fit.ready
  have ended := PendingText.ended_of_runs run fit
  rw [fate_freshSlots] at ended
  have endless := joined_ne_never ends (Group.readyAtFirst (template.slots.zip values).length)
  generalize joined : Fate.joined (Group.readyAtFirst (template.slots.zip values).length)
    (template.fates options values) = fate at ended endless
  generalize last.now = now at ended
  -- A page is not written when a value rejects, and does not stall where everything settles.
  cases ended with
  | written =>
    obtain ⟨slot, reason, kind, value, found, found', rejects⟩ := rejects
    have inside := mem_fates options found found'
    rw [Fate.joined_eq_settles.mp joined] at inside
    obtain ⟨a, _, settles⟩ := List.mem_map.mp inside
    exact absurd rejects (Value.not_rejects_of_settles settles.symm reason)
  | rejected slot reason =>
    have blamed := PendingText.blamed_of_runs run
    exact ⟨slot, reason, last, rejects_of_mayFail blamed.mayFail,
      PendingText.await_of_runs fit.ready run, blamed.markers,
      fun intents => PendingText.await_of_runs fit.ready (blamed.unwritten ⟨rfl, rfl⟩)⟩
  | stalled => exact absurd rfl endless

/-! ### When no value does -/

theorem fates_of_joined {ready : Option (List Nat)} {settled : List Value}
    (joined : Fate.joined ready (template.fates options values) = .settles settled) :
    template.fates options values = (template.resolvedSlots options values).map .settles := by
  have fates := Fate.joined_eq_settles.mp joined
  rw [resolvedSlots, ← List.map_uncurry_zip_eq_zipWith, List.map_map]
  refine List.map_congr_left fun p member => ?_
  have inside : p.2.fate options (slotMode options p.1) ∈ settled.map .settles :=
    fates ▸ List.mem_map.mpr ⟨p, member, rfl⟩
  obtain ⟨a, _, settles⟩ := List.mem_map.mp inside
  rw [← settles, Value.eq_resolved_of_settles settles.symm]
  rfl

/-- A page without a value that rejects is written with what its values resolve to. -/
theorem await_of_resolved (ends : template.Ends options values)
    (resolves : ∀ slot reason, ¬ template.Rejects options values slot reason) (start : Timeline) :
    ∃ written,
      ((Rendered.pending ⟨template, template.freshSlots options values⟩).await options start).1 =
        some (template.write options (template.resolvedSlots options values) written).1 := by
  obtain ⟨said, last, awaited, ended⟩ := await_ended options template values start
  have endless := joined_ne_never ends (Group.readyAtFirst (template.slots.zip values).length)
  rw [awaited]
  generalize joined : Fate.joined (Group.readyAtFirst (template.slots.zip values).length)
    (template.fates options values) = fate at ended endless
  generalize last.now = now at ended
  cases ended with
  | @written settled line =>
    have fates := fates_of_joined joined
    rw [← @Fate.joined_eq_settles _ (Group.readyAtFirst (template.slots.zip values).length),
      joined] at fates
    exact ⟨line, by rw [Fate.settles.inj fates]⟩
  | rejected slot reason =>
    obtain ⟨⟨kind, value⟩, member, fails⟩ := List.mem_map.mp (Fate.fails_mem_of_joined joined)
    obtain ⟨i, found⟩ := List.getElem?_of_mem member
    obtain ⟨found, found'⟩ := List.getElem?_zip_eq_some.mp found
    obtain ⟨reason, rejects⟩ := Value.exists_rejects_of_fails fails
    exact absurd ⟨kind, value, found, found', rejects⟩ (resolves i reason)
  | stalled => exact absurd rfl endless

theorem getElem?_zip_resolvedSlots {slot : Nat} {kind : SlotKind} {settled : Value} :
    (template.slots.zip (template.resolvedSlots options values))[slot]? = some (kind, settled) ↔
      ∃ value, template.slots[slot]? = some kind ∧ values[slot]? = some value ∧
        settled = value.resolved options (slotMode options kind) := by
  simp only [List.getElem?_zip_eq_some, resolvedSlots, List.getElem?_zipWith]
  constructor
  · rintro ⟨found, resolved⟩
    cases found' : values[slot]? with
    | none => simp [found, found'] at resolved
    | some value =>
      simp only [found, found', Option.some.injEq] at resolved
      exact ⟨value, found, rfl, resolved.symm⟩
  · rintro ⟨value, found, found', rfl⟩
    simp only [found, found', and_self]

/-- A slot refuses what its value resolves to if its transformation does. -/
theorem refuses_iff {slot : Nat} {error : RenderError} :
    (∃ p, (template.slots.zip (template.resolvedSlots options values))[slot]? = some p ∧
        Slot.refusal? options p.1 p.2 = some error) ↔
      ∃ name reason, error = .intent name reason ∧
        template.Refuses options values slot name reason := by
  constructor
  · rintro ⟨⟨kind, settled⟩, inside, refused⟩
    obtain ⟨value, found, found', rfl⟩ := getElem?_zip_resolvedSlots.mp inside
    simp only [Slot.refusal?] at refused
    split at refused
    · rename_i name
      split at refused
      · cases refused
      · rename_i transform registered
        split at refused
        · rename_i reason refuses
          cases refused
          exact ⟨name, reason, rfl, value, transform, found, found', registered, refuses⟩
        · cases refused
    · cases refused
  · rintro ⟨name, reason, rfl, value, transform, found, found', registered, refuses⟩
    refine ⟨_, getElem?_zip_resolvedSlots.mpr ⟨value, found, found', rfl⟩, ?_⟩
    simp only [Slot.refusal?, registered, refuses]

/-- Among the slots whose transformations refuse, the first one is to blame. -/
theorem refusal?_of_first {slot : Nat} {name reason : Text}
    (refuses : template.Refuses options values slot name reason)
    (first : ∀ earlier < slot, ∀ name reason,
      ¬ template.Refuses options values earlier name reason) :
    template.refusal? options (template.resolvedSlots options values) =
      some (.intent name reason) := by
  obtain ⟨p, found, refused⟩ := refuses_iff.mpr ⟨name, reason, rfl, refuses⟩
  rw [refusal?, List.findSome?_eq_some_iff]
  obtain ⟨bound, rfl⟩ := List.getElem?_eq_some_iff.mp found
  refine ⟨_, _, _, (List.take_append_drop slot _).symm.trans
    (congrArg _ (List.drop_eq_getElem_cons bound)), refused, fun q member => ?_⟩
  obtain ⟨earlier, inside, rfl⟩ := List.mem_take_iff_getElem.mp member
  cases refused' : Slot.refusal? options _ _ with
  | none => rfl
  | some error =>
    obtain ⟨name', reason', _, refuses'⟩ := refuses_iff.mp
      ⟨_, List.getElem?_eq_getElem (Nat.lt_of_lt_of_le inside (Nat.min_le_right _ _)), refused'⟩
    exact absurd refuses'
      (first earlier (Nat.lt_of_lt_of_le inside (Nat.min_le_left _ _)) name' reason')

theorem refusal?_eq_none
    (accepts : ∀ slot name reason, ¬ template.Refuses options values slot name reason) :
    template.refusal? options (template.resolvedSlots options values) = none := by
  rw [refusal?, List.findSome?_eq_none_iff]
  intro p member
  obtain ⟨slot, found⟩ := List.getElem?_of_mem member
  cases refused : Slot.refusal? options p.1 p.2 with
  | none => rfl
  | some error =>
    obtain ⟨name, reason, _, refuses⟩ := refuses_iff.mp ⟨p, found, refused⟩
    exact absurd refuses (accepts slot name reason)

/-! ### All or nothing -/

/-- A page that waits is all or nothing, and blames the right slot. With a wrong number of values
nothing happens at all. With one value for each slot, if all that is asked for settles, the page
ends whenever somebody waits for it, and it does in one of three ways. If the values of some slots
reject, it names one of these slots and a reason of that slot's own value; by then no marker is
drawn, and all is as it would be with any other transformations of attributes, or none, so that no
one was called. Otherwise, if some transformations refuse what the values of their slots resolve to,
the first of these slots is to blame; and if none does, the text of the page is there. -/
theorem pending_blames (options : Options) (template : Template) (values : List Value)
    (line : Timeline) :
    (values.length ≠ template.slotCount →
      template.render options values line =
          (.error (.slotCount template.slotCount values.length), line) ∧
        template.fragments options values line =
          (.error (.slotCount template.slotCount values.length), line) ∧
        template.stream options values line =
          (.error (.slotCount template.slotCount values.length), line)) ∧
    (values.length = template.slotCount → Value.anyAsync values = true →
      template.Ends options values →
      ∃ page line', template.render options values line = (.ok (.pending page), line') ∧
        line'.markers = line.markers ∧
        ((∃ slot reason, template.Rejects options values slot reason) → ∀ start,
          ∃ slot reason last, template.Rejects options values slot reason ∧
            (Rendered.pending page).await options start =
              (some (.error (.rejected slot reason)), last) ∧
            last.markers = start.markers ∧
            ∀ intents, template.render { options with intents := intents } values line =
                (.ok (.pending page), line') ∧
              (Rendered.pending page).await { options with intents := intents } start =
                (some (.error (.rejected slot reason)), last)) ∧
        ((∀ slot reason, ¬ template.Rejects options values slot reason) → ∀ start,
          (∀ slot name reason, template.Refuses options values slot name reason →
            (∀ earlier < slot, ∀ name reason,
              ¬ template.Refuses options values earlier name reason) →
            ((Rendered.pending page).await options start).1 = some (.error (.intent name reason))) ∧
          ((∀ slot name reason, ¬ template.Refuses options values slot name reason) →
            ∃ text, ((Rendered.pending page).await options start).1 = some (.ok text)))) := by
  refine ⟨fun count => wrong_count options count line, fun count waits ends => ?_⟩
  refine ⟨_, _, render_of_waits options count waits line, rfl, fun rejects start => ?_,
    fun resolves start => ?_⟩
  · obtain ⟨slot, reason, last, blamed, awaited, markers, unwritten⟩ :=
      await_of_rejects ends rejects start
    exact ⟨slot, reason, last, blamed, awaited, markers, fun intents =>
      ⟨render_of_waits { options with intents := intents } count waits line, unwritten intents⟩⟩
  · obtain ⟨written, awaited⟩ := await_of_resolved ends resolves start
    have result := write_eq_refusal options (length_resolvedSlots options count) written
    rw [awaited]
    constructor
    · intro slot name reason refuses first
      rw [refusal?_of_first refuses first] at result
      exact congrArg some result
    · intro accepts
      rw [refusal?_eq_none accepts] at result
      obtain ⟨text, result⟩ := result
      exact ⟨text, congrArg some result⟩

/-- An attribute with a transformation, and content after it. -/
def figure : Template := ⟨[['f'], ['g'], ['h']], [.intent ['x'], .content], rfl⟩

/-- A host whose transformation of the attribute refuses everything. -/
def refusing : Options := { intents := [(['x'], fun _ _ => pure (.error ['o']))] }

/-- A text, and a list with a value that is rejected after two ticks. -/
def doomed : List Value := [.str ['v'], .array [.rejects 2 none ['n']]]

/-- A rejection in the second slot comes before a refusal in the first. -/
theorem pending_blames_second :
    (figure.render refusing [] Timeline.start).1 = .error (.slotCount 2 0) ∧
    ∃ page line', figure.render refusing doomed Timeline.start = (.ok (.pending page), line') ∧
      ∀ start, ((Rendered.pending page).await refusing start).1 =
        some (.error (.rejected 1 ['n'])) := by
  constructor
  · rw [((pending_blames refusing figure [] Timeline.start).1 (by decide)).1]
    rfl
  · have reached : ∀ {v : Value}, (Value.array [.rejects 2 none ['n']]).Reaches refusing
        (slotMode refusing .content) v →
        v = .array [.rejects 2 none ['n']] ∨ v = .rejects 2 none ['n'] := by
      intro v reaches
      cases reaches with
      | here => exact .inl rfl
      | element _ member reaches =>
        cases List.mem_singleton.mp member
        cases reaches
        exact .inr rfl
    have ends : figure.Ends refusing doomed := by
      intro p member endless
      simp only [figure, doomed, List.zip_cons_cons, List.zip_nil_right, List.mem_cons,
        List.not_mem_nil, or_false] at member
      rcases member with rfl | rfl
      · cases endless
      · rcases reached endless with same | same <;> cases same
    have rejects : figure.Rejects refusing doomed 1 ['n'] :=
      ⟨.content, _, rfl, rfl, 2, none, .element rfl List.mem_cons_self .here⟩
    have only : ∀ {slot reason}, figure.Rejects refusing doomed slot reason →
        slot = 1 ∧ reason = ['n'] := by
      rintro slot reason ⟨kind, value, found, found', delay, name, reaches⟩
      rcases slot with _ | _ | slot
      · cases found
        cases found'
        cases reaches
      · cases found
        cases found'
        rcases reached reaches with same | same <;> cases same
        exact ⟨rfl, rfl⟩
      · cases found
    obtain ⟨page, line', rendered, _, fails, _⟩ :=
      (pending_blames refusing figure doomed Timeline.start).2 rfl rfl ends
    refine ⟨page, line', rendered, fun start => ?_⟩
    obtain ⟨slot, reason, last, blamed, awaited, _⟩ := fails ⟨1, _, rejects⟩ start
    obtain ⟨rfl, rfl⟩ := only blamed
    rw [awaited]

end Template

end HtmlTemplate
