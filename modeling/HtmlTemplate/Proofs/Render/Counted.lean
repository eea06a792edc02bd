import HtmlTemplate.Proofs.Render.Stream
import HtmlTemplate.Proofs.Value.Resolved

/-!
# Fragments are counted

A stream tells how many fragments are still to come. At first these are the chunks of the template
and one for each slot; an array in content has one for each of its leaves instead, and the two
markers around them. Whatever happens to the stream, every fragment that is given out is one less to
come, a poll without an item changes nothing, and after an error nothing is to come
(`Template.fragments_counted`).
-/

namespace HtmlTemplate

variable {options : Options}

/-! ## Leaves -/

namespace Value

mutual

/-- The number of values that are no arrays in a value, reached through arrays. -/
def leafCount : Value → Nat
  | .array items => leafTotal items
  | _ => 1

/-- The number of values that are no arrays in some values. -/
def leafTotal : List Value → Nat
  | [] => 0
  | v :: rest => leafCount v + leafTotal rest

end

theorem leafTotal_eq_sum (items : List Value) : leafTotal items = (items.map leafCount).sum := by
  induction items with
  | nil => rfl
  | cons v rest ih => rw [leafTotal, ih, List.map_cons, List.sum_cons]

theorem length_leavesOf (v : Value) : (leavesOf v).length = leafCount v := by
  induction v using elementInduction with
  | array items ih =>
    rw [leavesOf, leaves_eq_flatMap, List.length_flatMap, leafCount, leafTotal_eq_sum]
    exact congrArg List.sum (List.map_congr_left ih)
  | _ => rfl

theorem length_leaves (items : List Value) : (leaves items).length = leafTotal items :=
  length_leavesOf (.array items)

end Value

/-! ## The fragments of a page -/

namespace Template

/-- The fragments that an array in content has besides the one of any slot: a slot has one, an array
has one for each leaf and two for the markers around them. -/
def extraFragments : SlotKind → Value → Nat
  | .content, .array items => Value.leafTotal items + 1
  | _, _ => 0

/-- The number of fragments of a page. -/
def fragmentCount (template : Template) (values : List Value) : Nat :=
  2 * template.slotCount + 1 +
    ((template.slots.zip values).map fun (kind, value) => extraFragments kind value).sum

/-- Only a page without slots has a single fragment. -/
theorem fragmentCount_eq_one {template : Template} {values : List Value} :
    template.fragmentCount values = 1 ↔ template.slotCount = 0 := by
  constructor
  · intro one
    unfold fragmentCount at one
    omega
  · intro none
    have empty : template.slots = [] := List.eq_nil_of_length_eq_zero none
    rw [fragmentCount, none, empty]
    rfl

end Template

namespace Fragments

theorem length_slotSteps (options : Options) (slot : Nat) (kind : SlotKind) (value : Value)
    (line : Timeline) :
    (slotSteps options slot kind value line).1.length =
      1 + Template.extraFragments kind value := by
  cases kind with
  | content =>
    cases value with
    | array items =>
      simp only [slotSteps, arraySteps, Live.bind_apply, Live.pure_apply, List.length_append,
        List.length_cons, List.length_map, List.length_nil, Value.length_leaves,
        Template.extraFragments]
      omega
    | _ => rfl
  | _ => rfl

theorem length_stepsFrom (options : Options) (slot : Nat) {slots : List SlotKind}
    {values : List Value} {chunks : List Text} (count : values.length = slots.length)
    (parity : chunks.length = slots.length) (line : Timeline) :
    (stepsFrom options slot (slots.zip (values.zip chunks)) line).1.length =
      2 * slots.length +
        ((slots.zip values).map fun (kind, value) => Template.extraFragments kind value).sum := by
  induction slots generalizing slot values chunks line with
  | nil => rfl
  | cons kind slots ih =>
    obtain ⟨value, values, rfl⟩ := List.exists_cons_of_length_eq_add_one count
    obtain ⟨chunk, chunks, rfl⟩ := List.exists_cons_of_length_eq_add_one parity
    have first := length_slotSteps options slot kind value line
    have others := ih (slot + 1) (Nat.succ.inj count) (Nat.succ.inj parity)
      (slotSteps options slot kind value line).2
    simp only [List.zip_cons_cons, stepsFrom, Live.bind_apply, Live.pure_apply, List.length_append,
      List.length_cons, List.map_cons, List.sum_cons, first, others]
    omega

/-! ## What one poll counts -/

variable {f g : Fragments} {replies : List (Reply (Option Item))}

theorem remaining_eq_zero : f.remaining = 0 ↔ f.failed = true ∨ f.steps.length ≤ f.given := by
  unfold remaining
  cases f.failed
  · simp [Nat.sub_eq_zero_iff_le]
  · simp

theorem remaining_of_going (going : f.failed = false) : f.remaining = f.steps.length - f.given := by
  rw [remaining, going]
  rfl

/-- What a poll does to the number of fragments to come: the end is reached exactly when there are
none left, a fragment is one less, nothing is left behind an error, and nothing else changes it. -/
inductive Counts (f : Fragments) : Fragments × Reply (Option Item) → Prop
  | ended : f.remaining = 0 → Counts f (f, .said none)
  | gives {g text} : g.remaining + 1 = f.remaining → Counts f (g, .said (some (.ok text)))
  | fails {g error} : 0 < f.remaining → g.remaining = 0 →
      Counts f (g, .said (some (.error error)))
  | nothing {g again} : 0 < f.remaining → g.remaining = f.remaining →
      Counts f (g, .nothing again)

theorem counts_give (left : 0 < f.remaining) (going : g.failed = false)
    (same : g.remaining = f.remaining) (item : Item) (line : Timeline) :
    Counts f (g.give item line).1 := by
  cases item with
  | ok text =>
    refine .gives ?_
    rw [← same, remaining_of_going going] at left
    have fewer : ({ g with given := g.given + 1 } : Fragments).remaining =
        g.steps.length - (g.given + 1) := remaining_of_going going
    rw [← same, remaining_of_going going, fewer]
    omega
  | error error => exact .fails left rfl

theorem counts_poll (f : Fragments) (line : Timeline) : Counts f (poll options f line).1 := by
  by_cases ended : f.failed = true ∨ f.steps.length ≤ f.given
  · rw [poll_of_ended ended]
    exact .ended (remaining_eq_zero.mpr ended)
  · have left : 0 < f.remaining := Nat.pos_of_ne_zero fun zero => ended (remaining_eq_zero.mp zero)
    have going : f.failed = false := by
      simpa using fun failed => ended (.inl failed)
    have inside : f.given < f.steps.length := Nat.lt_of_not_le fun le => ended (.inr le)
    cases front : front? f.given f.steps with
    | some item =>
      rw [poll_of_front going inside front]
      exact counts_give left going rfl item line
    | none =>
      rcases polled : Queue.pollInTurn (Step.poll options) (fun step => step.result?.isSome)
        (fun steps => (front? f.given steps).isSome) ⟨f.steps, f.ready⟩ line with ⟨p, line'⟩
      have kept : (Queue.pollInTurn (Step.poll options) (fun step => step.result?.isSome)
          (fun steps => (front? f.given steps).isSome) ⟨f.steps, f.ready⟩
            line).1.state.members.length =
          f.steps.length := Queue.length_pollInTurn _ line
      have length : p.state.members.length = f.steps.length := by rwa [polled] at kept
      have same : (Fragments.mk p.state.members f.given p.state.ready f.failed).remaining =
          f.remaining := by
        rw [remaining, remaining, length]
      rw [poll_of_turns going inside front polled]
      cases front? f.given p.state.members with
      | some item =>
        exact counts_give (g := ⟨p.state.members, f.given, p.state.ready, f.failed⟩) left going same
          item line'
      | none => exact .nothing left same

theorem Counts.said_none {out : Fragments × Reply (Option Item)} (counts : Counts f out) :
    out.2 = .said none ↔ f.remaining = 0 := by
  cases counts with
  | ended zero => exact ⟨fun _ => zero, fun _ => rfl⟩
  | gives one =>
    refine ⟨fun same => ?_, fun zero => ?_⟩
    · cases same
    · omega
  | fails left _ =>
    refine ⟨fun same => ?_, fun zero => ?_⟩
    · cases same
    · omega
  | @nothing _ again left _ =>
    refine ⟨fun same => ?_, fun zero => ?_⟩
    · cases again <;> cases same
    · omega

theorem Counts.still {out : Fragments × Reply (Option Item)} (counts : Counts f out)
    (silent : ∀ item, out.2 ≠ .said item) : out.1.remaining = f.remaining := by
  cases counts with
  | ended => exact absurd rfl (silent _)
  | gives => exact absurd rfl (silent _)
  | fails => exact absurd rfl (silent _)
  | nothing _ same => exact same

/-- Timers that ring do not change how many fragments are to come. -/
theorem remaining_wake (tick : Nat) (f : Fragments) :
    ((waiting options).wake tick f).remaining = f.remaining := by
  show ({ f with
    steps := f.steps.map (Step.wake tick)
    ready := Group.wakeReady tick (f.steps.map Step.task) f.ready } : Fragments).remaining = _
  unfold remaining
  rw [List.length_map]

/-! ## Accounts -/

/-- The account of a run: with `total` fragments to come at first, `items` were given out and `left`
are to come. -/
structure Account (total : Nat) (items : List Item) (left : Nat) : Prop where
  whole : (∀ error, .error error ∉ items) → left + items.length = total
  failed : ∀ error, .error error ∈ items → left = 0
  bound : left + items.length ≤ total

namespace Account

variable {total left left' : Nat} {given : List Item}

theorem gives (account : Account total given left) (one : left' + 1 = left) (text : Text) :
    Account total (given ++ [.ok text]) left' := by
  have length : (given ++ [Except.ok text]).length = given.length + 1 := List.length_append
  refine ⟨fun fine => ?_, fun error member => ?_, ?_⟩
  · have whole := account.whole fun error member => fine error (List.mem_append_left _ member)
    rw [length]
    omega
  · rcases List.mem_append.mp member with member | last
    · have none := account.failed error member
      omega
    · cases List.mem_singleton.mp last
  · have bound := account.bound
    rw [length]
    omega

theorem fails (account : Account total given left) (positive : 0 < left) (error : RenderError) :
    Account total (given ++ [.error error]) 0 := by
  refine ⟨fun fine => ?_, fun _ _ => rfl, ?_⟩
  · exact absurd (List.mem_append_right _ List.mem_cons_self) (fine error)
  · have bound := account.bound
    have length : (given ++ [Except.error error]).length = given.length + 1 := List.length_append
    rw [length]
    omega

end Account

/-- A poll keeps the account. -/
theorem Counts.account {total : Nat} {out : Fragments × Reply (Option Item)} (counts : Counts g out)
    (account : Account total (items replies) g.remaining) :
    Account total (items (replies ++ [out.2])) out.1.remaining := by
  cases counts with
  | ended _ =>
    rw [items_append_none rfl]
    exact account
  | gives one =>
    rw [items_append_some rfl]
    exact account.gives one _
  | fails positive none =>
    rw [items_append_some rfl, none]
    exact account.fails positive _
  | nothing _ same =>
    rw [items_append_none (item?_nothing _), same]
    exact account

/-- Every run keeps the account. -/
theorem Run.account {line last : Timeline} (run : Run options f line replies g last) :
    Account f.remaining (items replies) g.remaining := by
  induction run with
  | start => exact ⟨fun _ => rfl, fun _ member => (by cases member), Nat.le_refl _⟩
  | polled _ ih => exact (counts_poll _ _).account ih
  | rings tick _ ih =>
    rw [remaining_wake]
    exact ih
  | meanwhile _ _ ih => exact ih

/-- A stream after some replies is counted, with `total` fragments to come at first: those that were
given out are missing and no others, unless there was an error. Only polls that bring an item count,
the upper bound is one for everything that may still be given out, and the end comes when nothing is
left. -/
structure Counted (options : Options) (total : Nat) (replies : List (Reply (Option Item)))
    (g : Fragments) : Prop where
  whole : (∀ error, .error error ∉ items replies) → g.remaining + (items replies).length = total
  failed : ∀ error, .error error ∈ items replies → g.remaining = 0
  still : ∀ now, (∀ item, (poll options g now).1.2 ≠ .said item) →
    (poll options g now).1.1.remaining = g.remaining
  bound : ∀ {now later h last}, Run options g now later h last →
    (items later).length ≤ g.sizeHint.2
  ends : ∀ now, (poll options g now).1.2 = .said none ↔ g.remaining = 0

theorem Run.counted {line last : Timeline} (run : Run options f line replies g last) :
    Counted options f.remaining replies g where
  whole := run.account.whole
  failed := run.account.failed
  still now := (counts_poll g now).still
  bound later := Nat.le_of_add_left_le later.account.bound
  ends now := (counts_poll g now).said_none

end Fragments

namespace Template

/-- A stream that has been started has all fragments of the page to come. -/
theorem remaining_fragments {options : Options} {template : Template} {values : List Value}
    {line line' : Timeline} {f : Fragments} (count : values.length = template.slotCount)
    (started : template.fragments options values line = (.ok f, line')) :
    f.remaining = template.fragmentCount values := by
  rw [fragments_apply options count line] at started
  obtain rfl := Except.ok.inj (congrArg Prod.fst started)
  have parity : (template.chunks.drop 1).length = template.slots.length := by
    rw [List.length_drop, template.parity]
    rfl
  have length := Fragments.length_stepsFrom options 0 count parity line
  rw [Fragments.remaining_ofSteps, List.length_cons, length, fragmentCount, slotCount]
  omega

/-- The stream of a page starts with two fragments for each slot and one more, and for every array
in content one for each leaf and one more. Whatever happens to it, what is to come is exactly what
was not given out until there is an error, and nothing after that; a poll without an item does not
change it, the upper bound holds for all items to come, and a poll reaches the end exactly when
nothing is to come. -/
theorem fragments_counted (options : Options) (template : Template) {values : List Value}
    (count : values.length = template.slotCount) (line : Timeline) :
    ∃ f line', template.fragments options values line = (.ok f, line') ∧
      f.remaining = template.fragmentCount values ∧
      ∀ {replies g last}, Fragments.Run options f line' replies g last →
        Fragments.Counted options (template.fragmentCount values) replies g := by
  have started := fragments_apply options count line
  have remaining := remaining_fragments count started
  refine ⟨_, _, started, remaining, fun run => ?_⟩
  rw [← remaining]
  exact run.counted

/-- A nested array of three leaves in front of a value that is rejected: two slots have five
fragments, and the array four more. -/
theorem fragments_counted_twoSlots :
    let values := [Value.array [.str ['x'], .array [.never, .null]], .rejects 1 none ['n', 'o']]
    values.length = twoSlots.slotCount ∧ ∃ f line',
      twoSlots.fragments {} values Timeline.start = (.ok f, line') ∧
        f.remaining = 9 ∧ ∀ {replies g last}, Fragments.Run {} f line' replies g last →
          Fragments.Counted {} 9 replies g :=
  ⟨rfl, fragments_counted {} twoSlots rfl Timeline.start⟩

end Template

end HtmlTemplate
