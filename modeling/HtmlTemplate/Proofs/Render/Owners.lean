import HtmlTemplate.Proofs.Output.Marking
import HtmlTemplate.Proofs.Render.Ended
import HtmlTemplate.Render.Fragments

/-!
# Whom markers are drawn for

A marker is drawn for one content slot of one job. `owners` lists for whom the markers on a timeline
were drawn, in the order of their numbers; nobody is in it twice. Beside the timeline with markers
there is one without, at the same tick and with the same timers (`Timeline.Drawn`), and what is
written on both is the same, up to the markers of their owners around content (`Marked`).

A slot that is written as a whole draws its marker then (`Slot.write_drawn`), and so do the slots of
a page one after the other (`Template.write_drawn`).
-/

namespace HtmlTemplate

variable {options : Options}

/-- Whom a marker was drawn for: a job, and a slot of it. -/
abbrev Owner := Nat × Nat

/-- What stands at a place of an output. -/
inductive Spot where
  /-- Something that never has a marker. -/
  | plain
  /-- A content slot. -/
  | content (slot : Nat)
  /-- The beginning or the end of a content slot whose elements stand between them. -/
  | edge (slot : Nat)
  deriving Repr, DecidableEq

namespace Spot

/-- What a slot of a kind is in an output. -/
def ofKind (slot : Nat) : SlotKind → Spot
  | .content => content slot
  | _ => plain

/-- What a step that waits for a value becomes in an output. -/
def ofWriting (slot : Nat) : Writing → Spot
  | .slot kind => ofKind slot kind
  | .element => plain

/-- Slots from a number on, each with the chunk after it, in a page that is written as a whole. -/
def page (slot : Nat) : List SlotKind → List Spot
  | [] => []
  | kind :: rest => ofKind slot kind :: plain :: page (slot + 1) rest

/-- A slot in a page that is sent in fragments. -/
def sent (slot : Nat) (kind : SlotKind) (value : Value) : List Spot :=
  match kind, value with
  | .content, .array items =>
    edge slot :: (Value.leaves items).map (fun _ => plain) ++ [edge slot]
  | kind, _ => [ofKind slot kind]

/-- Slots from a number on, each with the chunk after it, in a page that is sent in fragments. -/
def stream (slot : Nat) : List (SlotKind × Value) → List Spot
  | [] => []
  | (kind, value) :: rest => sent slot kind value ++ plain :: stream (slot + 1) rest

/-- The spot is one of a content slot. -/
def IsOf (spot : Spot) (slot : Nat) : Prop := spot = content slot ∨ spot = edge slot

/-- One of the spots is one of a content slot. -/
def Has (spots : List Spot) (slot : Nat) : Prop := ∃ spot ∈ spots, spot.IsOf slot

/-- No two spots are the same content slot. -/
def Distinct (spots : List Spot) : Prop :=
  spots.Pairwise fun a b => ∀ slot, a = content slot → b ≠ content slot

theorem Distinct.eq_of_content {spots : List Spot} (h : Distinct spots) {i j k : Nat}
    (hi : spots[i]? = some (content k)) (hj : spots[j]? = some (content k)) : i = j := by
  obtain ⟨bound, first⟩ := List.getElem?_eq_some_iff.mp hi
  obtain ⟨bound', second⟩ := List.getElem?_eq_some_iff.mp hj
  have apart := List.pairwise_iff_getElem.mp h
  refine Classical.byContradiction fun ne => ?_
  rcases Nat.lt_or_gt_of_ne ne with less | more
  · exact apart i j bound bound' less k first second
  · exact apart j i bound' bound more k second first

theorem eq_of_ofKind_eq {slot k : Nat} {kind : SlotKind} (h : (ofKind slot kind).IsOf k) :
    k = slot ∧ kind = .content := by
  cases kind with
  | content =>
    rcases h with same | same
    · cases same
      exact ⟨rfl, rfl⟩
    · cases same
  | _ => rcases h with same | same <;> cases same

theorem has_append {spots others : List Spot} {k : Nat} :
    Has (spots ++ others) k ↔ Has spots k ∨ Has others k := by
  simp only [Has, List.mem_append, or_and_right, exists_or]

/-- A spot without a marker has no content. -/
theorem has_plain_cons {spots : List Spot} {k : Nat} : Has (plain :: spots) k ↔ Has spots k := by
  have none : ¬ plain.IsOf k := by
    rintro (same | same) <;> cases same
  simp only [Has, List.mem_cons, or_and_right, exists_or, exists_eq_left, none, false_or]

theorem has_ofKind_cons {slot k : Nat} {kind : SlotKind} {spots : List Spot}
    (h : Has (ofKind slot kind :: spots) k) : k = slot ∧ kind = .content ∨ Has spots k := by
  obtain ⟨spot, member, own⟩ := h
  rcases List.mem_cons.mp member with rfl | member
  · exact .inl (eq_of_ofKind_eq own)
  · exact .inr ⟨spot, member, own⟩

/-- The spots of a slot are its own, if it is one of content. -/
theorem eq_of_has_sent {slot k : Nat} {kind : SlotKind} {value : Value}
    (h : Has (sent slot kind value) k) : k = slot ∧ kind = .content := by
  unfold sent at h
  split at h
  · obtain ⟨spot, member, own⟩ := h
    simp only [List.cons_append, List.mem_cons, List.mem_append, List.mem_map, List.not_mem_nil,
      or_false] at member
    rcases member with rfl | ⟨_, _, rfl⟩ | rfl <;> rcases own with same | same <;> cases same <;>
      exact ⟨rfl, rfl⟩
  · rcases has_ofKind_cons h with here | ⟨_, member, _⟩
    · exact here
    · cases member

/-- Markers in a page that is written as a whole are those of its content slots. -/
theorem content_of_has_page {slot k : Nat} {kinds : List SlotKind} (h : Has (page slot kinds) k) :
    ∃ i, k = slot + i ∧ kinds[i]? = some .content := by
  induction kinds generalizing slot with
  | nil =>
    obtain ⟨_, member, _⟩ := h
    cases member
  | cons kind rest ih =>
    rcases has_ofKind_cons h with ⟨rfl, rfl⟩ | h
    · exact ⟨0, rfl, rfl⟩
    · obtain ⟨i, rfl, found⟩ := ih (has_plain_cons.mp h)
      exact ⟨i + 1, Nat.succ_add_eq_add_succ slot i, found⟩

/-- So are those in a page that is sent in fragments. -/
theorem content_of_has_stream {slot k : Nat} {slots : List (SlotKind × Value)}
    (h : Has (stream slot slots) k) :
    ∃ i, k = slot + i ∧ (slots.map Prod.fst)[i]? = some .content := by
  induction slots generalizing slot with
  | nil =>
    obtain ⟨_, member, _⟩ := h
    cases member
  | cons first rest ih =>
    obtain ⟨kind, value⟩ := first
    rcases has_append.mp h with h | h
    · obtain ⟨rfl, rfl⟩ := eq_of_has_sent h
      exact ⟨0, rfl, rfl⟩
    · obtain ⟨i, rfl, found⟩ := ih (has_plain_cons.mp h)
      exact ⟨i + 1, Nat.succ_add_eq_add_succ slot i, found⟩

theorem le_of_has_stream {slot k : Nat} {slots : List (SlotKind × Value)}
    (h : Has (stream slot slots) k) : slot ≤ k := by
  obtain ⟨i, rfl, _⟩ := content_of_has_stream h
  exact Nat.le_add_right slot i

theorem distinct_stream (slot : Nat) (slots : List (SlotKind × Value)) :
    Distinct (stream slot slots) := by
  induction slots generalizing slot with
  | nil => exact .nil
  | cons first rest ih =>
    obtain ⟨kind, value⟩ := first
    have here : Distinct (sent slot kind value) := by
      unfold sent
      split
      · refine List.pairwise_of_forall_mem_list ?_
        rintro a member b _ k rfl
        simp at member
      · exact List.pairwise_singleton _ _
    have apart : ∀ a ∈ plain :: stream (slot + 1) rest, ∀ k, a = content k → slot + 1 ≤ k := by
      rintro a member k rfl
      rcases List.mem_cons.mp member with same | member
      · cases same
      · exact le_of_has_stream ⟨_, member, .inl rfl⟩
    refine List.pairwise_append.mpr
      ⟨here, .cons (fun b _ k same => by cases same) (ih (slot + 1)), ?_⟩
    rintro a member b member' k rfl rfl
    have same := (eq_of_has_sent ⟨_, member, .inl rfl⟩).1
    have less := apart _ member' k rfl
    omega

end Spot

/-! ## The two timelines -/

/-- A timeline with markers, which were drawn for their owners, and one without. -/
structure Timeline.Drawn (owners : List Owner) (line line' : Timeline) : Prop where
  tick : line'.now = line.now
  timers : line'.timers = line.timers
  count : line.markers = owners.length
  nodup : owners.Nodup

theorem Timeline.parallel_drawn (owners : List Owner) :
    Timeline.Parallel id (Timeline.Drawn owners) where
  tick drawn := drawn.tick
  number drawn := drawn.timers.symm
  record _ drawn := ⟨drawn.tick, drawn.timers, drawn.count, drawn.nodup⟩
  setTimer _ drawn := ⟨drawn.tick, congrArg (· + 1) drawn.timers, drawn.count, drawn.nodup⟩

/-- More markers were drawn, for some slots of a job. -/
structure Grows (job : Nat) (slots : Nat → Prop) (owners owners' : List Owner) : Prop where
  kept : owners <+: owners'
  new : ∀ {owner}, owner ∈ owners' → owner ∈ owners ∨ owner.1 = job ∧ slots owner.2

namespace Grows

variable {job : Nat} {slots slots' : Nat → Prop} {owners owners' owners'' : List Owner}

theorem refl (job : Nat) (slots : Nat → Prop) (owners : List Owner) :
    Grows job slots owners owners :=
  ⟨List.prefix_rfl, .inl⟩

theorem one (owners : List Owner) {job slot : Nat} (own : slots slot) :
    Grows job slots owners (owners ++ [(job, slot)]) := by
  refine ⟨List.prefix_append _ _, fun {owner} member => ?_⟩
  rcases List.mem_append.mp member with member | last
  · exact .inl member
  · rw [List.mem_singleton.mp last]
    exact .inr ⟨rfl, own⟩

theorem trans (h : Grows job slots owners owners') (h' : Grows job slots owners' owners'') :
    Grows job slots owners owners'' :=
  ⟨h.kept.trans h'.kept, fun member => (h'.new member).elim h.new .inr⟩

theorem mono (h : Grows job slots owners owners') (le : ∀ slot, slots slot → slots' slot) :
    Grows job slots' owners owners' :=
  ⟨h.kept, fun member => (h.new member).imp_right fun own => ⟨own.1, le _ own.2⟩⟩

/-- A slot that is none of those for which markers were drawn has none still. -/
theorem not_mem (h : Grows job slots owners owners') {slot : Nat} (new : (job, slot) ∉ owners)
    (other : ¬ slots slot) : (job, slot) ∉ owners' :=
  fun member => (h.new member).elim new fun own => other own.2

/-- Nor has a slot of another job. -/
theorem not_mem_of_ne (h : Grows job slots owners owners') {other slot : Nat}
    (new : (other, slot) ∉ owners) (ne : other ≠ job) : (other, slot) ∉ owners' :=
  fun member => (h.new member).elim new fun own => ne own.1

end Grows

/-! ## What is written on both -/

/-- What stands at a spot with markers, and without. -/
inductive Marked (owners : List Owner) (job : Nat) : Spot → Text → Text → Prop
  | plain {text} : Marked owners job .plain text text
  | content {n slot text} : owners[n]? = some (job, slot) →
      Marked owners job (.content slot)
        (Slot.markerText (n + 1) ++ text ++ Slot.markerText (n + 1)) text
  | edge {n slot} : owners[n]? = some (job, slot) →
      Marked owners job (.edge slot) (Slot.markerText (n + 1)) []

/-- What stands at the first of some spots with markers, and without. -/
inductive AllMarked (owners : List Owner) (job : Nat) : List Spot → List Text → List Text → Prop
  | nil {spots} : AllMarked owners job spots [] []
  | cons {spot spots text text' texts texts'} : Marked owners job spot text text' →
      AllMarked owners job spots texts texts' →
      AllMarked owners job (spot :: spots) (text :: texts) (text' :: texts')

/-- What comes of writing a spot with markers, and without. -/
inductive MarkedResult (owners : List Owner) (job : Nat) (spot : Spot) :
    Except RenderError Text → Except RenderError Text → Prop
  | ok {text text'} : Marked owners job spot text text' →
      MarkedResult owners job spot (.ok text) (.ok text')
  | error (error : RenderError) : MarkedResult owners job spot (.error error) (.error error)

/-- What comes of writing all of some spots one after the other with markers, and without: then it
is what their bodies are, or the first failure among them. -/
inductive MarkedPage (owners : List Owner) (job : Nat) (spots : List Spot)
    (bodies : List (Except RenderError Text)) :
    Except RenderError Text → Except RenderError Text → Prop
  | ok {texts texts'} : AllMarked owners job spots texts texts' → texts.length = spots.length →
      bodies = texts'.map .ok →
      MarkedPage owners job spots bodies (.ok texts.flatten) (.ok texts'.flatten)
  | error (before : List Text) {after} {error : RenderError} :
      bodies = before.map .ok ++ .error error :: after →
      MarkedPage owners job spots bodies (.error error) (.error error)

section Marked

variable {job : Nat} {slots : Nat → Prop} {owners owners' : List Owner} {spot : Spot}
  {spots : List Spot} {bodies : List (Except RenderError Text)} {text text' : Text}
  {texts texts' : List Text}

theorem Marked.grow (h : Marked owners job spot text text') (kept : owners <+: owners') :
    Marked owners' job spot text text' := by
  have still : ∀ {n : Nat} {owner : Owner}, owners[n]? = some owner → owners'[n]? = some owner := by
    intro n owner found
    obtain ⟨bound, rfl⟩ := List.getElem?_eq_some_iff.mp found
    exact List.prefix_iff_getElem?.mp kept n bound
  cases h with
  | plain => exact .plain
  | content found => exact .content (still found)
  | edge found => exact .edge (still found)

theorem AllMarked.grow (h : AllMarked owners job spots texts texts')
    (kept : owners <+: owners') : AllMarked owners' job spots texts texts' := by
  induction h with
  | nil => exact .nil
  | cons first _ ih => exact .cons (first.grow kept) ih

/-- The next spot. -/
theorem AllMarked.snoc (h : AllMarked owners job spots texts texts')
    (next : spots[texts.length]? = some spot) (marked : Marked owners job spot text text') :
    AllMarked owners job spots (texts ++ [text]) (texts' ++ [text']) := by
  induction h with
  | @nil spots =>
    cases spots with
    | nil => cases next
    | cons first rest =>
      cases next
      exact .cons marked .nil
  | cons first _ ih => exact .cons first (ih next)

theorem MarkedResult.plain (result : Except RenderError Text) :
    MarkedResult owners job .plain result result := by
  cases result with
  | ok text => exact .ok .plain
  | error error => exact .error error

theorem MarkedResult.grow {result result' : Except RenderError Text}
    (h : MarkedResult owners job spot result result')
    (kept : owners <+: owners') : MarkedResult owners' job spot result result' := by
  cases h with
  | ok marked => exact .ok (marked.grow kept)
  | error error => exact .error error

theorem MarkedPage.grow {result result' : Except RenderError Text}
    (h : MarkedPage owners job spots bodies result result')
    (kept : owners <+: owners') : MarkedPage owners' job spots bodies result result' := by
  cases h with
  | ok marked all same => exact .ok (marked.grow kept) all same
  | error before same => exact .error before same

end Marked

/-- No marker was drawn yet for the content slot at a spot. -/
def Fresh (owners : List Owner) (job : Nat) (spot : Spot) : Prop :=
  ∀ slot, spot = .content slot → (job, slot) ∉ owners

/-- What two computations leave of which the first one draws markers, for some slots of a job: their
results are related, whoever owns the markers then. -/
def Draws {α : Type} (job : Nat) (slots : Nat → Prop) (owners : List Owner)
    (rel : List Owner → α → α → Prop) (out out' : α × Timeline) : Prop :=
  ∃ owners', Grows job slots owners owners' ∧ Timeline.Drawn owners' out.2 out'.2 ∧
    rel owners' out.1 out'.1

theorem Draws.nothing {α : Type} {job : Nat} {slots : Nat → Prop} {owners : List Owner}
    {rel : List Owner → α → α → Prop} {out out' : α × Timeline}
    (drawn : Timeline.Drawn owners out.2 out'.2) (related : rel owners out.1 out'.1) :
    Draws job slots owners rel out out' :=
  ⟨owners, .refl job slots owners, drawn, related⟩

theorem Draws.mono {α : Type} {job : Nat} {slots slots' : Nat → Prop} {owners : List Owner}
    {rel : List Owner → α → α → Prop} {out out' : α × Timeline}
    (h : Draws job slots owners rel out out') (le : ∀ slot, slots slot → slots' slot) :
    Draws job slots' owners rel out out' := by
  obtain ⟨owners', grows, drawn, related⟩ := h
  exact ⟨owners', grows.mono le, drawn, related⟩

variable {owners : List Owner} {line line' : Timeline} {job slot : Nat}

namespace Slot

theorem marker_drawn (options : Options) (drawn : Timeline.Drawn owners line line')
    (new : (job, slot) ∉ owners) :
    marker (options.marking true) line =
        (markerText (owners.length + 1), { line with markers := line.markers + 1 }) ∧
      marker (options.marking false) line' = ([], line') ∧
      Timeline.Drawn (owners ++ [(job, slot)]) { line with markers := line.markers + 1 } line' := by
  refine ⟨?_, rfl, drawn.tick, drawn.timers, ?_, ?_⟩
  · rw [← drawn.count]
    rfl
  · rw [List.length_append, ← drawn.count]
    rfl
  · rw [List.nodup_append]
    refine ⟨drawn.nodup, by simp, ?_⟩
    rintro a member b last rfl
    exact new (List.mem_singleton.mp last ▸ member)

/-- Content is written between two copies of a marker of its own, and is the same without. -/
theorem content_drawn (options : Options) (drawn : Timeline.Drawn owners line line')
    (new : (job, slot) ∉ owners) (value : Value) :
    Draws job (Spot.content slot).IsOf owners (fun owners' => Marked owners' job (.content slot))
      (content (options.marking true) value line)
        (content (options.marking false) value line') := by
  obtain ⟨marked, unmarked, drawn'⟩ := marker_drawn options drawn new
  have number : (owners ++ [(job, slot)])[owners.length]? = some (job, slot) := by simp
  simp only [content, Live.bind_apply, Live.pure_apply, marked, unmarked, Content.write_marking]
  refine ⟨owners ++ [(job, slot)], .one owners (.inl rfl),
    (Timeline.parallel_drawn _).record _ drawn', ?_⟩
  have both : Marked (owners ++ [(job, slot)]) job (.content slot) _
      (Content.write options value).result := .content number
  simpa using both

/-- Without markers a slot is its body. -/
theorem write_unmarked (options : Options) (kind : SlotKind) (value : Value) (line : Timeline) :
    (write (options.marking false) kind value line).1 = (written options kind value).result := by
  rw [write_eq_record rfl, written_marking]
  rfl

/-- A slot draws a marker if it is one of content, and none otherwise. -/
theorem write_drawn (options : Options) (drawn : Timeline.Drawn owners line line') (kind : SlotKind)
    (fresh : Fresh owners job (.ofKind slot kind)) (value : Value) :
    Draws job (Spot.ofKind slot kind).IsOf owners
      (fun owners' => MarkedResult owners' job (.ofKind slot kind))
      (write (options.marking true) kind value line)
      (write (options.marking false) kind value line') := by
  by_cases content : kind = .content
  · subst content
    obtain ⟨owners', grows, drawn, marked⟩ :=
      content_drawn options drawn (fresh slot rfl) value
    exact ⟨owners', grows, drawn, .ok marked⟩
  · have plain : Spot.ofKind slot kind = .plain := by
      cases kind with
      | content => exact absurd rfl content
      | _ => rfl
    rw [write_of_ne_content content, write_of_ne_content content, written_marking, written_marking,
      plain]
    exact .nothing ((Timeline.parallel_drawn owners).record _ drawn) (.plain _)

end Slot

namespace Template

/-- What slots, each with the chunk after it, are without markers. -/
def bodiesOf (options : Options) : List (SlotKind × Value × Text) → List (Except RenderError Text)
  | [] => []
  | (kind, value, chunk) :: rest =>
    (Slot.written options kind value).result :: .ok chunk :: bodiesOf options rest

/-- What stands in a page without markers: its first chunk, and each slot with the chunk after
it. -/
def bodies (options : Options) (template : Template) (values : List Value) :
    List (Except RenderError Text) :=
  .ok (template.chunks.headD []) ::
    bodiesOf options (template.slots.zip (values.zip (template.chunks.drop 1)))

/-- The slots of a page draw their markers one after the other. -/
theorem writeSlots_drawn (options : Options) (drawn : Timeline.Drawn owners line line')
    (slots : List (SlotKind × Value × Text)) (fresh : ∀ k, slot ≤ k → (job, k) ∉ owners) :
    Draws job (Spot.Has (Spot.page slot (slots.map Prod.fst))) owners
      (fun owners' => MarkedPage owners' job (Spot.page slot (slots.map Prod.fst))
        (bodiesOf options slots))
      (writeSlots (options.marking true) slots line)
      (writeSlots (options.marking false) slots line') := by
  induction slots generalizing slot owners line line' with
  | nil => exact .nothing drawn (.ok .nil rfl rfl)
  | cons first rest ih =>
    obtain ⟨kind, value, chunk⟩ := first
    have free : Fresh owners job (.ofKind slot kind) := by
      intro k same
      obtain ⟨rfl, _⟩ := Spot.eq_of_ofKind_eq (.inl same)
      exact fresh k (Nat.le_refl k)
    obtain ⟨owners₁, grows, drawn₁, marked⟩ := Slot.write_drawn options drawn kind free value
    have here : ∀ k, (Spot.ofKind slot kind).IsOf k →
        Spot.Has (Spot.page slot (((kind, value, chunk) :: rest).map Prod.fst)) k := fun k own =>
      ⟨_, List.mem_cons_self, own⟩
    have later : ∀ k, Spot.Has (Spot.page (slot + 1) (rest.map Prod.fst)) k →
        Spot.Has (Spot.page slot (((kind, value, chunk) :: rest).map Prod.fst)) k :=
      fun k ⟨spot, member, own⟩ => ⟨spot, .tail _ (.tail _ member), own⟩
    have body := Slot.write_unmarked options kind value line'
    rcases written : Slot.write (options.marking true) kind value line with ⟨result, line₁⟩
    rcases written' : Slot.write (options.marking false) kind value line' with ⟨result', line₁'⟩
    rw [written, written'] at drawn₁ marked
    rw [written'] at body
    cases marked with
    | error error =>
      rw [writeSlots_of_error written, writeSlots_of_error written']
      have first : bodiesOf options ((kind, value, chunk) :: rest) =
          .error error :: .ok chunk :: bodiesOf options rest := by rw [bodiesOf, ← body]
      exact ⟨owners₁, grows.mono here, drawn₁, .error [] first⟩
    | @ok text text' marked =>
      rw [writeSlots_of_ok written, writeSlots_of_ok written']
      obtain ⟨owners₂, grows', drawn₂, others⟩ := ih drawn₁ fun k below =>
        grows.not_mem (fresh k (Nat.le_of_succ_le below)) fun own => by
          obtain ⟨rfl, _⟩ := Spot.eq_of_ofKind_eq own
          exact Nat.lt_irrefl _ below
      refine ⟨owners₂, (grows.mono here).trans (grows'.mono later), drawn₂, ?_⟩
      generalize (writeSlots (options.marking true) rest line₁).1 = rest₁ at others
      generalize (writeSlots (options.marking false) rest line₁').1 = rest₂ at others
      have first : bodiesOf options ((kind, value, chunk) :: rest) =
          .ok text' :: .ok chunk :: bodiesOf options rest := by rw [bodiesOf, ← body]
      cases others with
      | error before same =>
        rw [same] at first
        exact .error (text' :: chunk :: before) first
      | @ok texts texts' others all same =>
        have after : Marked owners₂ job .plain chunk chunk := .plain
        rw [same] at first
        have page : MarkedPage owners₂ job (Spot.page slot (kind :: rest.map Prod.fst)) _ _ _ :=
          .ok (.cons (marked.grow grows'.kept) (.cons after others)) (congrArg (· + 2) all) first
        simpa [Except.map, List.append_assoc] using page

/-- A page whose slots have all their values draws a marker for each of its content slots, and is
otherwise what it is without them. -/
theorem write_drawn (options : Options) (drawn : Timeline.Drawn owners line line')
    (template : Template) {values : List Value} (count : values.length = template.slotCount)
    (fresh : ∀ k, (job, k) ∉ owners) :
    Draws job (Spot.Has (.plain :: Spot.page 0 template.slots)) owners
      (fun owners' => MarkedPage owners' job (.plain :: Spot.page 0 template.slots)
        (template.bodies options values))
      (template.write (options.marking true) values line)
      (template.write (options.marking false) values line') := by
  have kinds : (template.slots.zip (values.zip (template.chunks.drop 1))).map Prod.fst =
      template.slots := by
    refine List.map_fst_zip ?_
    rw [List.length_zip, List.length_drop, template.parity, count]
    exact Nat.le_of_eq (Nat.min_self _).symm
  obtain ⟨owners', grows, drawn', pages⟩ := writeSlots_drawn options drawn
    (template.slots.zip (values.zip (template.chunks.drop 1))) fun k _ => fresh k
  rw [kinds] at grows pages
  rw [write_apply, write_apply]
  refine ⟨owners', grows.mono fun _ => Spot.has_plain_cons.mpr, drawn', ?_⟩
  generalize (writeSlots (options.marking true) _ line).1 = slots at pages
  generalize (writeSlots (options.marking false) _ line').1 = slots' at pages
  cases pages with
  | error before same =>
    exact .error (template.chunks.headD [] :: before) (congrArg (Except.ok _ :: ·) same)
  | ok others all same =>
    exact .ok (.cons .plain others) (congrArg (· + 1) all) (congrArg (Except.ok _ :: ·) same)

end Template

end HtmlTemplate
