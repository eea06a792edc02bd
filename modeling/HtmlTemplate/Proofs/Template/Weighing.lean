import HtmlTemplate.Proofs.Markup.Named
import HtmlTemplate.Proofs.Template.Joined
import HtmlTemplate.Proofs.Template.Ledger

/-!
# Around markers

What is read of a marker cannot be known from the segments: a marker may end a reference, or fall
into a name that is dropped. But it has only one `h`, so no text is worth more than one token more
after it than it held before it, wherever the tokenizer is (`holds_marker`).
-/

namespace HtmlTemplate

namespace NamedReference

/-- A name that ends with a semicolon, unless what it stands for begins with no letter of tokens. -/
def isLegacy (entry : String × List Nat) : Bool :=
  (match entry.2 with
    | [] => false
    | n :: _ => !isTokenLetter (Char.ofNat n)) || entry.1.toList.contains ';'

theorem isLegacy_startingWith (c : Char) : (startingWith c).all isLegacy = true := by
  unfold startingWith
  split <;> decide +kernel

/-- What a name without a semicolon stands for begins with no letter of tokens. -/
theorem other_of_lookup? {name text : Text} (h : lookup? name = some text) (open' : ';' ∉ name) :
    ∃ c rest, text = c :: rest ∧ isTokenLetter c = false := by
  cases name with
  | nil => cases h
  | cons first others =>
    obtain ⟨codes, found, rfl⟩ := Option.map_eq_some_iff.mp h
    obtain ⟨before, after, same, _⟩ := List.lookup_eq_some_iff.mp found
    have member : (String.ofList (first :: others), codes) ∈ startingWith first :=
      same ▸ List.mem_append_right _ List.mem_cons_self
    have legacy := List.all_eq_true.mp (isLegacy_startingWith first) _ member
    unfold isLegacy at legacy
    rw [Bool.or_eq_true] at legacy
    rcases legacy with other | semicolon
    · cases codes with
      | nil => cases other
      | cons n codes => exact ⟨_, _, rfl, by simpa using other⟩
    · rw [String.toList_ofList] at semicolon
      exact absurd (List.contains_iff_mem.mp semicolon) open'

end NamedReference

/-! ## Measures -/

/-- A way to weigh texts, that counts every token and goes by what is at the end. -/
structure Sentinel.Measure (s : Sentinel) (f : Text → Nat) : Prop where
  count (u : Text) : s.count u ≤ f u
  nil : f [] = 0
  other {c : Char} : isTokenLetter c = false →
    ∀ u rest : Text, f (u ++ c :: rest) = s.count u + f rest
  suffix (u rest : Text) : f rest ≤ f (u ++ rest)
  quiet {u : Text} : 'h' ∉ u → ∀ rest, f (u ++ rest) = f rest

namespace Sentinel

variable {s : Sentinel} {f g : Text → Nat}

theorem tally_quiet {u : Text} (quiet : 'h' ∉ u) (rest : Text) :
    s.tally s.token (u ++ rest) = s.tally s.token rest := by
  rw [tally_append, tally_eq_zero quiet]
  simp

theorem measure_count (s : Sentinel) : s.Measure s.count where
  count _ := Nat.le_refl _
  nil := rfl
  other letter u rest := count_other u letter rest
  suffix u rest := by
    have parts := s.count_add_le u rest
    omega
  quiet none rest := by rw [Sentinel.count, tally_quiet none, Sentinel.count]

theorem measure_worth (s : Sentinel) : s.Measure s.worth where
  count u := s.count_le_worth u
  nil := s.worth_nil
  other letter u rest := worth_other u letter rest
  suffix u rest := s.worth_le_append u rest
  quiet none rest := by rw [worth, worth, Sentinel.count, Sentinel.count, tally_quiet none]

/-- A reference that ends without a semicolon weighs no more than what is written of it. -/
theorem Measure.unterminated (measure : s.Measure f) {run : Text} (open' : ';' ∉ run) (u : Text)
    (inAttribute : Bool) (next : Option Char) :
    f (u ++ Reference.unterminated inAttribute run next) ≤ f (u ++ '&' :: run) := by
  have named : ∀ {m text}, NamedReference.lookup? (run.take m) = some text →
      f (u ++ (text ++ run.drop m)) ≤ f (u ++ '&' :: run) := by
    intro m text found
    have quiet := NamedReference.not_mem_of_lookup? found
    obtain ⟨c, rest, rfl, other⟩ := NamedReference.other_of_lookup? found fun member =>
      open' (List.mem_of_mem_take member)
    have suffix := measure.suffix (run.take m) (run.drop m)
    rw [List.take_append_drop] at suffix
    rw [List.cons_append, measure.other other, measure.other (by decide),
      measure.quiet fun member => quiet (List.mem_cons_of_mem c member)]
    omega
  unfold Reference.unterminated
  split
  · split
    · exact Nat.le_refl _
    · cases found : NamedReference.lookup? run with
      | none => exact Nat.le_refl _
      | some text =>
        have whole : NamedReference.lookup? (run.take run.length) = some text := by
          rw [List.take_length, found]
        have bound := named whole
        rw [List.drop_length, List.append_nil] at bound
        exact bound
  · split
    · rename_i found
      obtain ⟨m, known, rfl⟩ := Reference.longestName?_eq_some found
      exact named known
    · exact Nat.le_refl _

end Sentinel

/-! ## Weighing -/

namespace Gauge

/-- Which references may be going on. -/
inductive Level where
  | any
  /-- None that is a number. -/
  | named
  /-- None, and no mark may begin either. -/
  | resting
  deriving DecidableEq

namespace Level

variable {level level' : Level} {c : Char} {ref : Reference}

def Allows : Level → Option Reference → Prop
  | _, none => True
  | resting, some _ => False
  | _, some (.named run) => ';' ∉ run
  | any, some _ => True
  | named, some _ => False

/-- Whether a character leads from one level to another. -/
def Leads (c : Char) : Level → Level → Prop
  | any, named => c ≠ 'x' ∧ c ≠ 'X' ∧ Reference.hexDigit? c = none ∧ Text.isDigit c = false
  | named, named => True
  | named, resting => Text.isAlphanumeric c = false ∧ c ≠ '<'
  | resting, resting => c ≠ '<'
  | _, _ => False

theorem allows_none (level : Level) : level.Allows none := by cases level <;> exact trivial

theorem leads_named (c : Char) : named.Leads c named := trivial

theorem Allows.open {run : Text} (h : level.Allows (some (.named run))) : ';' ∉ run := by
  cases level with
  | resting => exact h.elim
  | _ => exact h

theorem Leads.less (leads : level.Leads c level') (less : c = '<') : level' ≠ .resting := by
  rintro rfl
  cases level with
  | any => exact leads
  | named => exact leads.2 less
  | resting => exact leads less

/-- A named reference that goes on stays allowed. -/
theorem Leads.allows {run : Text} (leads : level.Leads c level')
    (h : level.Allows (some (.named run))) (letter : Text.isAlphanumeric c = true)
    (other : c ≠ ';') : level'.Allows (some (.named (run ++ [c]))) := by
  have more : ';' ∉ run ++ [c] := by
    intro member
    rcases List.mem_append.mp member with member | member
    · exact h.open member
    · exact other (List.mem_singleton.mp member).symm
  cases level' with
  | resting =>
    cases level with
    | any => exact leads.elim
    | named =>
      have none := leads.1
      rw [letter] at none
      cases none
    | resting => exact h
  | _ => exact more

end Level

variable {s : Sentinel} {f g : Text → Nat} {c : Char} {extra : Nat} {level level' : Level}

/-- The weight of a text with the reference that goes on at its end. A named reference may turn out
to be literal text, so it weighs what is written of it. -/
def weigh (f : Text → Nat) (u : Text) : Option Reference → Nat
  | none => f u
  | some (.named run) => f (u ++ '&' :: run)
  | some ref => f (u ++ ref.finish false)

/-- Texts are known by their weight. -/
def weighing (f : Text → Nat) (level : Level) : Gauge where
  text state run m := level.Allows state.reference? ∧ (level = .resting → state = .data) ∧
    weigh f run state.reference? ≤ m
  ending _ run m := f run ≤ m
  part _ pending u m := level.Allows pending ∧ weigh f u pending ≤ m
  clean := True

theorem count_le_weigh (measure : s.Measure f) (u : Text) (pending : Option Reference) :
    s.count u ≤ weigh f u pending := by
  have more : ∀ rest, s.count u ≤ f (u ++ rest) := fun rest =>
    Nat.le_trans (s.count_le_append u rest) (measure.count _)
  cases pending with
  | none => exact measure.count u
  | some ref =>
    cases ref with
    | named run => exact more _
    | _ => exact more _

theorem sound_weighing (measure : s.Measure f) (level : Level) : (weighing f level).Sound s where
  text known := Nat.le_trans (count_le_weigh measure _ _) known.2.2
  ending known := Nat.le_trans (measure.count _) known
  part known := Nat.le_trans (count_le_weigh measure _ _) known.2
  begins _ := ⟨level.allows_none, by rw [weigh, measure.nil]⟩

/-- A character that adds so much at most to what texts weigh. -/
structure Adds (s : Sentinel) (f g : Text → Nat) (level level' : Level) (c : Char) (extra : Nat) :
    Prop where
  before : s.Measure f
  after : s.Measure g
  leads : level.Leads c level'
  append (u : Text) : g (u ++ [c]) ≤ f u + extra
  stay (u : Text) : g u ≤ f u + extra
  kept : State.kept c = c ∧ State.keptInName c = c
  plain : c ≠ '&' ∧ c ≠ ';' ∧ c ≠ '#' ∧ c ≠ '/'

section Adds

variable (adds : Adds s f g level level' c extra)

include adds

theorem first_eq (r : Reading) : r.first c = ([c], none) := by
  cases r with
  | verbatim => rw [Reading.first, adds.kept.1]
  | lowered => rw [Reading.first, adds.kept.2]
  | decoded inAttribute => rw [Reading.first, if_neg adds.plain.1, adds.kept.1]

/-- The outcomes of a reference at such a character. -/
theorem step_cases {ref : Reference} (allowed : level.Allows (some ref)) (inAttribute : Bool)
    (u : Text) : (∃ run, ref = .named run ∧ Text.isAlphanumeric c = true ∧
        ref.step inAttribute c = .more (.named (run ++ [c]))) ∨
      ∃ text, ref.step inAttribute c = .before text ∧ f (u ++ text) ≤ weigh f u (some ref) := by
  obtain ⟨_, notSemicolon, notHash, _⟩ := adds.plain
  cases ref with
  | named run =>
    rw [Reference.step, if_neg fun both => notHash both.2]
    by_cases letter : Text.isAlphanumeric c = true
    · exact .inl ⟨run, rfl, letter, by rw [if_pos letter]⟩
    · refine .inr ⟨_, by rw [if_neg letter, if_neg notSemicolon], ?_⟩
      exact adds.before.unterminated allowed.open u inAttribute (some c)
  | _ =>
    -- Numbers are allowed only where the character ends them.
    have leads := adds.leads
    cases level with
    | any =>
      cases level' with
      | named =>
        obtain ⟨small, capital, hex, digit⟩ := leads
        refine .inr ?_
        simp [Reference.step, small, capital, hex, digit, notSemicolon, weigh, Reference.finish]
      | _ => exact leads.elim
    | _ => exact allowed.elim

theorem weigh_take {r : Reading} {pending : Option Reference} (allowed : level.Allows pending)
    (u : Text) : level'.Allows (r.take pending c).2 ∧
      weigh g (u ++ (r.take pending c).1) (r.take pending c).2 ≤ weigh f u pending + extra := by
  cases pending with
  | none =>
    rw [Reading.take, first_eq adds]
    exact ⟨level'.allows_none, adds.append u⟩
  | some ref =>
    rcases step_cases adds allowed r.inAttribute u with
      ⟨run, rfl, letter, more⟩ | ⟨text, ends, bound⟩
    · rw [Reading.take_more more]
      refine ⟨adds.leads.allows allowed letter adds.plain.2.1, ?_⟩
      have whole := adds.append (u ++ '&' :: run)
      simp only [List.append_assoc, List.cons_append] at whole
      rw [List.append_nil]
      exact whole
    · have read := Reading.take_before ends
      rw [show r.take none c = ([c], none) from first_eq adds r] at read
      rw [read]
      refine ⟨level'.allows_none, ?_⟩
      have whole := adds.append (u ++ text)
      rw [List.append_assoc] at whole
      exact Nat.le_trans whole (Nat.add_le_add_right bound extra)

/-- Ordinary text that may go on with the character, after what else it is told of. -/
theorem text_stepData {run before u : Text} {next : State} {m : Nat} (known : f (run ++ before) ≤ m)
    (step : State.emitting (Token.characters before) (State.stepData c) =
      (next, Token.characters u)) :
    (weighing g level').text next (run ++ u) (m + extra) := by
  unfold State.stepData at step
  rw [if_neg adds.plain.1] at step
  split at step
  · rename_i less
    obtain ⟨rfl, same⟩ := Prod.mk.inj step
    rw [List.append_nil] at same
    rw [← Token.characters_inj same]
    refine ⟨level'.allows_none, fun resting => absurd resting (adds.leads.less less), ?_⟩
    exact Nat.le_trans (adds.stay _) (Nat.add_le_add_right known extra)
  · obtain ⟨rfl, same⟩ := Prod.mk.inj step
    have whole : Token.characters (before ++ [c]) = Token.characters u := by
      rw [Token.characters, List.map_append]
      exact same
    rw [← Token.characters_inj whole, ← List.append_assoc]
    refine ⟨level'.allows_none, fun _ => rfl, ?_⟩
    exact Nat.le_trans (adds.append _) (Nat.add_le_add_right known extra)

theorem text_stepTagOpen {run u : Text} {next : State} {m : Nat} (light : f run ≤ m)
    (step : State.stepTagOpen c = (next, Token.characters u)) (isText : next.IsText) :
    (weighing g level').text next (run ++ u) (m + extra) := by
  have known : f (run ++ ['<']) ≤ m := by
    have apart := adds.before.other (c := '<') (by decide) run []
    have count := adds.before.count run
    rw [adds.before.nil] at apart
    omega
  unfold State.stepTagOpen at step
  rw [if_neg adds.plain.2.2.2] at step
  split at step
  · exact (isText.of_step step).elim
  · split at step
    · exact (isText.of_step step).elim
    · split at step
      · exact (isText.of_step step).elim
      · exact text_stepData adds known step

theorem text_stepEndTagOpen {run u : Text} {next : State} {m : Nat} (light : f run ≤ m)
    (step : State.stepEndTagOpen c = (next, Token.characters u)) (isText : next.IsText) :
    (weighing g level').text next (run ++ u) (m + extra) := by
  unfold State.stepEndTagOpen at step
  split at step
  · exact (isText.of_step step).elim
  · split at step
    · obtain ⟨rfl, same⟩ := Prod.mk.inj step
      obtain rfl : u = [] := List.map_eq_nil_iff.mp same.symm
      rw [List.append_nil]
      exact ⟨level'.allows_none, fun _ => rfl,
        Nat.le_trans (adds.stay run) (Nat.add_le_add_right light extra)⟩
    · rename_i other
      rw [State.stepBogusComment, if_neg other] at step
      exact (isText.of_step step).elim

theorem text_stepReference {ref : Reference} {run u : Text} {next : State} {m : Nat}
    (allowed : level.Allows (some ref)) (known : weigh f run (some ref) ≤ m)
    (step : State.stepReference .data ref c = (next, Token.characters u)) :
    (weighing g level').text next (run ++ u) (m + extra) := by
  unfold State.stepReference at step
  simp only [ReferenceTarget.inAttribute] at step
  rcases step_cases adds allowed false run with ⟨name, rfl, letter, more⟩ | ⟨text, ends, light⟩
  · rw [more] at step
    obtain ⟨rfl, same⟩ := Prod.mk.inj step
    obtain rfl : u = [] := List.map_eq_nil_iff.mp same.symm
    have whole := weigh_take adds (r := .decoded false) allowed run
    rw [Reading.take_more (r := .decoded false) more] at whole
    refine ⟨whole.1, fun resting => ?_, Nat.le_trans whole.2 (Nat.add_le_add_right known extra)⟩
    have none := whole.1
    rw [resting] at none
    exact none.elim
  · rw [ends] at step
    exact text_stepData adds (Nat.le_trans light known) step

theorem text_step {state next : State} {run u : Text} {m : Nat} (isText : state.IsText)
    (known : (weighing f level).text state run m)
    (step : state.step c = (next, Token.characters u)) (isText' : next.IsText) :
    (weighing g level').text next (run ++ u) (m + extra) := by
  obtain ⟨allowed, _, bound⟩ := known
  cases state with
  | data =>
    have known : f (run ++ []) ≤ m := by
      rw [List.append_nil]
      exact bound
    exact text_stepData adds known step
  | tagOpen => exact text_stepTagOpen adds bound step isText'
  | endTagOpen => exact text_stepEndTagOpen adds bound step isText'
  | reference target ref =>
    cases target with
    | data => exact text_stepReference adds allowed bound step
    | _ => exact isText.elim
  | _ => exact isText.elim

theorem passes_weighing : Passes s (weighing f level) (weighing g level') c extra where
  before := sound_weighing adds.before level
  after := sound_weighing adds.after level'
  text isText known step isText' := text_step adds isText known step isText'
  opens _ known _ := Nat.le_trans (adds.stay _) (Nat.add_le_add_right known.2.2 extra)
  ending known _ := Nat.le_trans (adds.stay _) (Nat.add_le_add_right known extra)
  closes _ _ _ known _ :=
    ⟨level'.allows_none, fun _ => rfl,
      Nat.le_trans (adds.stay _) (Nat.add_le_add_right known extra)⟩
  begins _ := ⟨level'.allows_none, fun _ => rfl, Nat.le_of_eq adds.after.nil⟩
  part known := by
    obtain ⟨allowed, bound⟩ := weigh_take adds known.1 _
    exact ⟨allowed, Nat.le_trans bound (Nat.add_le_add_right known.2 extra)⟩
  clean _ := trivial

end Adds

/-! ## Reading a marker -/

section Marker

variable {l : Ledger} {bound m : Nat} {state : State} {u : Text}

/-- A text of characters that all do the same. -/
theorem holds_text (adds : ∀ c ∈ u, Adds s f f level level c 0)
    (h : Holds s (weighing f level) l bound state) :
    Holds s (weighing f level) (l.addAll s (state.emitted u)) bound (state.after u) := by
  induction u generalizing l state with
  | nil => exact h
  | cons c u ih =>
    have first := holds_step (passes_weighing (adds c List.mem_cons_self)) h
    have later := ih (fun d member => adds d (List.mem_cons_of_mem c member)) first
    rw [← Ledger.addAll_append] at later
    exact later

/-- A character of markers and of what is put around them. -/
structure Marking (c : Char) : Prop where
  kept : State.kept c = c ∧ State.keptInName c = c
  plain : c ≠ '&' ∧ c ≠ ';' ∧ c ≠ '#' ∧ c ≠ '/'

theorem marking_of_inert (inert : Sentinel.Inert c) : Marking c := by
  have other : ∀ d ∈ ['&', ';', '#', '/', State.null], c ≠ d := inert.ne_of_mem (by decide)
  have notNull : c ≠ State.null := other _ (by simp)
  have small : Text.lowerChar c = c := by
    rw [Text.lowerChar, if_neg]
    intro capital
    have none := Text.of_isCapital capital (p := fun c => decide (¬ Sentinel.Inert c)) (by decide)
    exact of_decide_eq_true none inert
  exact ⟨⟨if_neg notNull, by rw [State.keptInName, if_neg notNull, small]⟩, other _ (by simp),
    other _ (by simp), other _ (by simp), other _ (by simp)⟩

/-- A character outside tokens adds nothing. -/
theorem adds_count (other : isTokenLetter c = false) (leads : level.Leads c level')
    (marking : Marking c) : Adds s s.count s.count level level' c 0 where
  before := s.measure_count
  after := s.measure_count
  leads := leads
  append u := by
    rw [s.count_other u other]
    exact Nat.le_refl _
  stay _ := Nat.le_refl _
  kept := marking.kept
  plain := marking.plain

/-- Only an `h` adds to what texts are worth. -/
theorem adds_worth (other : c ≠ 'h') (leads : level.Leads c level') (marking : Marking c) :
    Adds s s.worth s.worth level level' c 0 where
  before := s.measure_worth
  after := s.measure_worth
  leads := leads
  append u := s.worth_append other u
  stay _ := Nat.le_refl _
  kept := marking.kept
  plain := marking.plain

theorem adds_h (leads : level.Leads 'h' level') : Adds s s.count s.worth level level' 'h' 1 where
  before := s.measure_count
  after := s.measure_worth
  leads := leads
  append u := s.worth_h u
  stay u := s.worth_le u
  kept := by decide
  plain := by decide

/-- Something that may stand before a marker. -/
def IsLead (lead : Text) : Prop := lead = [] ∨ lead = ['"'] ∨ lead = ['<', '!', '-', '-']

theorem holds_lead {lead : Text} (isLead : IsLead lead)
    (h : Holds s (weighing s.count .any) l bound state) : ∃ level : Level, level.Leads 'h' .named ∧
      Holds s (weighing s.count level) (l.addAll s (state.emitted lead)) bound
        (state.after lead) := by
  have first : ∀ {c rest}, isTokenLetter c = false → Level.any.Leads c .named → Marking c →
      (∀ d ∈ rest, isTokenLetter d = false ∧ Marking d) →
      Holds s (weighing s.count .named) (l.addAll s (state.emitted (c :: rest))) bound
        (state.after (c :: rest)) := by
    intro c rest other leads marking others
    have begun := holds_step (passes_weighing (adds_count other leads marking)) h
    have later := holds_text (fun d member => adds_count (others d member).1
      (Level.leads_named d) (others d member).2) begun
    rw [← Ledger.addAll_append] at later
    exact later
  rcases isLead with rfl | rfl | rfl
  · exact ⟨.any, by simp only [Level.Leads]; decide, h⟩
  · refine ⟨.named, Level.leads_named 'h', first (by decide) (by simp only [Level.Leads]; decide)
      ⟨by decide, by decide⟩ ?_⟩
    exact fun d member => absurd member List.not_mem_nil
  · refine ⟨.named, Level.leads_named 'h', first (by decide) (by simp only [Level.Leads]; decide)
      ⟨by decide, by decide⟩ ?_⟩
    intro d member
    have known : d = '!' ∨ d = '-' := by simpa using member
    rcases known with rfl | rfl <;> exact ⟨by decide, by decide, by decide⟩

/-- Wherever the tokenizer is, no more than one token is found on account of a marker, and the texts
that go on after it are not worth more either. -/
theorem holds_marker (slot : Nat) {lead tail : Text} (isLead : IsLead lead)
    (isEdge : Sentinel.IsEdge tail) (h : Holds s (weighing s.count .any) l bound state) :
    Holds s (weighing s.worth .resting)
      (l.addAll s (state.emitted (lead ++ (s.attributeMarker slot ++ tail)))) (bound + 1)
      (state.after (lead ++ (s.attributeMarker slot ++ tail))) := by
  obtain ⟨letters, token, _, other⟩ := s.exists_tail
  obtain ⟨level, leads, begun⟩ := holds_lead isLead h
  have opened := holds_step (passes_weighing (adds_h leads)) begun
  have named := holds_text (u := letters) (fun c member => adds_worth (other c member).2
    (Level.leads_named c) (marking_of_inert (.inl (other c member).1))) opened
  have rests : Level.named.Leads ':' .resting := ⟨by decide, by decide⟩
  have colon := holds_step (passes_weighing (adds_worth (by decide) rests
    (marking_of_inert (.inr rfl)))) named
  have ends : ∀ c ∈ Text.ofNat slot ++ tail, Adds s s.worth s.worth .resting .resting c 0 := by
    intro c member
    rcases List.mem_append.mp member with member | member
    · have digit := Text.isDigit_of_mem_ofNat member
      refine adds_worth ?_ ?_ (marking_of_inert (.inl ?_))
      · rintro rfl
        exact absurd digit (by decide)
      · rintro rfl
        exact absurd digit (by decide)
      · rw [isTokenLetter, digit]
        rfl
    · rcases isEdge with rfl | rfl | rfl
      · cases member
      · rw [List.mem_singleton.mp member]
        exact adds_worth (by decide) (by simp only [Level.Leads]; decide) ⟨by decide, by decide⟩
      · have known : c = '-' ∨ c = '>' := by simpa using member
        rcases known with rfl | rfl <;>
          exact adds_worth (by decide) (by simp only [Level.Leads]; decide) ⟨by decide, by decide⟩
  have last := holds_text ends colon
  have whole : lead ++ (s.attributeMarker slot ++ tail) =
      lead ++ 'h' :: (letters ++ ':' :: (Text.ofNat slot ++ tail)) := by
    simp only [Sentinel.attributeMarker, token, List.cons_append, List.append_assoc]
  rw [whole]
  simpa only [State.emitted_append, State.after_append, State.emitted, State.after,
    Ledger.addAll_append, Nat.add_zero] using last

/-! ## The end of the input -/

theorem finish_of_tag? {tag : Tag} (h : state.tag? = some tag) : state.finish = [] := by
  rcases State.tag?_cases h with outside | ⟨name, quote, v, position, rfl⟩
  · cases outside <;> rfl
  · cases position <;> rfl

/-- A reference that the input ends in weighs no more than it did. -/
theorem count_finish_le {ref : Reference} (allowed : level.Allows (some ref)) (run : Text) :
    s.count (run ++ ref.finish false) ≤ weigh s.count run (some ref) := by
  cases ref with
  | named name => exact s.measure_count.unterminated allowed.open run false none
  | _ => exact Nat.le_refl _

/-- The end of the input in ordinary text. -/
theorem finish_text (isText : state.IsText) (known : (weighing s.count .any).text state u m) :
    ∃ v, state.finish = Token.characters v ∧ s.count (u ++ v) ≤ m := by
  obtain ⟨allowed, _, light⟩ := known
  cases state with
  | data => exact ⟨[], rfl, by rw [List.append_nil]; exact light⟩
  | tagOpen =>
    refine ⟨['<'], rfl, ?_⟩
    rw [s.count_other _ (by decide)]
    exact light
  | endTagOpen =>
    have slash : s.count ['/'] = 0 := s.count_other [] (by decide) []
    refine ⟨['<', '/'], rfl, ?_⟩
    rw [s.count_other _ (by decide), slash]
    exact light
  | reference target ref =>
    cases target with
    | data => exact ⟨_, rfl, Nat.le_trans (count_finish_le allowed u) light⟩
    | _ => exact isText.elim
  | _ => exact isText.elim

/-- The end of the input in content without tags. -/
theorem finish_raw {content : RawContent} {pending : Option Reference} {held : Text}
    (isRaw : state.Raw content pending held)
    (known : (weighing s.count .any).part content.reading pending (u ++ held) m) :
    ∃ v, state.finish = Token.characters v ∧ s.count (u ++ v) ≤ m := by
  obtain ⟨allowed, light⟩ := known
  cases isRaw with
  | plain => exact ⟨[], rfl, light⟩
  | less => exact ⟨['<'], rfl, light⟩
  | endOpen => exact ⟨['<', '/'], rfl, light⟩
  | endName => exact ⟨_, rfl, light⟩
  | reference element ref =>
    rw [List.append_nil] at light
    exact ⟨_, rfl, Nat.le_trans (count_finish_le allowed u) light⟩

/-- The end of the input completes no more tokens than are accounted for. -/
theorem total_finish_le (h : Holds s (weighing s.count .any) l bound state) :
    (l.addAll s state.finish).total s ≤ bound := by
  have characters : ∀ {m}, (∃ v, state.finish = Token.characters v ∧ s.count (l.run ++ v) ≤ m) →
      l.done + m ≤ bound → (l.addAll s state.finish).total s ≤ bound := by
    rintro m ⟨v, same, count⟩ h
    rw [same, Ledger.addAll_characters, Ledger.total]
    exact Nat.le_trans (Nat.add_le_add_left count _) h
  have nothing : state.finish = [] → l.total s ≤ bound →
      (l.addAll s state.finish).total s ≤ bound := by
    intro none h
    rw [none]
    exact h
  have comment : ∀ {v : Text}, l.total s + s.count v ≤ bound →
      (l.addAll s [.comment v]).total s ≤ bound := fun h => h
  cases h with
  | text isText known h => exact characters (finish_text isText known) h
  | raw isRaw _ known h => exact characters (finish_raw isRaw known) h
  | ending reading _ known h =>
    exact nothing (finish_of_tag? reading) (Nat.le_trans (Nat.add_le_add_left known _) h)
  | rawEnding reading _ _ _ h => exact nothing (finish_of_tag? reading) h
  | opening outside _ _ h =>
    exact nothing (finish_of_tag? outside.tag?) (Nat.le_trans (Nat.le_add_right _ _) h)
  | value _ _ h =>
    refine nothing (finish_of_tag? (State.tag?_inValue _ _ _ _ _)) ?_
    omega
  | remark isRemark known h =>
    have light := known.2
    cases isRemark with
    | declaration => exact comment (Nat.le_trans (Nat.add_le_add_left light _) h)
    | bogus => exact comment (Nat.le_trans (Nat.add_le_add_left light _) h)
    | comment phase v =>
      have part := s.count_le_append v phase.pending
      have whole : s.count (v ++ phase.pending) ≤ _ := light
      exact comment (by omega)
  | doctype _ h => exact h
  | doctypeName known h => exact Nat.le_trans (Nat.add_le_add_left known.2 _) h

end Marker

end Gauge

end HtmlTemplate
