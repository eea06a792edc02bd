import HtmlTemplate.Proofs.Markup.Follow

/-!
# Attribute values

An attribute value goes on up to the first character that ends values of its kind. What is read up
to there is spelled by what is written, and it does not depend on the tag and on what the value
began with (`read_inValue`).
-/

namespace HtmlTemplate

/-- No reference goes on at a character that ends attribute values. -/
theorem Reference.step_of_ends (ref : Reference) {quote : Quote} {c : Char}
    (ends : quote.ends c = true) : ∃ text, ref.step true c = .before text := by
  have none : ∀ c ∈ Quote.marks, c ≠ '#' ∧ c ≠ ';' ∧ c ≠ 'x' ∧ c ≠ 'X' ∧
      Text.isAlphanumeric c = false ∧ Text.isDigit c = false ∧ hexDigit? c = Option.none :=
    List.all_iff_forall_prop.mp (by decide)
  obtain ⟨hash, semicolon, small, capital, letter, digit, hex⟩ := none c (Quote.mem_marks ends)
  cases ref <;> simp [step, hash, semicolon, small, capital, letter, digit, hex]

namespace State

/-- In the value of an attribute, and maybe in a character reference there. -/
def inValue (tag : Tag) (name : Text) (quote : Quote) (v : Text) : Option Reference → State
  | none => value tag name quote v
  | some ref => reference (.value tag name quote v) ref

/-- What has been written of the reference that is being read. -/
inductive Pending : Option Reference → Text → Prop
  | literal : Pending none []
  | reference {ref : Reference} {r : Text} : ref.Written r → Pending (some ref) ('&' :: r)

variable {quote : Quote} {position : Option Reference} {pending : Text} {c : Char}

/-! ## Steps -/

/-- A value goes on with some more text. -/
def GoesOn (quote : Quote) (position : Option Reference) (pending text : Text) : Prop :=
  ∃ read u position' pending', pending ++ text = read ++ pending' ∧ Spells false read u ∧
    Pending position' pending' ∧ ∀ tag name v,
      after (inValue tag name quote v position) text =
          inValue tag name quote (v ++ u) position' ∧
        emitted (inValue tag name quote v position) text = []

theorem GoesOn.of_step {u : Text} {position' : Option Reference} (read pending' : Text)
    (split : pending ++ [c] = read ++ pending') (spelled : Spells false read u)
    (written : Pending position' pending')
    (next : ∀ tag name v, step (inValue tag name quote v position) c =
      (inValue tag name quote (v ++ u) position', [])) :
    GoesOn quote position pending [c] :=
  ⟨read, u, position', pending', split, spelled, written, fun tag name v =>
    ⟨by rw [after, after, next], by rw [emitted, emitted, next, List.append_nil]⟩⟩

theorem goesOn_value (other : quote.ends c = false) : GoesOn quote none [] [c] := by
  by_cases ampersand : c = '&'
  · subst ampersand
    refine .of_step [] ['&'] rfl .nil (.reference (.named [])) fun tag name v => ?_
    rw [List.append_nil]
    rfl
  · refine .of_step [c] [] rfl (.kept c) .literal fun tag name v => ?_
    have next := stepValue_eq tag name quote v ampersand
    rw [other] at next
    exact next

/-- A reference that ends before a character leaves it to the value. -/
theorem step_inValue_before {ref : Reference} {text : Text} (h : ref.step true c = .before text)
    (tag : Tag) (name v : Text) : step (inValue tag name quote v (some ref)) c =
      step (inValue tag name quote (v ++ text) none) c := by
  show stepReference (.value tag name quote v) ref c = _
  rw [stepReference, ReferenceTarget.inAttribute, h]
  rfl

theorem goesOn_step (h : Pending position pending) (other : quote.ends c = false) :
    GoesOn quote position pending [c] := by
  cases h with
  | literal => exact goesOn_value other
  | @reference ref r written =>
    have outcome : (ref.step true c).Spelled false r c := written.step true c
    cases result : ref.step true c with
    | more ref' =>
      rw [result] at outcome
      refine .of_step [] ('&' :: (r ++ [c])) rfl .nil (.reference outcome) fun tag name v => ?_
      show stepReference (.value tag name quote v) ref c = _
      rw [List.append_nil, stepReference, ReferenceTarget.inAttribute, result]
      rfl
    | done text =>
      rw [result] at outcome
      refine .of_step ('&' :: (r ++ [c])) [] (List.append_nil _).symm outcome .literal
        fun tag name v => ?_
      show stepReference (.value tag name quote v) ref c = _
      rw [stepReference, ReferenceTarget.inAttribute, result]
      rfl
    | before text =>
      rw [result] at outcome
      obtain ⟨read, u, position', pending', split, spelled, later, next⟩ := goesOn_value other
      refine ⟨'&' :: r ++ read, text ++ u, position', pending', ?_, outcome.append spelled, later,
        fun tag name v => ?_⟩
      · rw [List.append_assoc, ← split]
        rfl
      · have first : step (inValue tag name quote v (some ref)) c = _ :=
          step_inValue_before result tag name v
        obtain ⟨last, silent⟩ := next tag name (v ++ text)
        rw [after] at last
        rw [emitted] at silent
        rw [after, emitted, first, ← List.append_assoc]
        exact ⟨last, silent⟩

/-- A value ends at a character that ends it. -/
theorem leave_inValue (h : Pending position pending) (ends : quote.ends c = true) :
    ∃ u, Spells false pending u ∧ ∀ tag name v, step (inValue tag name quote v position) c =
      leaveValue (tag.withAttribute name (v ++ u)) quote c := by
  have literal : c ≠ '&' := by
    rintro rfl
    exact absurd (Quote.mem_marks ends) (by decide)
  have leaves : ∀ tag name v, step (inValue tag name quote v none) c =
      leaveValue (tag.withAttribute name v) quote c := by
    intro tag name v
    have next := stepValue_eq tag name quote v literal
    rw [ends] at next
    exact next
  cases h with
  | literal =>
    refine ⟨[], .nil, fun tag name v => ?_⟩
    rw [List.append_nil, leaves]
  | @reference ref r written =>
    obtain ⟨text, result⟩ := ref.step_of_ends ends
    have outcome : (ref.step true c).Spelled false r c := written.step true c
    rw [result] at outcome
    refine ⟨text, outcome, fun tag name v => ?_⟩
    rw [step_inValue_before result, leaves]

/-! ## Texts -/

theorem goesOn_of_not_ends (h : Pending position pending) {text : Text}
    (none : ∀ c ∈ text, quote.ends c = false) : GoesOn quote position pending text := by
  induction text generalizing position pending with
  | nil =>
    refine ⟨[], [], position, pending, List.append_nil _, .nil, h, fun tag name v => ⟨?_, rfl⟩⟩
    rw [List.append_nil]
    rfl
  | cons c text ih =>
    obtain ⟨read, u, position', pending', split, spelled, later, next⟩ :=
      goesOn_step h (none c List.mem_cons_self)
    obtain ⟨read', u', position'', pending'', split', spelled', last, rest⟩ :=
      ih later fun d member => none d (List.mem_cons_of_mem c member)
    refine ⟨read ++ read', u ++ u', position'', pending'', ?_, spelled.append spelled', last,
      fun tag name v => ?_⟩
    · have whole : pending ++ [c] ++ text = read ++ pending' ++ text := by rw [split]
      rw [List.append_assoc, List.append_assoc, split'] at whole
      rw [List.append_assoc]
      exact whole
    · obtain ⟨first, silent⟩ := next tag name v
      obtain ⟨last, silent'⟩ := rest tag name (v ++ u)
      rw [← List.singleton_append, after_append, emitted_append, first, silent, last, silent',
        List.append_assoc]
      exact ⟨rfl, rfl⟩

theorem finish_inValue (tag : Tag) (name : Text) (quote : Quote) (v : Text)
    (position : Option Reference) : finish (inValue tag name quote v position) = [] := by
  cases position <;> rfl

/-- No token comes while a value goes on. -/
theorem run_inValue (h : Pending position pending) {text : Text}
    (none : ∀ c ∈ text, quote.ends c = false) (tag : Tag) (name v : Text) :
    run (inValue tag name quote v position) text = [] := by
  obtain ⟨_, u, position', _, _, _, _, next⟩ := goesOn_of_not_ends h none
  have whole := run_append (inValue tag name quote v position) text []
  rw [List.append_nil, (next tag name v).1, (next tag name v).2, run, finish_inValue] at whole
  exact whole

/-- A value is read up to the first character that ends it. -/
theorem read_inValue (h : Pending position pending) {text : Text}
    (none : ∀ c ∈ text, quote.ends c = false) (ends : quote.ends c = true) :
    ∃ u, Spells false (pending ++ text) u ∧ ∀ tag name v rest,
      run (inValue tag name quote v position) (text ++ c :: rest) =
        (leaveValue (tag.withAttribute name (v ++ u)) quote c).2 ++
          run (leaveValue (tag.withAttribute name (v ++ u)) quote c).1 rest := by
  obtain ⟨read, u, position', pending', split, spelled, later, next⟩ := goesOn_of_not_ends h none
  obtain ⟨u', spelled', leaves⟩ := leave_inValue later ends
  refine ⟨u ++ u', ?_, fun tag name v rest => ?_⟩
  · rw [split]
    exact spelled.append spelled'
  · rw [run_append, (next tag name v).1, (next tag name v).2, run, leaves, List.append_assoc]
    rfl

/-- Characters that begin no reference are read as they are kept. -/
theorem run_value_literal {u : Text} (plain : ∀ c ∈ u, quote.ends c = false ∧ c ≠ '&' ∧ kept c = c)
    (tag : Tag) (name v rest : Text) :
    run (value tag name quote v) (u ++ rest) = run (value tag name quote (v ++ u)) rest := by
  induction u generalizing v with
  | nil => rw [List.append_nil]; rfl
  | cons c u ih =>
    obtain ⟨other, literal, same⟩ := plain c List.mem_cons_self
    have next := stepValue_eq tag name quote v literal
    rw [other, same] at next
    have whole := ih (fun d member => plain d (List.mem_cons_of_mem c member)) (v ++ [c])
    rw [List.append_assoc] at whole
    rw [List.cons_append, run, step, next]
    exact whole

theorem run_value_mark (ends : quote.ends c = true) (tag : Tag) (name v rest : Text) :
    run (value tag name quote v) (c :: rest) =
      (leaveValue (tag.withAttribute name v) quote c).2 ++
        run (leaveValue (tag.withAttribute name v) quote c).1 rest := by
  have literal : c ≠ '&' := by
    rintro rfl
    exact absurd (Quote.mem_marks ends) (by decide)
  have next := stepValue_eq tag name quote v literal
  rw [if_pos ends] at next
  rw [run, step, next]

end State

/-! ## On a trail -/

theorem Follows.inValue {o : Origin} {g : Gathered} {data : List Datum} {input : Text} {tag : Tag}
    {name v : Text} {quote : Quote} {position : Option Reference}
    (h : Follows o g data input (State.inValue tag name quote v position)) :
    ∃ pending, State.Pending position pending ∧
      Aside o (g.whole ++ tag.values) data input v pending := by
  cases position with
  | none => exact ⟨[], .literal, h⟩
  | some ref =>
    obtain ⟨r, written, aside⟩ := h
    exact ⟨'&' :: r, .reference written, aside⟩

end HtmlTemplate
