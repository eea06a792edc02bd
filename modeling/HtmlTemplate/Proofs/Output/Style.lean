import HtmlTemplate.Proofs.Output.Once
import HtmlTemplate.Proofs.Text.Pattern
import HtmlTemplate.Proofs.Text.Runs

/-!
# Style objects

An object in a `style` attribute is written as its declarations in order (`Style.sheet`). The name
of a property is rewritten run by run, which is what replacing all humps in it comes to: each run of
capitals that does not start the name is written in small letters after a hyphen
(`Style.rewritten`). A number has a unit unless the name of the property has a place that the
pattern of the names without units matches (`Style.nonDimensional`). The declarations are escaped
once, as a whole (`Slot.style_declarations`).
-/

namespace HtmlTemplate

namespace Style

open Text (isCapital lowerChar runsOf)

variable {key capitals plain run rest s : Text} {c : Char}

/-! ## Names run by run -/

/-- A run of capitals in small letters after a hyphen. -/
def hump (run : Text) : Text := if run.any isCapital then '-' :: Text.lower run else run

/-- The name with every run of capitals but one at its start in small letters after a hyphen. -/
def rewritten (key : Text) : Text :=
  match runsOf isCapital key with
  | [] => []
  | first :: others => first ++ others.flatMap hump

theorem hump_of_capitals (some : run ≠ []) (all : ∀ c ∈ run, isCapital c = true) :
    hump run = '-' :: Text.lower run := by
  obtain ⟨c, run, rfl⟩ := List.exists_cons_of_ne_nil some
  rw [hump, List.any_cons, all c List.mem_cons_self]
  rfl

theorem hump_of_plain (small : ∀ c ∈ run, isCapital c = false) : hump run = run := by
  have none : run.any isCapital = false :=
    List.any_eq_false.mpr fun c member => by simp [small c member]
  rw [hump, none]
  rfl

theorem humps_eq_scan (inRun : Bool) (s : Text) :
    humps inRun s =
      Text.scan isCapital (fun c => ['-', lowerChar c]) (fun c => [lowerChar c]) inRun s := by
  induction s generalizing inRun with
  | nil => rfl
  | cons c s ih =>
    rw [humps, Text.scan, ih, ih]
    cases isCapital c <;> cases inRun <;> rfl

theorem humps_eq_flatMap (s : Text) : humps false s = (runsOf isCapital s).flatMap hump := by
  rw [humps_eq_scan]
  apply Text.scan_eq_flatMap
  · intro c run all
    rw [hump_of_capitals (List.cons_ne_nil c run) all, ← List.map_eq_flatMap]
    rfl
  · intro run small
    exact hump_of_plain small

theorem humps_of_plain (small : ∀ c ∈ s, isCapital c = false) : humps false s = s := by
  rw [humps_eq_scan, ← List.append_nil s, Text.scan_of_plain small, Text.scan]

theorem hyphenate_append (all : ∀ c ∈ capitals, isCapital c = true)
    (begins : ∀ c ∈ s.head?, isCapital c = false) :
    hyphenate (capitals ++ s) = capitals ++ (runsOf isCapital s).flatMap hump := by
  have none : s.takeWhile isCapital = [] ∧ s.dropWhile isCapital = s := by
    cases s with
    | nil => exact ⟨rfl, rfl⟩
    | cons c s =>
      have first : ¬ isCapital c = true := by simp [begins c rfl]
      exact ⟨List.takeWhile_cons_of_neg first, List.dropWhile_cons_of_neg first⟩
  rw [hyphenate, List.takeWhile_append_of_pos all, List.dropWhile_append_of_pos all, none.1, none.2,
    List.append_nil, humps_eq_flatMap]

theorem hyphenate_eq_rewritten (key : Text) : hyphenate key = rewritten key := by
  induction key using Text.runs_induction isCapital with
  | nil => rfl
  | append b run rest some even apart _ =>
    rw [rewritten, Text.runsOf_append some even apart]
    cases b with
    | true => exact hyphenate_append even apart
    | false =>
      have begins : ∀ c ∈ (run ++ rest).head?, isCapital c = false :=
        Text.forall_head?_append some even
      have whole := hyphenate_append (List.forall_mem_nil _) begins
      rw [List.nil_append, List.nil_append, Text.runsOf_append some even apart, List.flatMap_cons,
        hump_of_plain even] at whole
      exact whole

theorem not_isCapital_lowerChar (c : Char) : isCapital (lowerChar c) = false := by
  by_cases capital : isCapital c = true
  · have small := Text.of_isCapital capital (p := fun c => !isCapital (lowerChar c)) (by decide)
    simpa using small
  · rw [lowerChar, if_neg capital]
    simpa using capital

theorem not_isCapital_of_mem_humps {inRun : Bool} (member : c ∈ humps inRun s) :
    isCapital c = false := by
  induction s generalizing inRun with
  | nil => cases member
  | cons d s ih =>
    rw [humps] at member
    split at member
    · have inside : c = '-' ∨ c = lowerChar d ∨ c ∈ humps true s := by
        cases inRun
        · simpa using member
        · exact .inr (by simpa using member)
      rcases inside with rfl | rfl | later
      · rfl
      · exact not_isCapital_lowerChar d
      · exact ih later
    · rename_i small
      rcases List.mem_cons.mp member with rfl | later
      · simpa using small
      · exact ih later

/-- A name that was rewritten stays as it is. -/
theorem hyphenate_hyphenate (key : Text) : hyphenate (hyphenate key) = hyphenate key := by
  obtain ⟨capitals, s, rfl, all, begins⟩ := Text.exists_front isCapital key
  have small : ∀ c ∈ humps false s, isCapital c = false := fun c => not_isCapital_of_mem_humps
  rw [hyphenate_append all begins, ← humps_eq_flatMap, hyphenate_append all
    fun c head => small c (List.mem_of_head? head), ← humps_eq_flatMap, humps_of_plain small]

/-! ## Names by replacement -/

/-- A hump: a character that is no capital, and capitals behind it. -/
def camelHump : Pattern := .next (.one fun c => !isCapital c) (.many isCapital)

/-- A hump as it is to be: the capitals in small letters after a hyphen. -/
def hyphened : Text → Text
  | [] => []
  | c :: capitals => c :: '-' :: Text.lower capitals

theorem matches_camelHump {before found after : Text} : camelHump.Matches before found after ↔
    ∃ c run, found = c :: run ∧ isCapital c = false ∧ run ≠ [] ∧ ∀ d ∈ run, isCapital d = true := by
  constructor
  · rintro ⟨front, run, rfl, ⟨c, rfl, small⟩, some, all⟩
    exact ⟨c, run, rfl, by simpa using small, some, all⟩
  · rintro ⟨c, run, rfl, small, some, all⟩
    exact ⟨[c], run, rfl, ⟨c, rfl, by simp [small]⟩, some, all⟩

/-- Where only the capitals at the start of a text are behind it, nothing is a hump. -/
theorem not_isCapital_of_append {front : Text} {d : Char} (all : ∀ e ∈ capitals, isCapital e = true)
    (small : ∀ e ∈ plain, isCapital e = false) (same : capitals ++ plain = front ++ c :: d :: rest)
    (other : isCapital c = false) : isCapital d = false := by
  induction capitals generalizing front with
  | nil =>
    apply small d
    rw [List.nil_append] at same
    rw [same]
    simp
  | cons e capitals ih =>
    obtain ⟨first, later⟩ := List.forall_mem_cons.mp all
    cases front with
    | nil =>
      rw [(List.cons.inj same).1, other] at first
      cases first
    | cons _ front => exact ih later (List.cons.inj same).2

theorem finds_camelHump {seen : Text} (all : ∀ e ∈ capitals, isCapital e = true)
    (small : ∀ e ∈ plain ++ [c], isCapital e = false) (some : run ≠ [])
    (held : ∀ e ∈ run, isCapital e = true) (ends : ∀ e ∈ rest.head?, isCapital e = false) :
    camelHump.Finds seen (capitals ++ plain) (c :: run) rest where
  fits := matches_camelHump.mpr ⟨c, run, rfl, small c (by simp), some, held⟩
  leftmost := by
    intro front part after whole fits
    obtain ⟨d, more, rfl, other, some, capital⟩ := matches_camelHump.mp fits
    obtain ⟨e, more, rfl⟩ := List.exists_cons_of_ne_nil some
    apply Nat.le_of_not_lt
    intro shorter
    -- the two characters lie before the run of capitals
    have here : front ++ [d, e] <+: capitals ++ plain ++ (c :: run ++ rest) :=
      ⟨more ++ after, by rw [whole]; simp⟩
    have there : capitals ++ (plain ++ [c]) <+: capitals ++ plain ++ (c :: run ++ rest) :=
      ⟨run ++ rest, by simp⟩
    have size : (front ++ [d, e]).length ≤ (capitals ++ (plain ++ [c])).length := by
      simp only [List.length_append, List.length_cons, List.length_nil] at shorter ⊢
      omega
    obtain ⟨later, inside⟩ := List.prefix_of_prefix_length_le here there size
    have same : capitals ++ (plain ++ [c]) = front ++ d :: e :: later := by
      rw [← inside]
      simp
    have low : isCapital e = false := not_isCapital_of_append all small same other
    rw [capital e List.mem_cons_self] at low
    cases low
  longest := by
    intro part after whole fits
    obtain ⟨d, more, rfl, _, _, capital⟩ := matches_camelHump.mp fits
    rcases List.append_eq_append_iff.mp (List.cons.inj whole).2 with
      ⟨extra, rfl, behind⟩ | ⟨less, rfl, _⟩
    · cases extra with
      | nil => simp
      | cons e extra =>
        have low : isCapital e = false := ends e (by rw [behind]; rfl)
        rw [capital e (by simp)] at low
        cases low
    · simp

theorem hyphenate_hump (all : ∀ e ∈ capitals, isCapital e = true)
    (small : ∀ e ∈ plain ++ [c], isCapital e = false) (some : run ≠ [])
    (held : ∀ e ∈ run, isCapital e = true) (ends : ∀ e ∈ rest.head?, isCapital e = false) :
    hyphenate (capitals ++ plain ++ (c :: run ++ rest)) =
      capitals ++ plain ++ (hyphened (c :: run) ++ hyphenate rest) := by
  have others : hyphenate rest = (runsOf isCapital rest).flatMap hump :=
    hyphenate_append (List.forall_mem_nil _) ends
  have follows : ∀ e ∈ (run ++ rest).head?, isCapital e = true := Text.forall_head?_append some held
  have begins : ∀ e ∈ (plain ++ [c] ++ (run ++ rest)).head?, isCapital e = false :=
    Text.forall_head?_append (by simp) small
  have parts : capitals ++ plain ++ (c :: run ++ rest) =
      capitals ++ (plain ++ [c] ++ (run ++ rest)) := by
    simp
  rw [parts, hyphenate_append all begins, Text.runsOf_append (by simp) small follows,
    Text.runsOf_append some held ends, List.flatMap_cons, List.flatMap_cons, hump_of_plain small,
    hump_of_capitals some held, others]
  simp [hyphened]

/-- Behind the capitals at its start a name has no capitals, or it has a first hump. -/
theorem first_hump (key : Text) :
    (∃ capitals plain, key = capitals ++ plain ∧ (∀ e ∈ capitals, isCapital e = true) ∧
      ∀ e ∈ plain, isCapital e = false) ∨
    ∃ capitals plain c run rest, key = capitals ++ plain ++ (c :: run ++ rest) ∧
      (∀ e ∈ capitals, isCapital e = true) ∧ (∀ e ∈ plain ++ [c], isCapital e = false) ∧ run ≠ [] ∧
      (∀ e ∈ run, isCapital e = true) ∧ ∀ e ∈ rest.head?, isCapital e = false := by
  obtain ⟨capitals, s, rfl, all, begins⟩ := Text.exists_front isCapital key
  obtain ⟨plain, t, rfl, low, stops⟩ := Text.exists_front (fun c => !isCapital c) s
  have small : ∀ e ∈ plain, isCapital e = false := fun e member => by simpa using low e member
  cases t with
  | nil => exact .inl ⟨capitals, plain, by rw [List.append_nil], all, small⟩
  | cons d t =>
    have capital : isCapital d = true := by simpa using stops d rfl
    have none : ∀ {e}, e = d → isCapital e ≠ false := by simp [capital]
    obtain ⟨run, rest, whole, held, ends⟩ := Text.exists_front isCapital (d :: t)
    right
    rcases List.eq_nil_or_concat' plain with rfl | ⟨plain, c, rfl⟩
    · exact absurd (begins d rfl) (none rfl)
    · refine ⟨capitals, plain, c, run, rest, by simp [whole], all, small, ?_, held, ends⟩
      rintro rfl
      exact absurd (ends d (by rw [← List.nil_append rest, ← whole]; rfl)) (none rfl)

/-- The name is what comes out when every hump in it is replaced. -/
theorem replaced_hyphenate (seen key : Text) :
    camelHump.Replaced hyphened seen key (hyphenate key) := by
  induction size : key.length using Nat.strong_induction_on generalizing seen key with
  | _ n ih =>
    rcases first_hump key with ⟨capitals, plain, rfl, all, small⟩ |
      ⟨capitals, plain, c, run, rest, rfl, all, small, some, held, ends⟩
    · have kept : hyphenate (capitals ++ plain) = capitals ++ plain := by
        rw [hyphenate_append all fun c head => small c (List.mem_of_head? head), ← humps_eq_flatMap,
          humps_of_plain small]
      rw [kept]
      apply Pattern.Replaced.none
      intro before found after whole fits
      obtain ⟨c, run, rfl, other, some, capital⟩ := matches_camelHump.mp fits
      obtain ⟨d, run, rfl⟩ := List.exists_cons_of_ne_nil some
      have low : isCapital d = false := not_isCapital_of_append all small whole other
      rw [capital d List.mem_cons_self] at low
      cases low
    · have shorter : rest.length < n := by
        rw [← size]
        simp only [List.length_append, List.length_cons]
        omega
      rw [hyphenate_hump all small some held ends]
      exact .some (finds_camelHump all small some held ends) (ih rest.length shorter _ rest rfl)

/-! ## Names without units -/

/-- How a small letter may be written where case does not count: besides the capital letter, the
long s is an s and the sign for the kelvin is a k. -/
def variants (d : Char) : Text :=
  [d, Text.upperChar d] ++ if d = 's' then ['ſ'] else if d = 'k' then ['\u212a'] else []

def letter (d : Char) : Pattern := .one fun c => decide (c ∈ variants d)

def word : Text → Pattern
  | [] => .nothing
  | d :: rest => .next (letter d) (word rest)

/-- What the names of properties that take plain numbers have in them. -/
def nonDimensional : Pattern :=
  .anyOf [word ['a', 'c', 'i', 't'],
    .next (word ['e', 'x']) (.anyOf [letter 's', letter 'g', letter 'n', letter 'p', .stop]),
    word ['r', 'p', 'h'], word ['o', 'w', 's'], word ['m', 'n', 'c'], word ['n', 't', 'w'],
    .next (word ['i', 'n', 'e']) (.anyOf [letter 'c', letter 'h']),
    word ['z', 'o', 'o'], .next .start (word ['o', 'r', 'd'])]

/-- The letters that the pattern has. -/
def letters : Text := "acdeghimnoprstwxz".toList

/-- Both ways of leaving case aside agree on these letters. -/
theorem fold_eq_iff {d : Char} (known : d ∈ letters) : fold c = d ↔ c ∈ variants d := by
  by_cases long : c = 'ſ'
  · have agree : (letters.all fun d => decide (fold 'ſ' = d ↔ 'ſ' ∈ variants d)) = true := by decide
    rw [long]
    exact of_decide_eq_true (List.all_eq_true.mp agree d known)
  · have same : fold c = lowerChar c := if_neg long
    rw [same]
    by_cases capital : isCapital c = true
    · have agree : (letters.all fun d => decide (lowerChar c = d ↔ c ∈ variants d)) = true :=
        Text.of_isCapital capital
          (p := fun c => letters.all fun d => decide (lowerChar c = d ↔ c ∈ variants d)) (by decide)
      exact of_decide_eq_true (List.all_eq_true.mp agree d known)
    · have others : (letters.all fun d => isCapital (Text.upperChar d) && d != 'k') =
          true := by decide
      have other := List.all_eq_true.mp others d known
      rw [Bool.and_eq_true, bne_iff_ne] at other
      have upper : c ≠ Text.upperChar d := by
        rintro rfl
        exact capital other.1
      rw [lowerChar, if_neg capital]
      simp [variants, upper, long, other.2]

/-- The pattern matches what a word is when case does not count. -/
def Spells (pattern : Pattern) (w : Text) : Prop :=
  ∀ before found after, pattern.Matches before found after ↔ found.map fold = w

namespace Spells

variable {pattern second : Pattern} {w v : Text}

theorem letter {d : Char} (known : d ∈ letters) : Spells (letter d) [d] := by
  intro before found after
  constructor
  · rintro ⟨c, rfl, fits⟩
    rw [List.map_singleton, (fold_eq_iff known).mpr (of_decide_eq_true fits)]
  · intro same
    obtain ⟨c, rfl, folded⟩ := List.map_eq_singleton_iff.mp same
    exact ⟨c, rfl, decide_eq_true ((fold_eq_iff known).mp folded)⟩

theorem next (h : Spells pattern w) (k : Spells second v) :
    Spells (.next pattern second) (w ++ v) := by
  intro before found after
  constructor
  · rintro ⟨front, back, rfl, fits, later⟩
    rw [List.map_append, (h _ _ _).mp fits, (k _ _ _).mp later]
  · intro same
    obtain ⟨front, back, rfl, first, last⟩ := List.map_eq_append_iff.mp same
    exact ⟨front, back, rfl, (h _ _ _).mpr first, (k _ _ _).mpr last⟩

theorem word (known : (w.all fun d => decide (d ∈ letters)) = true) : Spells (word w) w := by
  induction w with
  | nil =>
    intro before found after
    exact List.map_eq_nil_iff.symm
  | cons d w ih =>
    rw [List.all_cons, Bool.and_eq_true] at known
    exact (letter (of_decide_eq_true known.1)).next (ih known.2)

theorem occurs_iff (h : Spells pattern w) : pattern.Occurs key ↔ w <:+: key.map fold := by
  constructor
  · rintro ⟨before, found, after, rfl, fits⟩
    refine ⟨before.map fold, after.map fold, ?_⟩
    rw [List.map_append, List.map_append, (h _ _ _).mp fits, List.append_assoc]
  · rintro ⟨front, back, same⟩
    obtain ⟨start, after, rfl, first, _⟩ := List.map_eq_append_iff.mp same.symm
    obtain ⟨before, found, rfl, _, spelled⟩ := List.map_eq_append_iff.mp first
    exact ⟨before, found, after, List.append_assoc .., (h _ _ _).mpr spelled⟩

theorem occurs_stop_iff (h : Spells pattern w) :
    (Pattern.next pattern .stop).Occurs key ↔ w <:+ key.map fold := by
  constructor
  · rintro ⟨before, _, _, rfl, front, _, rfl, fits, rfl, rfl⟩
    refine ⟨before.map fold, ?_⟩
    rw [List.append_nil, List.append_nil, List.map_append, (h _ _ _).mp fits]
  · rintro ⟨front, same⟩
    obtain ⟨before, found, rfl, _, spelled⟩ := List.map_eq_append_iff.mp same.symm
    exact ⟨before, found, [], by simp, found, [], by simp, (h _ _ _).mpr spelled, rfl, rfl⟩

theorem occurs_start_iff (h : Spells pattern w) :
    (Pattern.next .start pattern).Occurs key ↔ w <+: key.map fold := by
  constructor
  · rintro ⟨_, _, after, rfl, _, back, rfl, ⟨rfl, rfl⟩, fits⟩
    refine ⟨after.map fold, ?_⟩
    simp [(h _ _ _).mp fits]
  · rintro ⟨rest, same⟩
    obtain ⟨found, after, rfl, spelled, _⟩ := List.map_eq_append_iff.mp same.symm
    exact ⟨[], found, after, rfl, [], found, rfl, ⟨rfl, rfl⟩, (h _ _ _).mpr spelled⟩

end Spells

section Occurs

variable {w : Text} {d : Char} (known : (w.all fun e => decide (e ∈ letters)) = true)
include known

theorem occurs_word : (word w).Occurs key ↔ w <:+: key.map fold := (Spells.word known).occurs_iff

theorem occurs_word_letter (last : d ∈ letters) :
    (Pattern.next (word w) (letter d)).Occurs key ↔ w ++ [d] <:+: key.map fold :=
  ((Spells.word known).next (Spells.letter last)).occurs_iff

theorem occurs_word_stop : (Pattern.next (word w) .stop).Occurs key ↔ w <:+ key.map fold :=
  (Spells.word known).occurs_stop_iff

theorem occurs_start_word : (Pattern.next .start (word w)).Occurs key ↔ w <+: key.map fold :=
  (Spells.word known).occurs_start_iff

end Occurs

/-- Plain numbers are taken exactly where the pattern matches. -/
theorem isUnitless_iff : isUnitless key = true ↔ nonDimensional.Occurs key := by
  have phrases : unitlessPhrases =
      [['a', 'c', 'i', 't'], ['e', 'x', 's'], ['e', 'x', 'g'], ['e', 'x', 'n'], ['e', 'x', 'p'],
        ['r', 'p', 'h'], ['o', 'w', 's'], ['m', 'n', 'c'], ['n', 't', 'w'], ['i', 'n', 'e', 'c'],
        ['i', 'n', 'e', 'h'], ['z', 'o', 'o']] := rfl
  simp only [nonDimensional, Pattern.occurs_anyOf, Pattern.occurs_next_anyOf, List.mem_cons,
    List.not_mem_nil, or_false, exists_eq_or_imp, exists_eq_left]
  simp (disch := decide) only [occurs_word, occurs_word_letter, occurs_word_stop, occurs_start_word]
  simp only [isUnitless, phrases, List.any_cons, List.any_nil, Bool.or_eq_true, Bool.false_eq_true,
    Text.contains_iff, Text.endsWith_iff, Text.startsWith_iff, List.cons_append, List.nil_append]
  -- only where the name ends with the phrase comes at another place
  generalize (['e', 'x'] <:+ key.map fold) = last
  simp only [or_false, or_assoc, or_left_comm (b := last)]

instance (key : Text) : Decidable (nonDimensional.Occurs key) :=
  decidable_of_iff (isUnitless key = true) isUnitless_iff

/-! ## Main result -/

/-- The unit that a declaration is given. -/
def unit (key : Text) (value : Value) : Text :=
  if value.isNumber = true ∧ ¬ nonDimensional.Occurs key then ['p', 'x'] else []

/-- The declarations of an object, one after the other. -/
def sheet (entries : List (Text × Value)) : Text :=
  entries.flatMap fun (key, value) =>
    rewritten key ++ ':' :: (value.text.result ++ unit key value) ++ [';']

theorem declared_result (key : Text) (value : Value) :
    (declared key value).result = value.text.result ++ unit key value := by
  have same : unit key value = if value.isNumber && !isUnitless key then ['p', 'x'] else [] := by
    simp [unit, ← isUnitless_iff]
  rw [same, declared]
  by_cases units : (value.isNumber && !isUnitless key) = true
  · simp [units]
  · simp [units]

theorem styleText_eq_sheet (entries : List (Text × Value)) :
    Slot.styleText (.object entries) = sheet entries := by
  rw [Slot.styleText, sheet]
  apply List.flatMap_congr
  rintro ⟨key, value⟩ _
  simp only [hyphenate_eq_rewritten, declared_result]

end Style

/-- An object in a `style` slot is written as its declarations, escaped once as a whole, so that
reading the entities back once gives them. The name of a property in them is the key with its runs
of capitals rewritten, which is all that comes out when the humps of the key are replaced, and
rewriting it again changes nothing. -/
theorem Slot.style_declarations (options : Options) (entries : List (Text × Value))
    (line : Timeline) :
    (∃ text later, write options .style (.object entries) line = (.ok text, later) ∧
      text = Text.escape (Style.sheet entries) ∧ Text.unescape text = Style.sheet entries) ∧
    ∀ key, Style.hyphenate key = Style.rewritten key ∧
      (∀ result, Style.camelHump.Replaced Style.hyphened [] key result ↔
        result = Style.rewritten key) ∧
      Style.hyphenate (Style.rewritten key) = Style.rewritten key := by
  constructor
  · have body := Slot.style_eq_escape (.object entries)
    rw [Style.styleText_eq_sheet] at body
    rw [write_of_ne_content (by simp)]
    exact ⟨_, _, rfl, body, by rw [body, Text.unescape_escape]⟩
  · intro key
    have same := Style.hyphenate_eq_rewritten key
    have replaced := Style.replaced_hyphenate [] key
    have again := Style.hyphenate_hyphenate key
    rw [same] at replaced again
    refine ⟨same, fun result => ⟨fun other => other.unique replaced, ?_⟩, again⟩
    rintro rfl
    exact replaced

/-- A run of capitals at the start stays, one property takes plain numbers, and one name has a long
s. -/
example :
    Style.sheet [("WebkitBoxFlex".toList, .int 1), ("fontSIZE".toList, .int 2),
      ("eXſ".toList, .int 3)] = "Webkit-box-flex:1;font-size:2px;e-xſ:3;".toList := by decide

end HtmlTemplate
