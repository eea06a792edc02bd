import HtmlTemplate.Proofs.Text
import Mathlib.Data.List.SplitBy

/-!
# Runs of characters

A test of characters divides a text into runs, its longest stretches where the test holds throughout
or nowhere. A scan goes through a text once, character by character, and remembers of what it has
seen only whether the last character passed. What it writes is what its runs become, one after the
other (`Text.scan_eq_flatMap`).
-/

namespace HtmlTemplate

namespace Text

variable {p : Char → Bool} {first inner : Char → Text} {run rest : Text}

/-- The longest stretches of a text that a test holds of throughout or nowhere. -/
def runsOf (p : Char → Bool) (s : Text) : List Text := s.splitBy fun c d => p c == p d

/-- Writes what a character that passes becomes, at the beginning of a run or inside it, and every
other character as it is; `inRun` when a character that passes precedes. -/
def scan (p : Char → Bool) (first inner : Char → Text) : Bool → Text → Text
  | _, [] => []
  | inRun, c :: s =>
    (if p c then if inRun then inner c else first c else [c]) ++ scan p first inner (p c) s

/-! ## A run and what follows it -/

/-- With a run in front, a text begins as the run does. -/
theorem forall_head?_append {q : Char → Prop} (some : run ≠ []) (all : ∀ c ∈ run, q c) :
    ∀ c ∈ (run ++ rest).head?, q c := by
  intro c head
  rw [List.head?_append_of_ne_nil _ some] at head
  exact all c (List.mem_of_head? head)

theorem runsOf_append {b : Bool} (some : run ≠ []) (even : ∀ c ∈ run, p c = b)
    (begins : ∀ c ∈ rest.head?, p c = !b) : runsOf p (run ++ rest) = run :: runsOf p rest := by
  have alike : run.IsChain fun c d => (p c == p d) = true := by
    apply List.Pairwise.isChain
    apply List.pairwise_of_forall_mem_list
    intro c hc d hd
    rw [even c hc, even d hd, beq_self_eq_true]
  have apart : ∀ c ∈ run.getLast?, ∀ d ∈ rest.head?, (p c == p d) = false := by
    intro c last d head
    rw [even c (List.mem_of_getLast? last), begins d head]
    cases b <;> rfl
  rw [runsOf, List.splitBy_append apart, List.splitBy_of_isChain some alike]
  rfl

/-- Every text is made by putting a run before a text that does not go on with it. -/
theorem runs_induction (p : Char → Bool) {motive : Text → Prop} (nil : motive [])
    (append : ∀ b run rest, run ≠ [] → (∀ c ∈ run, p c = b) → (∀ c ∈ rest.head?, p c = !b) →
      motive rest → motive (run ++ rest)) (s : Text) : motive s := by
  induction size : s.length using Nat.strong_induction_on generalizing s with
  | _ n ih =>
    cases s with
    | nil => exact nil
    | cons c s =>
      obtain ⟨run, rest, whole, even, begins⟩ := exists_front (fun d => p d == p c) (c :: s)
      have some : run ≠ [] := by
        rintro rfl
        have differs : (p c == p c) = false :=
          begins c (by rw [← List.nil_append rest, ← whole]; rfl)
        simp at differs
      have shorter : rest.length < n := by
        have positive := List.length_pos_iff.mpr some
        rw [← size, whole, List.length_append]
        omega
      rw [whole]
      refine append (p c) run rest some (fun d member => beq_iff_eq.mp (even d member)) ?_
        (ih rest.length shorter rest rfl)
      intro d head
      have differs : p d ≠ p c := beq_eq_false_iff_ne.mp (begins d head)
      exact Bool.eq_not.mpr differs

theorem scan_of_held (held : ∀ c ∈ run, p c = true) (rest : Text) :
    scan p first inner true (run ++ rest) = run.flatMap inner ++ scan p first inner true rest := by
  induction run with
  | nil => rfl
  | cons c run ih =>
    obtain ⟨here, later⟩ := List.forall_mem_cons.mp held
    rw [List.cons_append, scan, here, if_pos rfl, if_pos rfl, ih later, List.flatMap_cons,
      List.append_assoc]

theorem scan_of_plain (plain : ∀ c ∈ run, p c = false) (rest : Text) :
    scan p first inner false (run ++ rest) = run ++ scan p first inner false rest := by
  induction run with
  | nil => rfl
  | cons c run ih =>
    obtain ⟨here, later⟩ := List.forall_mem_cons.mp plain
    rw [List.cons_append, scan, here, if_neg Bool.false_ne_true, ih later]
    rfl

/-- It makes no difference that a run was open before something else begins. -/
theorem scan_true (begins : ∀ c ∈ rest.head?, p c = false) :
    scan p first inner true rest = scan p first inner false rest := by
  cases rest with
  | nil => rfl
  | cons c rest =>
    have here : p c = false := begins c rfl
    rw [scan, scan, here]
    rfl

/-! ## The whole text -/

/-- A scan writes what the runs of the text become. -/
theorem scan_eq_flatMap {write : Text → Text}
    (held : ∀ c run, (∀ d ∈ c :: run, p d = true) → write (c :: run) = first c ++ run.flatMap inner)
    (plain : ∀ run, (∀ c ∈ run, p c = false) → write run = run) (s : Text) :
    scan p first inner false s = (runsOf p s).flatMap write := by
  induction s using runs_induction p with
  | nil => rfl
  | append b run rest some even begins ih =>
    rw [runsOf_append some even begins, List.flatMap_cons, ← ih]
    cases b with
    | false => rw [scan_of_plain even, plain run even]
    | true =>
      obtain ⟨c, run, rfl⟩ := List.exists_cons_of_ne_nil some
      obtain ⟨here, later⟩ := List.forall_mem_cons.mp even
      rw [List.cons_append, scan, here, if_pos rfl, if_neg Bool.false_ne_true, scan_of_held later,
        scan_true begins, held c run even, List.append_assoc]

end Text

end HtmlTemplate
