import HtmlTemplate.Proofs.Text.Runs

/-!
# Runs of white space

Collapsing goes through a text once, character by character. What it leaves is said here by the runs
of the text, its longest stretches that are white space throughout or have none of it: of every run
of white space one space is left, and every other run stays as it is
(`Text.collapseBlanks_eq_collapsed`). Nothing has to be written anew if all white space is single
spaces (`Text.collapseBlanks_of_tidy`).
-/

namespace HtmlTemplate

namespace Text

/-- Both characters are white space, or neither of them is. -/
def alike (c d : Char) : Bool := isBlank c == isBlank d

/-- The longest stretches of a text that are white space throughout or have none of it. -/
def runs (s : Text) : List Text := s.splitBy alike

/-- One space for a run of white space. -/
def collapseRun (run : Text) : Text := if run.any isBlank then [' '] else run

/-- The text with one space for each of its runs of white space. -/
def collapsed (s : Text) : Text := (runs s).flatMap collapseRun

/-! ## By runs -/

theorem collapseFrom_eq_scan (inRun : Bool) (s : Text) :
    collapseFrom inRun s = scan isBlank (fun _ => [' ']) (fun _ => []) inRun s := by
  induction s generalizing inRun with
  | nil => rfl
  | cons c s ih =>
    rw [collapseFrom, scan, ih, ih]
    cases isBlank c <;> cases inRun <;> rfl

/-- Collapsing leaves one space of every run of white space, and every other run as it is. -/
theorem collapseBlanks_eq_collapsed (s : Text) : collapseBlanks s = collapsed s := by
  rw [collapseBlanks, collapseFrom_eq_scan]
  apply scan_eq_flatMap
  · intro c run blank
    have first : isBlank c = true := blank c List.mem_cons_self
    have space : collapseRun (c :: run) = [' '] := by
      rw [collapseRun, List.any_cons, first]
      rfl
    rw [space, List.flatMap_eq_nil_iff.mpr fun _ _ => rfl]
    rfl
  · intro run plain
    have none : run.any isBlank = false :=
      List.any_eq_false.mpr fun c member => by simp [plain c member]
    rw [collapseRun, none]
    rfl

/-! ## Texts that stay as they are -/

/-- Whether all white space of a text is spaces, and none of them stand side by side. -/
def isTidy (s : Text) : Bool :=
  !(s.zip s.tail).any (fun (c, d) => isBlank c && isBlank d) &&
    !s.any fun c => isBlank c && c != ' '

theorem isTidy_cons {c d : Char} {s : Text} (tidy : isTidy (c :: d :: s) = true) :
    (isBlank c = true → isBlank d = false) ∧ (isBlank c = true → c = ' ') ∧
      isTidy (d :: s) = true := by
  simp only [isTidy, List.tail_cons, List.zip_cons_cons, List.any_cons, Bool.not_or,
    Bool.and_eq_true, Bool.not_eq_true', Bool.and_eq_false_iff] at tidy ⊢
  refine ⟨fun blank => ?_, fun blank => ?_, tidy.1.2, tidy.2.2⟩
  · rcases tidy.1.1 with other | other
    · rw [blank] at other
      cases other
    · exact other
  · rcases tidy.2.1 with other | other
    · rw [blank] at other
      cases other
    · simpa using other

/-- A tidy text need not be collapsed. -/
theorem collapseBlanks_of_tidy {s : Text} (tidy : isTidy s = true) : collapseBlanks s = s := by
  rw [collapseBlanks]
  induction s with
  | nil => rfl
  | cons c s ih =>
    cases s with
    | nil =>
      cases blank : isBlank c with
      | false =>
        rw [collapseFrom, blank]
        rfl
      | true =>
        obtain rfl : c = ' ' := by simpa [isTidy, blank] using tidy
        rfl
    | cons d s =>
      obtain ⟨alone, space, tidy⟩ := isTidy_cons tidy
      have later := ih tidy
      cases blank : isBlank c with
      | false =>
        rw [collapseFrom, blank, if_neg Bool.false_ne_true, later]
      | true =>
        have begins : ∀ e ∈ (d :: s).head?, isBlank e = false := by
          intro e found
          obtain rfl : d = e := by simpa using found
          exact alone blank
        rw [collapseFrom, blank, if_pos rfl, if_neg Bool.false_ne_true, space blank,
          collapseFrom_eq_scan, scan_true begins, ← collapseFrom_eq_scan, later]

/-- Three runs of white space, of which one is longer than a space. -/
example : collapseBlanks " a\t\n b c".toList = " a b c".toList ∧
    runs " a\t\n b c".toList = [[' '], ['a'], ['\t', '\n', ' '], ['b'], [' '], ['c']] := ⟨rfl, rfl⟩

end Text

end HtmlTemplate
