import HtmlTemplate.Output.Content
import HtmlTemplate.Proofs.Task.Wake

/-!
# Options that agree

Of all that a host sets, only the transformers and its patience with them matter for what values
resolve to, and for what content they are: hosts that agree on these resolve all values alike, and
poll them in the same way (`Task.poll_of_agree`).
-/

namespace HtmlTemplate

variable {options options' : Options}

/-- Two hosts have the same transformers and the same patience with them. -/
structure Options.Agree (options options' : Options) : Prop where
  transformers : options'.transformers = options.transformers
  patience : options'.patience = options.patience

theorem Options.Agree.transform? (h : options.Agree options') :
    options'.transform? = options.transform? := by
  funext entries
  rw [Options.transform?, Options.transform?, h.transformers]

theorem Options.Agree.expansions (h : options.Agree options') :
    options'.expansions = options.expansions := by
  rw [Options.expansions, Options.expansions, h.transformers, h.patience]

/-! ## Content -/

theorem Content.writeObject_of_agree (h : options.Agree options') (expansions : Nat) :
    writeObject options' expansions = writeObject options expansions := by
  induction expansions with
  | zero => rfl
  | succ expansions ih =>
    funext entries
    rw [writeObject, writeObject, ih, h.transform?]

theorem Content.write_of_agree (h : options.Agree options') : write options' = write options := by
  funext value
  rw [write, write, h.expansions, writeObject_of_agree h]

/-! ## Tasks -/

theorem Value.sizeObject_of_agree (h : options.Agree options') (expansions : Nat) :
    sizeObject options' expansions = sizeObject options expansions := by
  induction expansions with
  | zero => rfl
  | succ expansions ih =>
    funext entries
    rw [sizeObject, sizeObject, ih, h.transform?]

namespace Task

theorem size_of_agree (h : options.Agree options') (t : Task) :
    size options' t = size options t := by
  induction t using memberInduction with
  | fresh mode value => simp only [size, Value.sizeObject_of_agree h]
  | asleep mode timer name outcome =>
    cases outcome <;> simp only [size, Value.sizeObject_of_agree h]
  | convert kind inner ih => simp only [size, ih]
  | group members ready ih => simp only [size, totalSize_eq_sum, List.map_congr_left ih]
  | _ => rfl

theorem step_of_agree (h : options.Agree options') (poll : Task → Live (Polled Task)) (t : Task) :
    step options' poll t = step options poll t := by
  cases t with
  | fresh mode value =>
    cases value with
    | object entries => simp only [step, stepFresh, stepObject, h.transform?]
    | _ => rfl
  | _ => rfl

theorem pollWithin_of_agree (h : options.Agree options') (depth : Nat) :
    pollWithin options' depth = pollWithin options depth := by
  induction depth with
  | zero => rfl
  | succ depth ih =>
    funext t
    rw [pollWithin, pollWithin, ih, step_of_agree h]

/-- Hosts that agree poll all tasks alike. -/
theorem poll_of_agree (h : options.Agree options') : poll options' = poll options := by
  funext t
  rw [poll, poll, size_of_agree h, pollWithin_of_agree h]

end Task

end HtmlTemplate
