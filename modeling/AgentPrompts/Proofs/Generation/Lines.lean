import AgentPrompts.Console

/-! # Lines of a generation

A generation that returns has emitted the manifest of its files, an empty line and its
descriptors, the lines that the formatted result holds.
-/

namespace AgentPrompts

def GenerateResult.lines (r : GenerateResult) : List String :=
  manifestHeader :: r.files ++ "" :: invocationsHeader :: r.invocations

theorem formatGenerateResult_eq (r : GenerateResult) :
    formatGenerateResult r = String.intercalate "\n" r.lines := rfl

namespace Console

theorem text_cons (line : String) (lines : List String) :
    text (line :: lines) = line ++ "\n" ++ text lines := by
  rw [text, List.map_cons, String.join_cons, text]

theorem text_eq_intercalate {lines : List String} (hne : lines ≠ []) :
    text lines = String.intercalate "\n" lines ++ "\n" := by
  induction lines with
  | nil => exact absurd rfl hne
  | cons line lines ih =>
    cases lines with
    | nil => simp [text]
    | cons next lines =>
      rw [text_cons, ih (List.cons_ne_nil next lines), String.intercalate_cons_cons,
        String.append_assoc, String.append_assoc, String.append_assoc]

end Console

namespace Generation

variable {s : Settings} {d : Disk} {template outDir : String} {agents : List Nat}
  {r : GenerateResult}

theorem map_line_writePrompts (h : (writePrompts template outDir d agents).error = none) :
    (writePrompts template outDir d agents).emissions.map Emission.line =
      agents.map fun a => promptFilePath outDir (.ofNat a) := by
  induction agents generalizing d with
  | nil => rfl
  | cons a agents ih =>
    rw [writePrompts] at h ⊢
    split at h
    next => cases h
    next d' hw =>
      rw [List.map_cons, ih h, List.map_cons]

theorem map_line_writeAndState (h : (writeAndState s template d).result = .ok r) :
    (writeAndState s template d).emissions.map Emission.line = r.lines := by
  simp only [writeAndState] at h ⊢
  split at h
  next => cases h
  next hwritten =>
    have hfiles := map_line_writePrompts hwritten
    split at h
    next => cases h
    next hread =>
      obtain rfl := Except.ok.inj h
      simp [hfiles, GenerateResult.lines, listPromptFiles, Function.comp_def]

theorem map_line_generate (h : (generate s d).result = .ok r) :
    (generate s d).emissions.map Emission.line = r.lines := by
  rw [generate] at h ⊢
  split at h
  next => cases h
  next template ht =>
    split at h
    next => cases h
    next made hd => exact map_line_writeAndState h

end Generation

end AgentPrompts
