import Mathlib.Data.List.DropRight

/-!
# Files of terminated lines

`cut` reads a file as the lines that have their end and the unfinished rest.  The lemmas say how
that reading follows appends.
-/

namespace PraxisPolicy.LineFraming

/-- The byte that ends a line of text. -/
def newline : UInt8 := 10

variable {α : Type*} (isEnd : α → Bool)

/-- Each with its end, and what comes after the last of them. -/
def cut : List α → List (List α) × List α
  | [] => ([], [])
  | a :: rest =>
    if isEnd a then ([a] :: (cut rest).1, (cut rest).2)
    else match cut rest with
      | ([], unfinished) => ([], a :: unfinished)
      | (line :: lines, unfinished) => ((a :: line) :: lines, unfinished)

def finished (file : List α) : List (List α) := (cut isEnd file).1

def unfinished (file : List α) : List α := (cut isEnd file).2

/-- Its end is its last symbol, and there is no other end in it. -/
def IsLine (line : List α) : Prop :=
  ∃ body e, line = body ++ [e] ∧ isEnd e = true ∧ ∀ a ∈ body, isEnd a = false

variable {isEnd}

theorem cut_nil : cut isEnd [] = ([], []) := rfl

theorem cut_of_no_end {file : List α} (h : ∀ a ∈ file, isEnd a = false) :
    cut isEnd file = ([], file) := by
  induction file with
  | nil => rfl
  | cons a rest ih =>
    rw [List.forall_mem_cons] at h
    simp [cut, h.1, ih h.2]

variable {line : List α} {lines : List (List α)}

theorem cut_line_append (h : IsLine isEnd line) (rest : List α) :
    cut isEnd (line ++ rest) = (line :: finished isEnd rest, unfinished isEnd rest) := by
  obtain ⟨body, e, rfl, he, hbody⟩ := h
  induction body with
  | nil => simp [cut, he, finished, unfinished]
  | cons a body ih =>
    rw [List.forall_mem_cons] at hbody
    have hrest := ih hbody.2
    simp only [List.append_assoc, List.cons_append, List.nil_append] at hrest ⊢
    simp [cut, hbody.1, hrest]

theorem cut_lines_append (h : ∀ line ∈ lines, IsLine isEnd line) (rest : List α) :
    cut isEnd (lines.flatten ++ rest) =
      (lines ++ finished isEnd rest, unfinished isEnd rest) := by
  induction lines with
  | nil => rfl
  | cons line lines ih =>
    rw [List.forall_mem_cons] at h
    rw [List.flatten_cons, List.append_assoc, cut_line_append h.1, finished, unfinished, ih h.2]
    rfl

theorem isLine_cons {a : α} (ha : isEnd a = false) (h : IsLine isEnd line) :
    IsLine isEnd (a :: line) := by
  obtain ⟨body, e, rfl, he, hbody⟩ := h
  exact ⟨a :: body, e, rfl, he, List.forall_mem_cons.2 ⟨ha, hbody⟩⟩

variable (isEnd) in
theorem cut_spec (file : List α) :
    (∀ line ∈ finished isEnd file, IsLine isEnd line) ∧
      (∀ a ∈ unfinished isEnd file, isEnd a = false) ∧
      (finished isEnd file).flatten ++ unfinished isEnd file = file := by
  unfold finished unfinished
  induction file with
  | nil => simp [cut]
  | cons a rest ih =>
    obtain ⟨hlines, hend, hfile⟩ := ih
    cases ha : isEnd a with
    | true =>
      simp only [cut, ha, if_true, List.forall_mem_cons, List.flatten_cons]
      exact ⟨⟨⟨[], a, rfl, ha, by simp⟩, hlines⟩, hend, by simpa using hfile⟩
    | false =>
      simp only [cut, ha, Bool.false_eq_true, if_false]
      rcases hcut : cut isEnd rest with ⟨_ | ⟨line, lines⟩, open_⟩
      all_goals
        rw [hcut] at hlines hend hfile
        simp only [List.forall_mem_cons, List.flatten_cons, List.cons_append] at hlines ⊢
      · exact ⟨hlines, ⟨ha, hend⟩, by simpa using hfile⟩
      · exact ⟨⟨isLine_cons ha hlines.1, hlines.2⟩, hend, by simpa using hfile⟩

variable (isEnd) in
theorem flatten_finished_append (file : List α) :
    (finished isEnd file).flatten ++ unfinished isEnd file = file := (cut_spec _ file).2.2

theorem cut_append {file : List α} (h : unfinished isEnd file = []) (more : List α) :
    finished isEnd (file ++ more) = finished isEnd file ++ finished isEnd more ∧
      unfinished isEnd (file ++ more) = unfinished isEnd more := by
  have hfile : (finished isEnd file).flatten = file := by
    simpa [h] using flatten_finished_append isEnd file
  have hcut := cut_lines_append (cut_spec isEnd file).1 more
  rw [hfile] at hcut
  exact ⟨by rw [finished, hcut], by rw [unfinished, hcut]⟩

theorem finished_append_of_no_end {file more : List α} (h : ∀ a ∈ more, isEnd a = false) :
    finished isEnd (file ++ more) = finished isEnd file := by
  obtain ⟨hlines, hrest, hfile⟩ := cut_spec isEnd file
  have hend : ∀ a ∈ unfinished isEnd file ++ more, isEnd a = false := fun a ha =>
    (List.mem_append.1 ha).elim (hrest a) (h a)
  have hnone : finished isEnd (unfinished isEnd file ++ more) = [] := by
    rw [finished, cut_of_no_end hend]
  have hcut := cut_lines_append hlines (unfinished isEnd file ++ more)
  rw [← List.append_assoc, hfile, hnone, List.append_nil] at hcut
  rw [finished, hcut]

theorem cut_lines (h : ∀ line ∈ lines, IsLine isEnd line) :
    finished isEnd lines.flatten = lines ∧ unfinished isEnd lines.flatten = [] := by
  have hcut := cut_lines_append h []
  simp only [List.append_nil] at hcut
  exact ⟨by simp [finished, hcut, cut_nil], by simp [unfinished, hcut, cut_nil]⟩

theorem cut_take_line (h : IsLine isEnd line) {n : ℕ} (hn : n < line.length) :
    cut isEnd (line.take n) = ([], line.take n) := by
  obtain ⟨body, e, rfl, -, hbody⟩ := h
  apply cut_of_no_end
  intro a ha
  rw [List.take_append_of_le_length (by simpa [Nat.lt_succ_iff] using hn)] at ha
  exact hbody a (List.mem_of_mem_take ha)

/-- A write that breaks off leaves its first lines and a part of the next one. -/
theorem cut_take_lines (h : ∀ line ∈ lines, IsLine isEnd line) (n : ℕ) :
    ∃ k, finished isEnd (lines.flatten.take n) = lines.take k ∧
      (unfinished isEnd (lines.flatten.take n) = [] ∨
        ∃ line ∈ lines, unfinished isEnd (lines.flatten.take n) <+: line) := by
  induction lines generalizing n with
  | nil => exact ⟨0, by simp [finished, unfinished, cut_nil]⟩
  | cons line lines ih =>
    rw [List.forall_mem_cons] at h
    rw [List.flatten_cons, List.take_append]
    by_cases hn : n < line.length
    · refine ⟨0, ?_, .inr ⟨line, List.mem_cons_self, ?_⟩⟩
      all_goals rw [Nat.sub_eq_zero_of_le hn.le, List.take_zero, List.append_nil]
      · simp [finished, cut_take_line h.1 hn]
      · simpa [unfinished, cut_take_line h.1 hn] using List.take_prefix n line
    · obtain ⟨k, hlines, hrest⟩ := ih h.2 (n - line.length)
      have hcut := cut_line_append h.1 (lines.flatten.take (n - line.length))
      rw [List.take_of_length_le (not_lt.1 hn)]
      refine ⟨k + 1, ?_, ?_⟩
      · rw [finished, hcut, hlines, List.take_succ_cons]
      · rw [unfinished, hcut]
        exact hrest.imp_right fun ⟨other, hmem, hpre⟩ => ⟨other, List.mem_cons_of_mem _ hmem, hpre⟩

end PraxisPolicy.LineFraming
