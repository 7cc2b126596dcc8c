import Mathlib.Data.List.Induction
import Mathlib.Data.List.TakeWhile
import Script.Text

/-!
# Lines of a text, counted and shown

The number of line feeds in front of a place says which line the place is on, and the text behind
the last of them says how far into that line it is. The lemmas here split both over `++`, and bring
together the two ways of finding the text of a line: as an element of `lines`, and as what follows
the line feed in front of it.

## Key results

- `lastLine_append_of_mem` / `lastLine_append_of_not_mem`: the last line of a longer text
- `fromLine_append`: skipping the lines in front of a place leads to the start of its line
- `count_lt_length_lines`: a place in front of some text is on one of the lines
- `shownLine_append`: the line of a place, as it is shown
- `exists_eq_trimReturns_append`: a line, and what is shown of it
- `getLast?_getLast?_lines_iff`: when the last line is shown without some of its characters
-/

namespace Script.Text

/-! ## The last line -/

/-- The last line has no line feed in it. -/
theorem not_mem_lastLine (text : List Char) : '\n' ∉ lastLine text := by
  intro h
  have := List.mem_takeWhile_imp (List.mem_reverse.mp h)
  simp at this

/-- Text without line feeds continues the last line. -/
theorem lastLine_append_of_not_mem (text : List Char) {more : List Char} (h : '\n' ∉ more) :
    lastLine (text ++ more) = lastLine text ++ more := by
  have hall : ∀ c ∈ more.reverse, (c != '\n') = true := by
    intro c hc
    simp only [bne_iff_ne, ne_eq]
    rintro rfl
    exact h (List.mem_reverse.mp hc)
  rw [lastLine, List.reverse_append, List.takeWhile_append_of_pos hall, List.reverse_append,
    List.reverse_reverse, lastLine]

/-- A text without line feeds is its own last line. -/
private theorem lastLine_eq_self {text : List Char} (h : '\n' ∉ text) : lastLine text = text := by
  simpa [lastLine] using lastLine_append_of_not_mem [] h

/-- Text with a line feed has the last line for itself. -/
theorem lastLine_append_of_mem (text : List Char) {more : List Char} (h : '\n' ∈ more) :
    lastLine (text ++ more) = lastLine more := by
  -- Read from its end, the added text stops at a line feed before the old text is reached.
  have hnot : ¬ (more.reverse.takeWhile (· != '\n')).length = more.reverse.length := by
    intro heq
    have hself := (List.takeWhile_prefix (· != '\n')).eq_of_length heq
    have hmem : '\n' ∈ more.reverse.takeWhile (· != '\n') := by
      rw [hself]; exact List.mem_reverse.mpr h
    have := List.mem_takeWhile_imp hmem
    simp at this
  rw [lastLine, List.reverse_append, List.takeWhile_append, if_neg hnot, lastLine]

/-- What stands in front of a line feed does not belong to the last line. -/
theorem lastLine_append_feed (front text : List Char) :
    lastLine (front ++ '\n' :: text) = lastLine text := by
  rw [lastLine_append_of_mem front List.mem_cons_self, ← List.singleton_append]
  by_cases h : '\n' ∈ text
  · rw [lastLine_append_of_mem _ h]
  · rw [lastLine_append_of_not_mem _ h, lastLine_eq_self h]
    rfl

/-- A text is what stands up to its last line feed, and its last line. -/
theorem exists_eq_append_lastLine (text : List Char) :
    ∃ front, text = front ++ lastLine text ∧ lastLine front = [] := by
  refine ⟨(text.reverse.dropWhile (· != '\n')).reverse, ?_, ?_⟩
  · rw [lastLine, ← List.reverse_append, List.takeWhile_append_dropWhile, List.reverse_reverse]
  · rw [lastLine, List.reverse_reverse]
    cases hd : text.reverse.dropWhile (· != '\n') with
    | nil => simp
    | cons c rest =>
      have hc : (c != '\n') = false := by
        have := List.head?_dropWhile_not (· != '\n') text.reverse
        simpa [hd] using this
      simp [hc]

/-! ## Lines by number -/

/-- The text behind a number of line feeds. -/
def fromLine : Nat → List Char → List Char
  | 0, text => text
  | n + 1, text => fromLine n ((text.dropWhile (· != '\n')).drop 1)

/-- No line starts in an empty text. -/
@[simp] theorem fromLine_nil (n : Nat) : fromLine n [] = [] := by
  induction n with
  | zero => rfl
  | succ n ih => simpa [fromLine] using ih

/-- A line feed ends the first line. -/
@[simp] theorem fromLine_feed (n : Nat) (text : List Char) :
    fromLine (n + 1) ('\n' :: text) = fromLine n text := by
  simp [fromLine]

/-- Any other character belongs to the first line. -/
private theorem fromLine_cons {c : Char} (hc : c ≠ '\n') (n : Nat) (text : List Char) :
    fromLine (n + 1) (c :: text) = fromLine (n + 1) text := by
  simp [fromLine, hc]

/-- Skipping the line feeds in front of a place leads to the start of its line. -/
theorem fromLine_append (before after : List Char) :
    fromLine (before.count '\n') (before ++ after) = lastLine before ++ after := by
  induction before with
  | nil => rfl
  | cons c rest ih =>
    have hcons : c :: rest = [c] ++ rest := rfl
    by_cases hc : c = '\n'
    · -- One line less is to be skipped in the rest, where the last line may be all there is.
      subst hc
      rw [List.count_cons_self, List.cons_append, fromLine_feed, ih]
      by_cases hrest : '\n' ∈ rest
      · rw [hcons, lastLine_append_of_mem _ hrest]
      · rw [hcons, lastLine_append_of_not_mem _ hrest, lastLine_eq_self hrest]
        rfl
    · rw [List.count_cons_of_ne (by simpa using hc)]
      by_cases hrest : '\n' ∈ rest
      · -- Some line is skipped, and `c` goes with it
        obtain ⟨n, hn⟩ := Nat.exists_eq_add_one_of_ne_zero
          (Nat.pos_iff_ne_zero.mp (List.count_pos_iff.mpr hrest))
        rw [hn] at ih ⊢
        rw [List.cons_append, fromLine_cons hc, ih, hcons, lastLine_append_of_mem _ hrest]
      · -- There is only one line, and nothing is skipped.
        have hself : '\n' ∉ c :: rest := by simp [hrest, Ne.symm hc]
        rw [List.count_eq_zero.mpr hrest, lastLine_eq_self hself]
        rfl

/-- A text has a line of a number if there is text behind so many line feeds. -/
private theorem lt_length_lines_iff (text : List Char) (n : Nat) :
    n < (lines text).length ↔ fromLine n text ≠ [] := by
  -- A text that ends in a line feed has no further line behind it, and no text starts there either.
  fun_induction lines text generalizing n with
  | case1 => simp
  | case2 rest ih =>
    cases n with
    | zero => simp [fromLine]
    | succ n => simpa using ih n
  | case3 rest ih =>
    cases n with
    | zero => simp [fromLine]
    | succ n => simpa [fromLine_cons] using ih n
  | case4 c rest hfeed _ hrest ih =>
    have hc : c ≠ '\n' := hfeed
    cases n with
    | zero => simp [fromLine]
    | succ n => simpa [hrest, fromLine_cons hc] using ih (n + 1)
  | case5 c rest hfeed _ line more hrest ih =>
    have hc : c ≠ '\n' := hfeed
    cases n with
    | zero => simp [fromLine]
    | succ n => simpa [hrest, fromLine_cons hc] using ih (n + 1)

/-- A place that is not the end of the text is on one of its lines. -/
theorem count_lt_length_lines (before : List Char) {after : List Char} (h : after ≠ []) :
    before.count '\n' < (lines (before ++ after)).length := by
  rw [lt_length_lines_iff, fromLine_append]
  exact List.append_ne_nil_of_right_ne_nil _ h

/-! ## Lines as they are shown -/

/-- A text that starts with a line feed has an empty first line. -/
private theorem firstLine_feed (text : List Char) : firstLine ('\n' :: text) = [] := by
  simp [firstLine]

/-- The first line goes on up to a line feed. -/
theorem firstLine_cons {c : Char} (hc : c ≠ '\n') (text : List Char) :
    firstLine (c :: text) = c :: firstLine text := by
  simp [firstLine, hc]

/-- The first line of a text continues text without line feeds. -/
theorem firstLine_append_of_not_mem {text : List Char} (h : '\n' ∉ text) (more : List Char) :
    firstLine (text ++ more) = text ++ firstLine more := by
  induction text with
  | nil => rfl
  | cons c rest ih =>
    obtain ⟨hc, hrest⟩ := not_or.mp (mt List.mem_cons.mpr h)
    rw [List.cons_append, firstLine_cons (Ne.symm hc), ih hrest, List.cons_append]

/-- Whether a first character survives the trimming depends on what is left behind it. -/
private theorem trimReturns_cons (c : Char) (line : List Char) :
    trimReturns (c :: line) =
      if trimReturns line = [] ∧ c = '\r' then [] else c :: trimReturns line := by
  simp only [trimReturns, List.reverse_cons, List.dropWhile_append]
  by_cases hline : line.reverse.dropWhile (· == '\r') = []
  · by_cases hc : c = '\r'
    · simp [hline, hc]
    · simp [hline, hc]
  · simp [hline]

/-- What stands in front of a character that is no carriage return is not trimmed. -/
theorem trimReturns_append_cons {c : Char} (hc : c ≠ '\r') (front rest : List Char) :
    trimReturns (front ++ c :: rest) = front ++ c :: trimReturns rest := by
  induction front with
  | nil => rw [List.nil_append, trimReturns_cons, if_neg (fun h => hc h.2), List.nil_append]
  | cons d front ih =>
    have hsome : ¬ (trimReturns (front ++ c :: rest) = [] ∧ d = '\r') := by simp [ih]
    rw [List.cons_append, trimReturns_cons, if_neg hsome, ih, List.cons_append]

/-- A carriage return at the end is trimmed. -/
private theorem trimReturns_concat_return (line : List Char) :
    trimReturns (line ++ ['\r']) = trimReturns line := by
  simp [trimReturns]

/-- A line is what the trimming leaves, and the carriage returns at its end. -/
theorem exists_eq_trimReturns_append (line : List Char) :
    ∃ k, line = trimReturns line ++ List.replicate k '\r' ∧
      (k = 0 ↔ line.getLast? ≠ some '\r') := by
  induction line using List.reverseRecOn with
  | nil => exact ⟨0, rfl, by simp⟩
  | append_singleton line c ih =>
    by_cases hc : c = '\r'
    · obtain ⟨k, hline, -⟩ := ih
      subst hc
      refine ⟨k + 1, ?_, by simp⟩
      rw [trimReturns_concat_return, List.replicate_succ', ← List.append_assoc, ← hline]
    · refine ⟨0, ?_, by simp [hc]⟩
      rw [trimReturns_append_cons hc]
      simp [trimReturns]

/-- What `lines` gives for a number and what stands behind that number of line feeds are the same
    line, up to the carriage returns at its end. -/
private theorem trimReturns_lines (text : List Char) (n : Nat) :
    trimReturns ((lines text)[n]?.getD []) = trimReturns (firstLine (fromLine n text)) := by
  -- The cases are those of `lines`: the end, the two kinds of line ends, any other character
  fun_induction lines text generalizing n with
  | case1 => simp [firstLine]
  | case2 rest ih =>
    cases n with
    | zero => simp [fromLine, firstLine_feed]
    | succ n => simpa using ih n
  | case3 rest ih =>
    cases n with
    | zero => simp [fromLine, firstLine, trimReturns]
    | succ n => simpa [fromLine_cons] using ih n
  | case4 c rest hfeed _ hrest ih =>
    have hc : c ≠ '\n' := hfeed
    cases n with
    | zero =>
      have ih₀ := ih 0
      simp only [hrest, fromLine, List.getElem?_nil, Option.getD_none] at ih₀
      simp [fromLine, firstLine_cons hc, trimReturns_cons, ih₀]
    | succ n => simpa [hrest, fromLine_cons hc] using ih (n + 1)
  | case5 c rest hfeed _ line more hrest ih =>
    have hc : c ≠ '\n' := hfeed
    cases n with
    | zero =>
      have ih₀ := ih 0
      simp only [hrest, fromLine, List.getElem?_cons_zero, Option.getD_some] at ih₀
      simp [fromLine, firstLine_cons hc, trimReturns_cons, ih₀]
    | succ n => simpa [hrest, fromLine_cons hc] using ih (n + 1)

/-- The line of a place, as it is shown: the text behind the last line feed in front of the place,
    up to the next line feed, without the carriage returns at its end. -/
theorem shownLine_append (before after : List Char) :
    shownLine (before ++ after) (before.count '\n' + 1) =
      trimReturns (lastLine before ++ firstLine after) := by
  rw [shownLine, Nat.add_sub_cancel, trimReturns_lines, fromLine_append,
    firstLine_append_of_not_mem (not_mem_lastLine before)]

/-- The shown line has no line feed in it. -/
theorem not_mem_shownLine (text : List Char) (number : Nat) : '\n' ∉ shownLine text number := by
  rw [shownLine, trimReturns_lines]
  intro h
  have hmem := (List.dropWhile_sublist _).mem (List.mem_reverse.mp h)
  have hfirst := List.mem_takeWhile_imp (List.mem_reverse.mp hmem)
  simp at hfirst

/-- The last line, as it is shown. -/
theorem shownLine_length_lines (text : List Char) :
    shownLine text (max 1 (lines text).length) = trimReturns ((lines text).getLast?.getD []) := by
  have hindex : max 1 (lines text).length - 1 = (lines text).length - 1 := by omega
  rw [shownLine, hindex, List.getLast?_eq_getElem?]

/-! ## How texts end -/

/-- Only an empty text has no lines. -/
private theorem lines_eq_nil_iff {text : List Char} : lines text = [] ↔ text = [] := by
  have hzero := lt_length_lines_iff text 0
  rw [List.length_pos_iff, fromLine] at hzero
  exact not_iff_not.mp hzero

/-- The line ends are the texts that have an empty line and no other. -/
private theorem lines_eq_singleton_nil_iff {text : List Char} :
    lines text = [[]] ↔ text = ['\n'] ∨ text = ['\r', '\n'] := by
  fun_cases lines text with
  | case1 => simp
  | case2 rest => simp [lines_eq_nil_iff]
  | case3 rest => simp [lines_eq_nil_iff]
  | case4 c rest hfeed _ hrest =>
    obtain rfl := lines_eq_nil_iff.mp hrest
    simpa using hfeed
  | case5 c rest hfeed hreturn line more _ =>
    simp only [List.cons.injEq, reduceCtorEq, false_and, false_iff]
    intro h
    rcases h with ⟨hc, -⟩ | ⟨hc, hrest⟩
    · exact hfeed hc
    · exact hreturn [] hc hrest

/-- The text ends in a carriage return, or in one in front of a carriage return and a line feed. -/
def EndsInReturn (text : List Char) : Prop :=
  ['\r'] <:+ text ∨ ['\r', '\r', '\n'] <:+ text

instance (text : List Char) : Decidable (EndsInReturn text) :=
  inferInstanceAs (Decidable (['\r'] <:+ text ∨ ['\r', '\r', '\n'] <:+ text))

/-- The first character matters to how a text ends only where at most the end of a line follows. -/
private theorem endsInReturn_cons_iff {c : Char} {rest : List Char} :
    EndsInReturn (c :: rest) ↔
      c = '\r' ∧ (rest = [] ∨ rest = ['\r', '\n']) ∨ EndsInReturn rest := by
  simp only [EndsInReturn, List.suffix_cons_iff, List.cons.injEq]
  grind

/-- These are the texts whose last line ends in a carriage return. -/
theorem getLast?_getLast?_lines_iff (text : List Char) :
    ((lines text).getLast?.getD []).getLast? = some '\r' ↔ EndsInReturn text := by
  fun_induction lines text with
  | case1 => simp [EndsInReturn]
  | case2 rest ih =>
    rw [endsInReturn_cons_iff, ← ih]
    cases lines rest <;> simp
  | case3 rest ih =>
    rw [endsInReturn_cons_iff, endsInReturn_cons_iff, ← ih]
    cases lines rest <;> simp
  | case4 c rest _ _ hrest _ =>
    obtain rfl := lines_eq_nil_iff.mp hrest
    rw [endsInReturn_cons_iff]
    simp [EndsInReturn]
  | case5 c rest _ hreturn line more hrest ih =>
    have hsome : rest ≠ [] := fun h => by simp [h, lines] at hrest
    rw [endsInReturn_cons_iff, ← ih, hrest]
    by_cases hone : line = [] ∧ more = []
    · -- Only here the last line has `c` for its last character, and a line end is all of the rest.
      obtain ⟨rfl, rfl⟩ := hone
      rcases lines_eq_singleton_nil_iff.mp hrest with rfl | rfl
      · have hc : c ≠ '\r' := fun h => hreturn [] h rfl
        simp [hc]
      · simp
    · have hnot : rest ≠ ['\r', '\n'] := fun h => hone (by simp_all [lines])
      cases more with
      | nil =>
        cases line with
        | nil => exact absurd ⟨rfl, rfl⟩ hone
        | cons d line => simp [hsome, hnot]
      | cons line₂ more => simp [hsome, hnot]

end Script.Text
