import CiWorkflow.Proofs.Text.Folding

/-!
# Keeping line feeds

With a `+` in its header, a literal scalar keeps a line feed for each line of its body, whether the line
feed stands between two lines, before the first one with something in it or behind the last one. This is
so exactly where there is something in the body: behind a body that is empty or blank there is one line
feed more than there are lines.
-/

namespace CiWorkflow.Text

/-! ### Counting lines -/

/-- The number of lines of a text. Each but the last one is ended by a line feed. -/
def lineCount (s : List Char) : Nat :=
  s.count '\n' + if s = [] ∨ s.getLast? = some '\n' then 0 else 1

lemma lineCount_feed (s : List Char) : lineCount ('\n' :: s) = lineCount s + 1 := by
  have last : ('\n' :: s).getLast? = some '\n' ↔ s = [] ∨ s.getLast? = some '\n' := by
    cases s <;> simp
  simp only [lineCount, List.count_cons_self, last, reduceCtorEq, false_or]
  omega

lemma lineCount_cons {c : Char} (hc : c ≠ '\n') {s : List Char} (hs : s ≠ []) : lineCount (c :: s) = lineCount s := by
  obtain ⟨d, s, rfl⟩ := List.exists_cons_of_ne_nil hs
  simp [lineCount, hc]

lemma lines_eq_nil_iff {s : List Char} : lines s = [] ↔ s = [] := by
  fun_cases lines s <;> simp_all

lemma length_lines (s : List Char) : (lines s).length = lineCount s := by
  fun_induction lines s with
  | case1 => rfl
  | case2 r ih => rw [List.length_cons, ih, lineCount_feed]
  | case3 r ih => rw [List.length_cons, ih, lineCount_cons (by decide) (List.cons_ne_nil _ r), lineCount_feed]
  | case4 c r hf hc hr ih =>
    obtain rfl : r = [] := lines_eq_nil_iff.mp hr
    have plain : c ≠ '\n' := hf
    simp [lineCount, plain]
  | case5 c r hf hc l ls hr ih =>
    have more : r ≠ [] := by
      rintro rfl
      cases hr
    rw [lineCount_cons hf more, ← ih, hr, List.length_cons, List.length_cons]

/-- The ends of lines are blank, so a text is blank where its lines are. -/
lemma allBlank_lines_iff (s : List Char) : (∀ l ∈ lines s, allBlank l = true) ↔ ∀ c ∈ s, isBlank c = true := by
  have feed : isBlank '\n' = true := by decide
  have carriage : isBlank '\r' = true := by decide
  fun_induction lines s with
  | case1 => simp
  | case2 r ih => simpa [allBlank, feed] using ih
  | case3 r ih => simpa [allBlank, feed, carriage] using ih
  | case4 c r hf hc hr ih =>
    obtain rfl : r = [] := lines_eq_nil_iff.mp hr
    simp [allBlank]
  | case5 c r hf hc l ls hr ih =>
    rw [hr, List.forall_mem_cons] at ih
    have first : allBlank (c :: l) = true ↔ isBlank c = true ∧ allBlank l = true := by simp [allBlank]
    rw [List.forall_mem_cons, List.forall_mem_cons, first, and_assoc]
    exact and_congr_right' ih

namespace BlockScalar

/-! ### Counting line feeds -/

/-- The first sign in a header is a `+`, and it stands before any blank. -/
def IsKeeping (header : List Char) : Prop :=
  ∃ front rest, header = front ++ '+' :: rest ∧ ∀ c ∈ front, isBlank c = false ∧ c ≠ '-' ∧ c ≠ '+'

lemma chompingOf_eq_keep_iff (header : List Char) : chompingOf header = .keep ↔ IsKeeping header := by
  have first : chompingOf header = .keep ↔
      (header.takeWhile fun c => !isBlank c).find? (fun c => c == '-' || c == '+') = some '+' := by
    unfold chompingOf
    split
    · simp [*]
    · rename_i sign other found
      have sort : sign = '-' ∨ sign = '+' := by simpa using List.find?_some found
      obtain rfl : sign = '+' := sort.resolve_left other
      exact iff_of_true rfl found
    · simp [*]
  rw [first, List.find?_eq_some_iff_append]
  constructor
  · rintro ⟨-, front, rest, cut, before⟩
    refine ⟨front, rest ++ header.dropWhile fun c => !isBlank c, ?_, fun c hc => ⟨?_, ?_⟩⟩
    · have whole := List.takeWhile_append_dropWhile (p := fun c => !isBlank c) (l := header)
      rw [cut] at whole
      simpa using whole.symm
    · have inside : c ∈ header.takeWhile fun c => !isBlank c := by
        rw [cut]
        exact List.mem_append_left _ hc
      simpa using List.mem_takeWhile_imp inside
    · simpa using before c hc
  · rintro ⟨front, rest, rfl, before⟩
    refine ⟨rfl, front, rest.takeWhile fun c => !isBlank c, ?_, fun c hc => ?_⟩
    · have sign : isBlank '+' = false := by decide
      rw [List.takeWhile_append_of_pos fun c hc => by rw [(before c hc).1]; rfl]
      simp [sign]
    · simpa using (before c hc).2

lemma ofText?_of_feed_not_mem {header : List Char} (h : '\n' ∉ header) :
    ofText? ('|' :: header) = some ⟨.literal, chompingOf header, []⟩ := by
  have inside : ∀ c ∈ header, (c != '\n') = true := by
    intro c hc
    simpa using ne_of_mem_of_not_mem hc h
  have alone : splitLine header = (header, []) := by
    rw [splitLine, List.takeWhile_eq_self_iff.mpr inside, List.dropWhile_eq_nil_iff.mpr inside]
    rfl
  rw [ofText?, alone]
  rfl

lemma count_joined {ls : List (List Char)} (hne : ls ≠ []) (h : ∀ l ∈ ls, '\n' ∉ l) :
    (joined ls).count '\n' + 1 = ls.length := by
  induction ls with
  | nil => exact absurd rfl hne
  | cons l ls ih =>
    have first : l.count '\n' = 0 := List.count_eq_zero.mpr (h l List.mem_cons_self)
    by_cases hls : ls = []
    · rw [hls, joined_singleton, first]
      rfl
    · have rest := ih hls fun l hl => h l (List.mem_cons_of_mem _ hl)
      rw [joined_cons l hls, List.count_append, List.count_cons_self, first, List.length_cons]
      omega

/-- Only blank lines have nothing in them behind their indentation. -/
lemma dedent_eq_nil_iff (indent : Nat) (line : List Char) : dedent indent line = [] ↔ allBlank line = true := by
  unfold dedent
  split
  · simp [*]
  · rename_i full
    refine iff_of_false (fun hnil => full ?_) full
    have short : line.length ≤ leadingSpaces line := by
      have := List.drop_eq_nil_iff.mp hnil
      omega
    -- a line that is not longer than the spaces in front of it holds nothing else
    have spaces : line.takeWhile (· == ' ') = line :=
      (List.takeWhile_prefix _).eq_of_length_le short
    rw [allBlank, List.all_eq_true]
    intro c hc
    rw [← spaces] at hc
    have : c = ' ' := by simpa using List.mem_takeWhile_imp hc
    rw [this]
    decide

lemma content_eq_nil_iff (body : List Char) :
    content (dedented (Text.lines body)) = [] ↔ ∀ c ∈ body, isBlank c = true := by
  have empty : content (dedented (Text.lines body)) = [] ↔ ∀ l ∈ dedented (Text.lines body), l.isEmpty = true :=
    List.rdropWhile_eq_nil_iff
  rw [empty, ← allBlank_lines_iff, dedented, List.forall_mem_map]
  exact forall₂_congr fun l _ => List.isEmpty_iff.trans (dedent_eq_nil_iff _ l)

lemma length_dedented (body : List Char) : (dedented (Text.lines body)).length = lineCount body := by
  rw [dedented, List.length_map, length_lines]

/-- Where some lines have content, the line feeds of what is kept are as many as the lines. -/
lemma count_value_of_content {body : List Char} (h : content (dedented (Text.lines body)) ≠ []) :
    (value ⟨.literal, .keep, Text.lines body⟩).count '\n' = lineCount body := by
  have closed := (closed_content (dedented (Text.lines body))).resolve_left h
  have between := count_joined h (feed_not_mem_content body)
  obtain ⟨n, whole⟩ := exists_content (dedented (Text.lines body))
  have split := congrArg List.length whole
  rw [List.length_append, List.length_replicate] at split
  rw [value_literal .keep rfl closed, List.count_append, ending, List.count_replicate_self, ← length_dedented]
  omega

lemma value_of_no_content {body : List Char} (h : content (dedented (Text.lines body)) = []) :
    value ⟨.literal, .keep, Text.lines body⟩ = List.replicate (lineCount body + 1) '\n' := by
  simp [value, h, join, ending, length_dedented]

/-- Below a header with a `+` and above nothing else, a literal scalar has as many line feeds as its body has lines,
exactly where there is something in the body. Where there is nothing, it has one more, and nothing but them. -/
theorem kept_feeds_iff {header body text : List Char} (feed : '\n' ∉ header) (keep : IsKeeping header)
    (ht : text = '|' :: header ++ '\n' :: body ∨ text = '|' :: header ∧ body = []) :
    ∃ v, foldBlockString (String.ofList text) = some (String.ofList v) ∧
      (v.count '\n' = lineCount body ↔ ∃ c ∈ body, isBlank c = false) ∧
      ((∀ c ∈ body, isBlank c = true) → v = List.replicate (lineCount body + 1) '\n') := by
  have sign : chompingOf header = .keep := (chompingOf_eq_keep_iff header).mpr keep
  have read : foldBlockScalar text = some (value ⟨.literal, .keep, Text.lines body⟩) := by
    rcases ht with rfl | ⟨rfl, rfl⟩
    · rw [← sign]
      exact foldBlockScalar_of_header .literal feed body
    · have alone := congrArg (Option.map value) (ofText?_of_feed_not_mem feed)
      rwa [sign] at alone
  refine ⟨_, foldBlockString_ofList read, ?_, fun blank => value_of_no_content ((content_eq_nil_iff body).mpr blank)⟩
  by_cases h : content (dedented (Text.lines body)) = []
  · have blank := (content_eq_nil_iff body).mp h
    rw [value_of_no_content h, List.count_replicate_self]
    refine iff_of_false (by omega) ?_
    rintro ⟨c, hc, full⟩
    rw [blank c hc] at full
    cases full
  · refine iff_of_true (count_value_of_content h) ?_
    simpa using mt (content_eq_nil_iff body).mpr h

/-- Blank lines in front, between two lines and at the end, below a header with more in it than the sign. -/
theorem kept_feeds_around_lines :
    '\n' ∉ "2+ # note".toList ∧ IsKeeping "2+ # note".toList ∧ (∃ c ∈ "\n  a\n \n    b\n\n  ".toList, isBlank c = false) ∧
      foldBlockString "|2+ # note\n\n  a\n \n    b\n\n  " = some "\na\n\n  b\n\n\n" ∧
      "\na\n\n  b\n\n\n".toList.count '\n' = lineCount "\n  a\n \n    b\n\n  ".toList := by
  have feed : '\n' ∉ "2+ # note".toList := by decide
  have keep : IsKeeping "2+ # note".toList := ⟨['2'], " # note".toList, rfl, List.forall_mem_singleton.mpr (by decide)⟩
  have full : ∃ c ∈ "\n  a\n \n    b\n\n  ".toList, isBlank c = false := ⟨'a', by decide, by decide⟩
  obtain ⟨v, read, same, -⟩ :=
    kept_feeds_iff feed keep (Or.inl (rfl : _ = '|' :: _ ++ '\n' :: "\n  a\n \n    b\n\n  ".toList))
  have value : foldBlockString "|2+ # note\n\n  a\n \n    b\n\n  " = some "\na\n\n  b\n\n\n" := by decide
  obtain rfl : "\na\n\n  b\n\n\n".toList = v :=
    String.ofList_injective (Option.some.inj (value.symm.trans read))
  exact ⟨feed, keep, full, value, same.mpr full⟩

/-- There is a line feed in the value of a scalar that has no lines. -/
theorem not_kept_feeds_empty :
    IsKeeping ['+'] ∧ lineCount [] = 0 ∧ foldBlockString "|+" = some "\n" ∧ "\n".toList.count '\n' ≠ lineCount [] :=
  ⟨⟨[], [], rfl, List.forall_mem_nil _⟩, rfl, by decide, by decide⟩

end BlockScalar

end CiWorkflow.Text
