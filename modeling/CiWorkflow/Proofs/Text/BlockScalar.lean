import CiWorkflow.Proofs.Text.Lines
import CiWorkflow.Text.BlockScalar
import Mathlib.Data.List.DropRight
import Mathlib.Data.List.Forall2

/-!
# Writing literal block scalars

Lines that are indented by the same number of spaces below a `|` are read back, whatever is in them,
as long as the first one with something in it does not start with a space and the last one is not
empty. Empty lines may hold any number of spaces, and empty lines at the end do not count.
-/

namespace CiWorkflow.Text

/-! ### Headers -/

lemma splitLine_append {l : List Char} (h : '\n' ∉ l) (rest : List Char) :
    splitLine (l ++ '\n' :: rest) = (l, rest) := by
  have inside : ∀ c ∈ l, (c != '\n') = true := by
    intro c hc
    simpa using fun hn : c = '\n' => h (hn ▸ hc)
  simp [splitLine, List.takeWhile_append_of_pos inside, List.dropWhile_append_of_pos inside]

namespace BlockScalar

/-- The indicator of a style. -/
def indicator : BlockStyle → Char
  | .literal => '|'
  | .folded => '>'

lemma foldBlockScalar_of_header (style : BlockStyle) {header : List Char} (h : '\n' ∉ header) (body : List Char) :
    foldBlockScalar (indicator style :: header ++ '\n' :: body) =
      some (value ⟨style, chompingOf header, Text.lines body⟩) := by
  cases style <;> simp [foldBlockScalar, ofText?, indicator, splitLine_append h]

lemma foldBlockString_ofList {t v : List Char} (h : foldBlockScalar t = some v) :
    foldBlockString (String.ofList t) = some (String.ofList v) := by
  rw [foldBlockString, String.toList_ofList, h]
  rfl

/-! ### Content -/

section content

variable {ls : List (List Char)}

/-- The last line is there, and it is not empty. -/
def Closed (ls : List (List Char)) : Prop := ∃ l, ls.getLast? = some l ∧ l ≠ []

lemma Closed.ne_nil (h : Closed ls) : ls ≠ [] := by
  rintro rfl
  obtain ⟨l, hl, -⟩ := h
  cases hl

lemma Closed.of_cons {l : List Char} (h : Closed (l :: ls)) (hne : l = [] ∨ ls ≠ []) : Closed ls := by
  obtain ⟨l', hl, hl'⟩ := h
  cases ls with
  | nil =>
    obtain rfl : l = l' := by simpa using hl
    exact absurd (hne.resolve_right fun h => h rfl) hl'
  | cons m ls => exact ⟨l', by simpa using hl, hl'⟩

lemma Closed.tail {l : List Char} (h : Closed (l :: ls)) : ls = [] ∨ Closed ls := by
  by_cases hls : ls = []
  · exact Or.inl hls
  · exact Or.inr (h.of_cons (Or.inr hls))

/-- Empty lines at the end are no content. -/
lemma content_append_of_closed (h : Closed ls) (n : Nat) : content (ls ++ List.replicate n []) = ls := by
  obtain ⟨l, hl, hne⟩ := h
  obtain ⟨front, rfl⟩ := List.getLast?_eq_some_iff.mp hl
  simp [content, hne]

lemma content_append_empty (ls : List (List Char)) : content (ls ++ [[]]) = content ls := by
  simp [content]

lemma exists_content (ls : List (List Char)) : ∃ n, ls = content ls ++ List.replicate n [] := by
  have empty : ∀ l ∈ ls.rtakeWhile List.isEmpty, l = [] := by
    intro l hl
    simpa using List.mem_rtakeWhile_imp hl
  refine ⟨(ls.rtakeWhile List.isEmpty).length, ?_⟩
  rw [← List.eq_replicate_of_mem empty]
  exact List.rdropWhile_append_rtakeWhile.symm

lemma closed_content (ls : List (List Char)) : content ls = [] ∨ Closed (content ls) := by
  by_cases h : content ls = []
  · exact Or.inl h
  · refine Or.inr ⟨(content ls).getLast h, List.getLast?_eq_getLast_of_ne_nil h, fun hnil => ?_⟩
    have full : ¬ ((content ls).getLast h).isEmpty = true := List.rdropWhile_last_not List.isEmpty ls h
    rw [hnil] at full
    exact full rfl

end content

/-! ### Joining -/

/-- The line feeds between `previous` and a line that has `blank` empty lines before it. -/
def breaks (previous : Option (List Char)) (blank : Nat) : Nat :=
  match previous with
  | none => blank
  | some _ => blank + 1

lemma breaks_succ (previous : Option (List Char)) (blank : Nat) :
    breaks previous (blank + 1) = breaks previous blank + 1 := by
  cases previous <;> rfl

lemma separator_literal (previous : Option (List Char)) (blank : Nat) (line : List Char) :
    separator .literal previous blank line = List.replicate (breaks previous blank) '\n' := by
  cases previous <;> simp [separator, breaks]

/-- Literal lines stand one below the other. -/
lemma join_literal {ls : List (List Char)} (h : Closed ls) (previous : Option (List Char)) (blank : Nat) :
    join .literal previous blank ls = List.replicate (breaks previous blank) '\n' ++ joined ls := by
  fun_induction join .literal previous blank ls with
  | case1 => exact absurd rfl h.ne_nil
  | case2 previous blank ls ih =>
    have rest := h.of_cons (Or.inl rfl)
    rw [ih rest, breaks_succ, joined_cons [] rest.ne_nil, List.replicate_succ']
    simp
  | case3 previous blank c l ls ih =>
    rw [separator_literal]
    by_cases hls : ls = []
    · rw [hls, joined_singleton, join, List.append_nil]
    · rw [ih (h.of_cons (Or.inr hls)), joined_cons (c :: l) hls, List.append_assoc]
      rfl

lemma joined_ne_nil {ls : List (List Char)} (h : Closed ls) : joined ls ≠ [] := by
  obtain ⟨l, ls, rfl⟩ := List.exists_cons_of_ne_nil h.ne_nil
  by_cases hls : ls = []
  · obtain ⟨l', hl, hne⟩ := h
    subst hls
    obtain rfl : l = l' := by simpa using hl
    rwa [joined_singleton]
  · rw [joined_cons l hls]
    simp

/-! ### Indentation -/

/-- `w` is the line `l` behind `k` spaces. An empty line stands behind any number of them. -/
inductive IsIndented (k : Nat) : List Char → List Char → Prop
  | empty (n : Nat) : IsIndented k [] (List.replicate n ' ')
  | full {l : List Char} (h : l ≠ []) : IsIndented k l (List.replicate k ' ' ++ l)

/-- Lines that can be written as a literal scalar. -/
structure Writable (ls : List (List Char)) : Prop where
  line : ∀ l ∈ ls, IsLine l
  visible : ∀ l ∈ ls, l = [] ∨ ∃ c ∈ l, isBlank c = false
  flush : ∀ l, ls.find? (!·.isEmpty) = some l → l.head? ≠ some ' '
  closed : Closed ls

section indented

variable {k : Nat} {l w : List Char} {ls ws : List (List Char)}

lemma IsIndented.isLine (h : IsIndented k l w) (hl : IsLine l) : IsLine w := by
  cases h with
  | empty n =>
    refine ⟨fun hn => ?_, fun hr => ?_⟩
    · exact absurd (List.eq_of_mem_replicate hn) (by decide)
    · exact absurd (List.eq_of_mem_replicate (List.mem_of_getLast? hr)) (by decide)
  | full hne =>
    refine ⟨fun hn => ?_, fun hr => ?_⟩
    · rcases List.mem_append.mp hn with hn | hn
      · exact absurd (List.eq_of_mem_replicate hn) (by decide)
      · exact hl.feed hn
    · rw [List.getLast?_append_of_ne_nil _ hne] at hr
      exact hl.carriage hr

lemma isLine_of_indented (h : List.Forall₂ (IsIndented k) ls ws) (hl : ∀ l ∈ ls, IsLine l) :
    ∀ w ∈ ws, IsLine w := by
  induction h with
  | nil => exact List.forall_mem_nil _
  | cons hw _ ih =>
    obtain ⟨first, rest⟩ := List.forall_mem_cons.mp hl
    exact List.forall_mem_cons.mpr ⟨hw.isLine first, ih rest⟩

/-- What is blank in the written line is an empty one. -/
lemma IsIndented.allBlank_iff (h : IsIndented k l w) (hv : l = [] ∨ ∃ c ∈ l, isBlank c = false) :
    allBlank w = true ↔ l = [] := by
  cases h with
  | empty n =>
    have spaces : allBlank (List.replicate n ' ') = true := by
      rw [allBlank, List.all_eq_true]
      intro c hc
      rw [List.eq_of_mem_replicate hc]
      decide
    simp [spaces]
  | full hne =>
    obtain ⟨c, hc, visible⟩ := hv.resolve_left hne
    refine ⟨fun blank => ?_, fun hnil => absurd hnil hne⟩
    rw [List.all_eq_true.mp blank c (List.mem_append_right _ hc)] at visible
    cases visible

lemma leadingSpaces_append (k : Nat) (l : List Char) :
    leadingSpaces (List.replicate k ' ' ++ l) = k + leadingSpaces l := by
  have spaces : ∀ c ∈ List.replicate k ' ', (c == ' ') = true := by
    intro c hc
    rw [List.eq_of_mem_replicate hc]
    rfl
  rw [leadingSpaces, List.takeWhile_append_of_pos spaces, List.length_append, List.length_replicate, leadingSpaces]

lemma IsIndented.dedent (h : IsIndented k l w) (hv : l = [] ∨ ∃ c ∈ l, isBlank c = false) :
    BlockScalar.dedent k w = l := by
  have blank := h.allBlank_iff hv
  unfold BlockScalar.dedent
  by_cases hl : l = []
  · rw [if_pos (blank.mpr hl), hl]
  · rw [if_neg (mt blank.mp hl)]
    cases h with
    | empty n => exact absurd rfl hl
    | full hne =>
      rw [leadingSpaces_append, Nat.min_eq_right (Nat.le_add_right _ _)]
      exact List.drop_left' List.length_replicate

/-- The indentation is found at the first line with something in it. -/
lemma indentation_of_indented (h : List.Forall₂ (IsIndented k) ls ws)
    (hv : ∀ l ∈ ls, l = [] ∨ ∃ c ∈ l, isBlank c = false)
    (hf : ∃ l, ls.find? (!·.isEmpty) = some l ∧ l.head? ≠ some ' ') : indentation ws = k := by
  induction h with
  | nil =>
    obtain ⟨l, hl, -⟩ := hf
    cases hl
  | @cons l w ls ws hw _ ih =>
    have blank := hw.allBlank_iff (hv l List.mem_cons_self)
    obtain ⟨l', hfind, hhead⟩ := hf
    by_cases hl : l = []
    · have skipped : indentation (w :: ws) = indentation ws := by
        simp [indentation, blank.mpr hl]
      rw [skipped]
      refine ih (fun l hl => hv l (List.mem_cons_of_mem _ hl)) ⟨l', ?_, hhead⟩
      simpa [List.find?_cons, hl] using hfind
    · have found : indentation (w :: ws) = leadingSpaces w := by
        have full : allBlank w = false := by simpa using mt blank.mp hl
        simp [indentation, full]
      obtain rfl : l = l' := by simpa [List.find?_cons, hl] using hfind
      rw [found]
      cases hw with
      | empty n => exact absurd rfl hl
      | full hne =>
        obtain ⟨c, l, rfl⟩ := List.exists_cons_of_ne_nil hne
        have first : c ≠ ' ' := by simpa using hhead
        rw [leadingSpaces_append]
        simp [leadingSpaces, first]

lemma dedented_of_indented (h : List.Forall₂ (IsIndented k) ls ws)
    (hv : ∀ l ∈ ls, l = [] ∨ ∃ c ∈ l, isBlank c = false)
    (hf : ∃ l, ls.find? (!·.isEmpty) = some l ∧ l.head? ≠ some ' ') : dedented ws = ls := by
  rw [dedented, indentation_of_indented h hv hf]
  clear hf
  induction h with
  | nil => rfl
  | cons hw _ ih =>
    rw [List.map_cons, hw.dedent (hv _ List.mem_cons_self), ih fun l hl => hv l (List.mem_cons_of_mem _ hl)]

lemma dedented_append_empty (ws : List (List Char)) : dedented (ws ++ [[]]) = dedented ws ++ [[]] := by
  have same : indentation (ws ++ [[]]) = indentation ws := by
    simp [indentation, List.find?_append, allBlank]
  simp [dedented, same, BlockScalar.dedent, allBlank]

end indented

/-! ### Reading back -/

section written

variable {k n : Nat} {ls ws : List (List Char)} {body : List Char}

lemma Closed.exists_full (h : Closed ls) : ∃ l, ls.find? (!·.isEmpty) = some l := by
  obtain ⟨l, hl, hne⟩ := h
  rw [← Option.isSome_iff_exists, List.find?_isSome]
  exact ⟨l, List.mem_of_getLast? hl, by simpa using hne⟩

/-- What is left of the lines that are read is what was written. -/
lemma content_of_written (h : Writable ls) (hw : List.Forall₂ (IsIndented k) (ls ++ List.replicate n []) ws)
    (hb : body = joined ws ∨ body = joined ws ++ ['\n']) : content (dedented (Text.lines body)) = ls := by
  have visible : ∀ l ∈ ls ++ List.replicate n [], l = [] ∨ ∃ c ∈ l, isBlank c = false := by
    intro l hl
    rcases List.mem_append.mp hl with hl | hl
    · exact h.visible l hl
    · exact Or.inl (List.eq_of_mem_replicate hl)
  have line : ∀ w ∈ ws, IsLine w := by
    refine isLine_of_indented hw fun l hl => ?_
    rcases List.mem_append.mp hl with hl | hl
    · exact h.line l hl
    · rw [List.eq_of_mem_replicate hl]
      exact ⟨List.not_mem_nil, nofun⟩
  obtain ⟨l, hl⟩ := h.closed.exists_full
  have found : (ls ++ List.replicate n []).find? (!·.isEmpty) = some l := by rw [List.find?_append, hl]; rfl
  have whole : dedented ws = ls ++ List.replicate n [] :=
    dedented_of_indented hw visible ⟨l, found, h.flush l hl⟩
  have kept : content (dedented ws) = ls := by rw [whole, content_append_of_closed h.closed]
  rcases hb with rfl | rfl
  · rcases lines_joined line with same | cut
    · rw [same, kept]
    · rw [← content_append_empty, ← dedented_append_empty, cut, kept]
  · have ne : ws ≠ [] := by
      rintro rfl
      exact h.closed.ne_nil (List.append_eq_nil_iff.mp (List.forall₂_nil_right_iff.mp hw)).1
    rw [lines_joined_ended ne line, kept]

lemma value_literal (chomping : Chomping) {lines : List (List Char)} (hc : content (dedented lines) = ls)
    (h : Closed ls) :
    value ⟨.literal, chomping, lines⟩ =
      joined ls ++ ending chomping (joined ls) ((dedented lines).length - ls.length) := by
  have text : join .literal none 0 ls = joined ls := join_literal h none 0
  simp only [value, hc, text]

/-- Lines that can be written are read back from a scalar in which they stand behind spaces, however many empty lines
follow them: joined by line feeds, with one more at the end unless that is stripped. -/
theorem literal_read_back (h : Writable ls) (hw : List.Forall₂ (IsIndented k) (ls ++ List.replicate n []) ws)
    (hb : body = joined ws ∨ body = joined ws ++ ['\n']) :
    foldBlockString (String.ofList ('|' :: '\n' :: body)) = some (String.ofList (joined ls ++ ['\n'])) ∧
      foldBlockString (String.ofList ('|' :: '-' :: '\n' :: body)) = some (String.ofList (joined ls)) := by
  have content := content_of_written h hw hb
  have full : (joined ls).isEmpty = false := by simpa using joined_ne_nil h.closed
  have clip : foldBlockScalar ('|' :: '\n' :: body) = some (joined ls ++ ['\n']) := by
    have read := foldBlockScalar_of_header .literal (List.not_mem_nil : '\n' ∉ []) body
    rw [value_literal _ content h.closed] at read
    simpa [indicator, chompingOf, ending, full] using read
  have strip : foldBlockScalar ('|' :: '-' :: '\n' :: body) = some (joined ls) := by
    have sign : chompingOf ['-'] = .strip := by decide
    have feed : '\n' ∉ ['-'] := by decide
    have read := foldBlockScalar_of_header .literal feed body
    rw [value_literal _ content h.closed, sign] at read
    simpa [indicator, ending] using read
  exact ⟨foldBlockString_ofList clip, foldBlockString_ofList strip⟩

end written

/-- Empty lines around what is written, a line behind a tab, and one further right. -/
theorem literal_read_back_uneven :
    foldBlockString "|\n \n  first\n  \tb c\n\n    déjà\n   \n" = some "\nfirst\n\tb c\n\n  déjà\n" ∧
      foldBlockString "|-\n \n  first\n  \tb c\n\n    déjà\n   \n" = some "\nfirst\n\tb c\n\n  déjà" := by
  have writable : Writable ["".toList, "first".toList, "\tb c".toList, "".toList, "  déjà".toList] := by
    have all : ∀ l ∈ ["".toList, "first".toList, "\tb c".toList, "".toList, "  déjà".toList],
        '\n' ∉ l ∧ l.getLast? ≠ some '\r' ∧ (l = [] ∨ l.any (!isBlank ·) = true) := by decide
    refine ⟨fun l hl => ?_, fun l hl => ?_, ?_, "  déjà".toList, rfl, by decide⟩
    · exact ⟨(all l hl).1, (all l hl).2.1⟩
    · exact (all l hl).2.2.imp_right fun visible => by simpa using visible
    · rintro l ⟨⟩
      decide
  have indented : List.Forall₂ (IsIndented 2)
      (["".toList, "first".toList, "\tb c".toList, "".toList, "  déjà".toList] ++ List.replicate 1 [])
      [" ".toList, "  first".toList, "  \tb c".toList, "".toList, "    déjà".toList, "   ".toList] :=
    .cons (.empty 1) (.cons (.full (by decide)) (.cons (.full (by decide)) (.cons (.empty 0)
      (.cons (.full (by decide)) (.cons (.empty 3) .nil)))))
  exact literal_read_back writable indented (Or.inr rfl)

end BlockScalar

end CiWorkflow.Text
