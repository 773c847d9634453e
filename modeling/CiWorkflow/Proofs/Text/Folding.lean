import CiWorkflow.Proofs.Text.BlockScalar

/-!
# Folding

A literal and a folded scalar with the same header and lines differ only between lines: where neither
of two lines that follow one another starts with a space or a tab, a single line feed between them
becomes a space, and of several one is dropped. Both are told from one cut of the literal text at its
runs of line feeds, of which there is only one.
-/

namespace CiWorkflow.Text

/-- A text cut at its line feeds: how many there are in front, and the lines, each with how many are behind it. -/
@[ext] structure Runs where
  leading : Nat
  lines : List (List Char × Nat)
  deriving DecidableEq, Repr

namespace Runs

/-- The lines, with something put for the line feeds between two of them. -/
def linesWith (between : List Char → Nat → List Char → List Char) : List (List Char × Nat) → List Char
  | [] => []
  | [(l, n)] => l ++ List.replicate n '\n'
  | (l, n) :: (m, k) :: ls => l ++ between l n m ++ linesWith between ((m, k) :: ls)

/-- The text, with something put for the line feeds between two lines. -/
def textWith (r : Runs) (between : List Char → Nat → List Char → List Char) : List Char :=
  List.replicate r.leading '\n' ++ linesWith between r.lines

/-- The line feeds between two lines as they are. -/
def kept (_ : List Char) (n : Nat) (_ : List Char) : List Char := List.replicate n '\n'

/-- A line starts neither with a space nor with a tab. -/
def IsFlush (l : List Char) : Prop := l.head? ≠ some ' ' ∧ l.head? ≠ some '\t'

instance : DecidablePred IsFlush := fun l => inferInstanceAs (Decidable (l.head? ≠ some ' ' ∧ l.head? ≠ some '\t'))

/-- What the line feeds between two lines are folded to. -/
def folded (l : List Char) (n : Nat) (m : List Char) : List Char :=
  if IsFlush l ∧ IsFlush m then if n = 1 then [' '] else List.replicate (n - 1) '\n'
  else List.replicate n '\n'

/-- The lines of a cut whose runs of line feeds are as long as they can be: no line is empty, there is no line feed in
it, and there is one between any two. -/
structure Maximal (ls : List (List Char × Nat)) : Prop where
  line : ∀ l ∈ ls, l.1 ≠ [] ∧ '\n' ∉ l.1
  between : ∀ l ∈ ls.dropLast, 0 < l.2

/-! ### There is one cut -/

section unique

variable {u v l l' : List Char} {ls ls' : List (List Char × Nat)}

lemma feeds_inj {m n : Nat} (h : List.replicate m '\n' ++ u = List.replicate n '\n' ++ v)
    (hu : u.head? ≠ some '\n') (hv : v.head? ≠ some '\n') : m = n ∧ u = v := by
  induction m generalizing n with
  | zero =>
    cases n with
    | zero => exact ⟨rfl, h⟩
    | succ n => exact absurd (by rw [show u = _ from h]; rfl) hu
  | succ m ih =>
    cases n with
    | zero => exact absurd (by rw [show v = _ from h.symm]; rfl) hv
    | succ n =>
      obtain ⟨same, rest⟩ := ih (List.cons.inj h).2
      exact ⟨by rw [same], rest⟩

/-- What ends a line does not go on with another one. -/
lemma ne_of_ended {c : Char} (hc : '\n' ∉ c :: l) (hu : u = [] ∨ u.head? = some '\n') : u ≠ c :: l ++ v := by
  rintro rfl
  rcases hu with hnil | hhead
  · cases hnil
  · obtain rfl : c = '\n' := by simpa using hhead
    exact hc List.mem_cons_self

lemma line_inj (h : l ++ u = l' ++ v) (hl : '\n' ∉ l) (hl' : '\n' ∉ l') (hu : u = [] ∨ u.head? = some '\n')
    (hv : v = [] ∨ v.head? = some '\n') : l = l' ∧ u = v := by
  induction l generalizing l' with
  | nil =>
    cases l' with
    | nil => exact ⟨rfl, h⟩
    | cons c l' => exact absurd h (ne_of_ended hl' hu)
  | cons c l ih =>
    cases l' with
    | nil => exact absurd h.symm (ne_of_ended hl hv)
    | cons d l' =>
      obtain ⟨first, rest⟩ := List.cons.inj h
      rw [List.mem_cons, not_or] at hl hl'
      obtain ⟨same, behind⟩ := ih rest hl.2 hl'.2
      exact ⟨by rw [first, same], behind⟩

lemma Maximal.tail {l : List Char × Nat} (h : Maximal (l :: ls)) : Maximal ls := by
  refine ⟨fun m hm => h.line m (List.mem_cons_of_mem _ hm), fun m hm => h.between m ?_⟩
  cases ls with
  | nil => cases hm
  | cons k ls => exact List.mem_cons_of_mem _ hm

lemma Maximal.pos {l : List Char × Nat} (h : Maximal (l :: ls)) (hls : ls ≠ []) : 0 < l.2 := by
  obtain ⟨k, ls, rfl⟩ := List.exists_cons_of_ne_nil hls
  exact h.between l List.mem_cons_self

lemma linesWith_kept_cons (l : List Char × Nat) (ls : List (List Char × Nat)) :
    linesWith kept (l :: ls) = l.1 ++ (List.replicate l.2 '\n' ++ linesWith kept ls) := by
  cases ls <;> simp [linesWith, kept]

/-- Lines do not start with a line feed. -/
lemma head?_linesWith_kept (h : Maximal ls) : (linesWith kept ls).head? ≠ some '\n' := by
  cases ls with
  | nil => exact nofun
  | cons l ls =>
    obtain ⟨hne, feed⟩ := h.line l List.mem_cons_self
    obtain ⟨c, k, hk⟩ := List.exists_cons_of_ne_nil hne
    rw [hk] at feed
    rw [linesWith_kept_cons, hk, List.cons_append, List.head?_cons, Ne, Option.some_inj]
    rintro rfl
    exact feed List.mem_cons_self

/-- What stands behind a line ends it. -/
lemma Maximal.ended {l : List Char × Nat} (h : Maximal (l :: ls)) :
    List.replicate l.2 '\n' ++ linesWith kept ls = [] ∨
      (List.replicate l.2 '\n' ++ linesWith kept ls).head? = some '\n' := by
  by_cases hls : ls = []
  · subst hls
    cases l.2 with
    | zero => exact Or.inl rfl
    | succ n => exact Or.inr rfl
  · obtain ⟨n, hn⟩ := Nat.exists_eq_succ_of_ne_zero (h.pos hls).ne'
    rw [hn]
    exact Or.inr rfl

lemma lines_inj (h : Maximal ls) (h' : Maximal ls') (same : linesWith kept ls = linesWith kept ls') : ls = ls' := by
  induction ls generalizing ls' with
  | nil =>
    cases ls' with
    | nil => rfl
    | cons l ls' =>
      rw [linesWith_kept_cons] at same
      exact absurd (List.append_eq_nil_iff.mp same.symm).1 (h'.line l List.mem_cons_self).1
  | cons l ls ih =>
    cases ls' with
    | nil =>
      rw [linesWith_kept_cons] at same
      exact absurd (List.append_eq_nil_iff.mp same).1 (h.line l List.mem_cons_self).1
    | cons l' ls' =>
      rw [linesWith_kept_cons, linesWith_kept_cons] at same
      obtain ⟨first, behind⟩ := line_inj same (h.line l List.mem_cons_self).2 (h'.line l' List.mem_cons_self).2
        h.ended h'.ended
      obtain ⟨feeds, rest⟩ := feeds_inj behind (head?_linesWith_kept h.tail) (head?_linesWith_kept h'.tail)
      rw [Prod.ext first feeds, ih h.tail h'.tail rest]

/-- A text is cut in one way into runs that are as long as they can be. -/
lemma eq_of_text_eq {r s : Runs} (hr : Maximal r.lines) (hs : Maximal s.lines)
    (h : r.textWith kept = s.textWith kept) : r = s := by
  obtain ⟨leading, lines⟩ := feeds_inj h (head?_linesWith_kept hr) (head?_linesWith_kept hs)
  exact Runs.ext leading (lines_inj hr hs lines)

end unique

/-! ### The cut of lines -/

/-- The cut of lines that stand one below the other, with `e` line feeds behind the last one. -/
def ofLines (e : Nat) : List (List Char) → Runs
  | [] => ⟨e, []⟩
  | [] :: ls => ⟨(ofLines e ls).leading + 1, (ofLines e ls).lines⟩
  | (c :: l) :: ls =>
    let r := ofLines e ls
    ⟨0, (c :: l, if ls = [] then r.leading else r.leading + 1) :: r.lines⟩

section cut

variable {e : Nat} {ls : List (List Char)}

/-- The lines of the cut are those with something in them. -/
lemma lines_ofLines (e : Nat) (ls : List (List Char)) : (ofLines e ls).lines.map Prod.fst = ls.filter (!·.isEmpty) := by
  fun_induction ofLines e ls with
  | case1 => rfl
  | case2 ls ih => simpa using ih
  | case3 c l ls r ih => simpa [r] using ih

lemma maximal_ofLines (e : Nat) (h : ∀ l ∈ ls, '\n' ∉ l) : Maximal (ofLines e ls).lines := by
  fun_induction ofLines e ls with
  | case1 => exact ⟨List.forall_mem_nil _, List.forall_mem_nil _⟩
  | case2 ls ih => exact ih fun l hl => h l (List.mem_cons_of_mem _ hl)
  | case3 c l ls r ih =>
    have rest := ih fun l hl => h l (List.mem_cons_of_mem _ hl)
    refine ⟨List.forall_mem_cons.mpr ⟨⟨List.cons_ne_nil c l, h _ List.mem_cons_self⟩, rest.line⟩, ?_⟩
    by_cases hr : r.lines = []
    · rw [hr]
      exact List.forall_mem_nil _
    · have more : ls ≠ [] := by
        rintro rfl
        exact hr rfl
      rw [List.dropLast_cons_of_ne_nil hr, if_neg more]
      exact List.forall_mem_cons.mpr ⟨Nat.succ_pos _, rest.between⟩

end cut

/-! ### Block scalars -/

/-- What a style puts for the line feeds between two lines. -/
def between : BlockStyle → List Char → Nat → List Char → List Char
  | .literal => kept
  | .folded => folded

lemma moreIndented_eq_false_iff (l : List Char) : BlockScalar.moreIndented l = false ↔ IsFlush l := by
  unfold BlockScalar.moreIndented IsFlush
  cases l <;> simp

/-- Between two lines stands what is put for the line feeds there. -/
lemma separator_some (style : BlockStyle) (p : List Char) (blank : Nat) (line : List Char) :
    BlockScalar.separator style (some p) blank line = between style p (blank + 1) line := by
  cases style with
  | literal => simp [BlockScalar.separator, between, kept]
  | folded =>
    simp only [BlockScalar.separator, between, folded, moreIndented_eq_false_iff, true_and]
    split
    · cases blank <;> simp
    · rfl

section scalar

variable {ls : List (List Char)}

/-- After a line, joining puts the rest of the cut. -/
lemma join_some (style : BlockStyle) (e : Nat) (h : ls = [] ∨ BlockScalar.Closed ls) (p : List Char) (blank : Nat) :
    p ++ BlockScalar.join style (some p) blank ls ++ List.replicate e '\n' =
      linesWith (between style) ((p, if ls = [] then (ofLines e ls).leading else blank + (ofLines e ls).leading + 1) ::
        (ofLines e ls).lines) := by
  induction ls generalizing p blank with
  | nil => simp [BlockScalar.join, ofLines, linesWith]
  | cons line ls ih =>
    have closed := h.resolve_left (List.cons_ne_nil line ls)
    rw [if_neg (List.cons_ne_nil line ls)]
    cases line with
    | nil =>
      have rest := closed.of_cons (Or.inl rfl)
      have moved := ih (Or.inr rest) p (blank + 1)
      rw [if_neg rest.ne_nil] at moved
      have count : blank + ((ofLines e ls).leading + 1) + 1 = blank + 1 + (ofLines e ls).leading + 1 := by omega
      rw [BlockScalar.join, ofLines, count]
      exact moved
    | cons c l =>
      have behind := ih closed.tail (c :: l) 0
      rw [Nat.zero_add] at behind
      rw [BlockScalar.join, separator_some, ofLines, linesWith, ← behind]
      simp only [List.append_assoc, Nat.add_zero]

lemma join_none (style : BlockStyle) (e : Nat) (h : BlockScalar.Closed ls) (blank : Nat) :
    BlockScalar.join style none blank ls ++ List.replicate e '\n' =
      List.replicate blank '\n' ++ (ofLines e ls).textWith (between style) := by
  induction ls generalizing blank with
  | nil => exact absurd rfl h.ne_nil
  | cons line ls ih =>
    cases line with
    | nil =>
      rw [BlockScalar.join, ih (h.of_cons (Or.inl rfl)), ofLines, textWith, textWith, List.replicate_succ',
        List.replicate_succ]
      simp
    | cons c l =>
      have behind := join_some style e h.tail (c :: l) 0
      rw [Nat.zero_add] at behind
      have front : BlockScalar.separator style none blank (c :: l) = List.replicate blank '\n' := rfl
      rw [BlockScalar.join, front, ofLines, textWith, ← behind]
      simp

end scalar

end Runs

namespace BlockScalar

/-- The line feeds at the end of a scalar with some content and so many empty lines behind it. -/
def endFeeds (chomping : Chomping) (content : List (List Char)) (trailing : Nat) : Nat :=
  match chomping with
  | .strip => 0
  | .keep => trailing + 1
  | .clip => if content = [] then 0 else 1

lemma ending_eq (chomping : Chomping) {text : List Char} {content : List (List Char)} (h : text = [] ↔ content = [])
    (trailing : Nat) : ending chomping text trailing = List.replicate (endFeeds chomping content trailing) '\n' := by
  cases chomping with
  | clip => by_cases hc : content = [] <;> simp [ending, endFeeds, h, hc]
  | _ => rfl

/-- The cut of a literal scalar. -/
def runs (chomping : Chomping) (lines : List (List Char)) : Runs :=
  let ls := dedented lines
  .ofLines (endFeeds chomping (content ls) (ls.length - (content ls).length)) (content ls)

lemma join_ne_nil (style : BlockStyle) {ls : List (List Char)} (h : Closed ls) (previous : Option (List Char))
    (blank : Nat) : join style previous blank ls ≠ [] := by
  fun_induction join style previous blank ls with
  | case1 => exact absurd rfl h.ne_nil
  | case2 previous blank ls ih => exact ih (h.of_cons (Or.inl rfl))
  | case3 previous blank c l ls => simp

/-- Both styles are told from the cut. -/
lemma value_eq_textWith (style : BlockStyle) (chomping : Chomping) (lines : List (List Char)) :
    value ⟨style, chomping, lines⟩ = (runs chomping lines).textWith (Runs.between style) := by
  unfold value runs
  dsimp only
  rcases closed_content (dedented lines) with hnil | closed
  · have empty : join style none 0 (content (dedented lines)) = [] ↔ content (dedented lines) = [] := by
      simp [hnil, join]
    rw [ending_eq chomping empty, hnil]
    simp [join, Runs.ofLines, Runs.textWith, Runs.linesWith]
  · have full : join style none 0 (content (dedented lines)) = [] ↔ content (dedented lines) = [] := by
      simp [join_ne_nil style closed, closed.ne_nil]
    rw [ending_eq chomping full, Runs.join_none style _ closed]
    rfl

lemma filter_content (ls : List (List Char)) : (content ls).filter (!·.isEmpty) = ls.filter (!·.isEmpty) := by
  obtain ⟨n, whole⟩ := exists_content ls
  conv_rhs => rw [whole]
  simp

/-- There is no line feed in what is read of a body. -/
lemma feed_not_mem_content (body : List Char) : ∀ l ∈ content (dedented (Text.lines body)), '\n' ∉ l := by
  intro l hl
  obtain ⟨n, whole⟩ := exists_content (dedented (Text.lines body))
  have read : l ∈ dedented (Text.lines body) := by
    rw [whole]
    exact List.mem_append_left _ hl
  obtain ⟨w, hw, rfl⟩ := List.mem_map.mp read
  unfold dedent
  split
  · exact List.not_mem_nil
  · exact fun hn => feed_not_mem_of_mem_lines hw (List.mem_of_mem_drop hn)

/-- Below one header, a literal text is cut in exactly one way into runs of line feeds that are as long as they can be,
and the lines between them; these are the lines with something in them, without the indentation. The folded text is
the same but for the runs between two lines that start neither with a space nor with a tab: there a single line feed
is a space, and of several one is missing. -/
theorem folded_of_literal {header : List Char} (h : '\n' ∉ header) (body : List Char) :
    ∃ r : Runs, Runs.Maximal r.lines ∧
      (∀ s : Runs, Runs.Maximal s.lines → s.textWith Runs.kept = r.textWith Runs.kept → s = r) ∧
      r.lines.map Prod.fst = (dedented (Text.lines body)).filter (!·.isEmpty) ∧
      foldBlockString (String.ofList ('|' :: header ++ '\n' :: body)) = some (String.ofList (r.textWith Runs.kept)) ∧
      foldBlockString (String.ofList ('>' :: header ++ '\n' :: body)) =
        some (String.ofList (r.textWith Runs.folded)) := by
  have maximal : Runs.Maximal (runs (chompingOf header) (Text.lines body)).lines :=
    Runs.maximal_ofLines _ (feed_not_mem_content body)
  have literal := foldBlockScalar_of_header .literal h body
  have folded := foldBlockScalar_of_header .folded h body
  rw [value_eq_textWith] at literal folded
  refine ⟨_, maximal, fun s hs => Runs.eq_of_text_eq hs maximal, ?_, ?_, ?_⟩
  · exact (Runs.lines_ofLines _ _).trans (filter_content _)
  · exact foldBlockString_ofList literal
  · exact foldBlockString_ofList folded

/-- Paragraphs with a line further right between them. -/
theorem folded_of_literal_paragraphs :
    '\n' ∉ "- # note".toList ∧
      foldBlockString "|- # note\n\n  a\n  b\n\n  c\n    d\n  e\n\n" = some "\na\nb\n\nc\n  d\ne" ∧
      foldBlockString ">- # note\n\n  a\n  b\n\n  c\n    d\n  e\n\n" = some "\na b\nc\n  d\ne" := by
  have feed : '\n' ∉ "- # note".toList := by decide
  obtain ⟨r, -, unique, -, literal, folded⟩ :=
    folded_of_literal feed "\n  a\n  b\n\n  c\n    d\n  e\n\n".toList
  let cut : Runs := ⟨1, [("a".toList, 1), ("b".toList, 2), ("c".toList, 1), ("  d".toList, 1), ("e".toList, 0)]⟩
  have read : foldBlockString "|- # note\n\n  a\n  b\n\n  c\n    d\n  e\n\n" =
      some (String.ofList (cut.textWith Runs.kept)) := by decide
  have text : cut.textWith Runs.kept = r.textWith Runs.kept :=
    String.ofList_injective (Option.some.inj (read.symm.trans literal))
  obtain rfl : cut = r := unique cut ⟨by decide, by decide⟩ text
  exact ⟨feed, literal, folded⟩

end BlockScalar

end CiWorkflow.Text
