import CiWorkflow.Toml.Quoted
import Mathlib.Data.List.Basic
import Mathlib.Tactic.Lemma

/-!
# Reading back TOML texts

What is written for a text is read back as that text, whatever is in it and whatever follows, as long
as no further quote does. Between three quotes on each side a text is spelled character by character
(`Spelled`): as itself, or by an escape, and with no more than two quotes in a row, so that three of
them are found at its end and nowhere before.
-/

namespace CiWorkflow.Toml

variable {c : Char} {s w rest : List Char} {fuel n : Nat}

/-! ### Blanks and line breaks -/

/-- What a class of characters has in it differs from what it has not. -/
lemma ne_of_class {d : Char} {p : Char → Bool} (hc : p c = true) (hd : p d = false) : c ≠ d := by
  rintro rfl
  rw [hc] at hd
  cases hd

lemma not_isBlank (space : c ≠ ' ') (tab : c ≠ '\t') : isBlank c = false := by
  simp [isBlank, space, tab]

lemma not_atBreak (feed : c ≠ '\n') (carriage : c ≠ '\r') (r : List Char) : atBreak (c :: r) = false := by
  unfold atBreak
  split <;> simp_all

lemma not_atBreak_of_isPlain (h : isPlain c = true) (r : List Char) : atBreak (c :: r) = false :=
  not_atBreak (ne_of_class h (by decide)) (ne_of_class h (by decide)) r

/-! ### Escapes -/

/-- What stands for a character behind a backslash. It does not start with a blank or a line break. -/
structure IsEscape (c : Char) (body : List Char) : Prop where
  reads : ∀ rest, escaped? (body ++ rest) = some (c, rest)
  visible : ∃ d r, body = d :: r ∧ isBlank d = false ∧ isPlain d = true

lemma hexValue?_toUpper {d : Nat} (h : d < 16) : Text.hexValue? (Text.hexDigit d).toUpper = some d := by
  have all : ∀ m ∈ List.range 16, Text.hexValue? (Text.hexDigit m).toUpper = some m := by decide
  exact all d (List.mem_range.mpr h)

lemma coded?_of_lt (h : c.toNat < 256) (rest : List Char) :
    coded? 4 ('0' :: '0' :: (Text.hexDigit (c.toNat / 16)).toUpper :: (Text.hexDigit (c.toNat % 16)).toUpper :: rest) =
      some (c, rest) := by
  have zero : Text.hexValue? '0' = some 0 := by decide
  have high := hexValue?_toUpper (show c.toNat / 16 < 16 by omega)
  have low := hexValue?_toUpper (show c.toNat % 16 < 16 by omega)
  have code : 16 * (c.toNat / 16) + c.toNat % 16 = c.toNat := Nat.div_add_mod _ _
  simp [coded?, zero, high, low, code]

lemma toNat_lt_of_not_isPlain (h : isPlain c = false) : c.toNat < 256 := by
  by_contra big
  have printed : ' ' ≤ c := by
    show (' ').toNat ≤ c.toNat
    exact Nat.le_trans (by decide) (Nat.le_of_not_lt big)
  have other : c ≠ '\x7f' := by
    rintro rfl
    exact big (by decide)
  simp [isPlain, printed, other] at h

lemma exists_isEscape (h : c = '\n' ∨ c = doubleQuote ∨ c = '\\' ∨ c = '\t' ∨ isPlain c = false) :
    ∃ body, escape c = '\\' :: body ∧ IsEscape c body := by
  unfold escape
  split_ifs with h1 h2 h3 h4 h5 h6
  · exact ⟨_, rfl, fun _ => by rw [h1]; rfl, _, _, rfl, by decide, by decide⟩
  · exact ⟨_, rfl, fun _ => by rw [h2]; rfl, _, _, rfl, by decide, by decide⟩
  · exact ⟨_, rfl, fun _ => by rw [h3]; rfl, _, _, rfl, by decide, by decide⟩
  · exact ⟨_, rfl, fun _ => by rw [h4]; rfl, _, _, rfl, by decide, by decide⟩
  · exact ⟨_, rfl, fun _ => by rw [h5]; rfl, _, _, rfl, by decide, by decide⟩
  · rcases h6 with rfl | rfl
    · exact ⟨_, rfl, fun _ => rfl, _, _, rfl, by decide, by decide⟩
    · exact ⟨_, rfl, fun _ => rfl, _, _, rfl, by decide, by decide⟩
  · have small : c.toNat < 256 := toNat_lt_of_not_isPlain (by tauto)
    exact ⟨_, rfl, fun rest => coded?_of_lt small rest, _, _, rfl, by decide, by decide⟩

/-! ### Texts on one line -/

/-- A character is written as itself or as an escape. -/
lemma writeBasic_cons (n : Nat) (c : Char) (s : List Char) :
    (∃ body, IsEscape c body ∧ writeBasic false n (c :: s) = '\\' :: (body ++ writeBasic false 0 s)) ∨
      c ≠ doubleQuote ∧ c ≠ '\\' ∧ isPlain c = true ∧ writeBasic false n (c :: s) = c :: writeBasic false 0 s := by
  by_cases escaped : c = doubleQuote ∨ c = '\\' ∨ c = '\t' ∨ isPlain c = false
  · left
    obtain ⟨body, hbody, isEscape⟩ := exists_isEscape (Or.inr escaped)
    have written : writeBasic false n (c :: s) = escape c ++ writeBasic false 0 s := by
      rw [writeBasic]
      by_cases hq : c = doubleQuote
      · rw [if_pos hq]
        rfl
      · have other : c = '\t' ∨ c = '\\' ∨ (!isPlain c) = true := by
          rw [Bool.not_eq_true']
          tauto
        rw [if_neg hq, if_neg (by simp), if_pos other]
    exact ⟨body, isEscape, by rw [written, hbody]; rfl⟩
  · right
    simp only [not_or, Bool.not_eq_false] at escaped
    obtain ⟨hq, hb, ht, hp⟩ := escaped
    exact ⟨hq, hb, hp, by simp [writeBasic, hq, hb, ht, hp]⟩

lemma head?_writeBasic (n : Nat) (s : List Char) : (writeBasic false n s).head? ≠ some doubleQuote := by
  cases s with
  | nil => exact nofun
  | cons c s =>
    rcases writeBasic_cons n c s with ⟨body, -, written⟩ | ⟨other, -, -, written⟩
    · rw [written, List.head?_cons, Ne, Option.some_inj]
      decide
    · rw [written, List.head?_cons, Ne, Option.some_inj]
      exact other

/-- A text is read back up to the closing quote. -/
lemma basic_writeBasic (n : Nat) (s rest : List Char) (h : s.length < fuel) :
    basic fuel (writeBasic false n s ++ doubleQuote :: rest) = some (s, rest) := by
  induction s generalizing n fuel with
  | nil =>
    obtain ⟨fuel, rfl⟩ := Nat.exists_eq_succ_of_ne_zero (Nat.ne_zero_of_lt h)
    simp [writeBasic, basic]
  | cons c s ih =>
    obtain ⟨fuel, rfl⟩ := Nat.exists_eq_succ_of_ne_zero (Nat.ne_zero_of_lt h)
    have behind := ih 0 (show s.length < fuel by simpa using h)
    rcases writeBasic_cons n c s with ⟨body, isEscape, written⟩ | ⟨hq, hb, hp, written⟩
    · have start : '\\' ≠ doubleQuote := by decide
      rw [written, List.cons_append, List.append_assoc]
      simp [basic, start, isEscape.reads, behind]
    · rw [written, List.cons_append]
      simp [basic, hq, hb, hp, behind]

lemma literal_append (h : ∀ c ∈ s, isPlain c = true ∧ c ≠ singleQuote) (rest : List Char) :
    literal (s ++ singleQuote :: rest) = some (s, rest) := by
  induction s with
  | nil => simp [literal]
  | cons c s ih =>
    obtain ⟨⟨hp, hq⟩, more⟩ := List.forall_mem_cons.mp h
    simp [literal, hp, hq, ih more]

/-! ### Texts of several lines -/

/-- How a text may stand between three quotes on each side, where `n` more of the quotes come right before it. -/
inductive Spelled (quote : Char) (escapes : Bool) : Nat → List Char → List Char → Prop
  | nil (n : Nat) : Spelled quote escapes n [] []
  | quote {n : Nat} {s w : List Char} (few : n < quotesInRow) (more : Spelled quote escapes (n + 1) s w) :
      Spelled quote escapes n (quote :: s) (quote :: w)
  | plain {n : Nat} {c : Char} {s w : List Char} (other : c ≠ quote) (isPlain : isPlain c = true)
      (noEscape : escapes = true → c ≠ '\\') (more : Spelled quote escapes 0 s w) :
      Spelled quote escapes n (c :: s) (c :: w)
  | feed {n : Nat} {s w : List Char} (more : Spelled quote escapes 0 s w) :
      Spelled quote escapes n ('\n' :: s) ('\n' :: w)
  | escape {n : Nat} {c : Char} {body s w : List Char} (h : escapes = true) (isEscape : IsEscape c body)
      (more : Spelled quote escapes 0 s w) : Spelled quote escapes n (c :: s) ('\\' :: (body ++ w))

lemma spelled_writeBasic (s : List Char) (n : Nat) : Spelled doubleQuote true n s (writeBasic true n s) := by
  induction s generalizing n with
  | nil => exact .nil n
  | cons c s ih =>
    simp only [writeBasic, if_true, and_true, Bool.not_eq_true']
    split_ifs with hq few hf he
    · obtain ⟨body, hbody, isEscape⟩ := exists_isEscape (Or.inr (Or.inl hq))
      rw [hbody]
      exact .escape rfl isEscape (ih 0)
    · rw [hq]
      exact .quote (Nat.lt_of_not_le few) (ih (n + 1))
    · rw [hf]
      exact .feed (ih 0)
    · obtain ⟨body, hbody, isEscape⟩ := exists_isEscape (c := c) (by tauto)
      rw [hbody]
      exact .escape rfl isEscape (ih 0)
    · simp only [not_or, Bool.not_eq_false] at he
      exact .plain hq he.2.2 (fun _ => he.2.1) (ih 0)

lemma le_longestRun (q : Char) (n : Nat) (s : List Char) : n ≤ longestRun q n s := by
  induction s generalizing n with
  | nil => exact Nat.le_refl n
  | cons c s ih =>
    unfold longestRun
    split
    · exact Nat.le_of_succ_le (ih (n + 1))
    · exact Nat.le_max_left _ _

/-- A text without escapes is spelled by itself where the quotes in a row are few. -/
lemma spelled_self {q : Char} (h : ∀ c ∈ s, needsEscape c = false)
    (hr : longestRun q n s ≤ quotesInRow) : Spelled q false n s s := by
  induction s generalizing n with
  | nil => exact .nil n
  | cons c s ih =>
    obtain ⟨first, more⟩ := List.forall_mem_cons.mp h
    unfold longestRun at hr
    split_ifs at hr with hc
    · rw [hc]
      exact .quote (Nat.lt_of_lt_of_le (Nat.lt_succ_self n) (Nat.le_trans (le_longestRun q (n + 1) s) hr)) (ih more hr)
    · have rest := ih more (Nat.le_trans (Nat.le_max_right _ _) hr)
      by_cases feed : c = '\n'
      · rw [feed]
        exact .feed rest
      · have plain : isPlain c = true := by simpa [needsEscape, feed] using first
        exact .plain hc plain nofun rest

section spelled

variable {quote : Char} {escapes : Bool}

/-- Where three quotes stand in a row, counted with those before, nothing but quotes is left of the text. -/
lemma Spelled.eq_replicate (h : Spelled quote escapes n s w) (hb : quote ≠ '\\') (hf : quote ≠ '\n')
    (hn : n ≤ quotesInRow) (run : List.replicate (quotesInRow + 1 - n) quote <+: w ++ rest) :
    ∃ k, n + k ≤ quotesInRow ∧ s = List.replicate k quote ∧ w = List.replicate k quote := by
  have head : ∀ {d : Char} {r : List Char} {n : Nat}, n ≤ quotesInRow →
      List.replicate (quotesInRow + 1 - n) quote <+: d :: r → quote = d := by
    intro d r n hn run
    rw [Nat.succ_sub hn, List.replicate_succ, List.cons_prefix_cons] at run
    exact run.1
  induction h with
  | nil n => exact ⟨0, hn, rfl, rfl⟩
  | @quote n s w few more ih =>
    rw [Nat.succ_sub hn, List.replicate_succ, List.cons_append, List.cons_prefix_cons] at run
    have same : quotesInRow - n = quotesInRow + 1 - (n + 1) := by omega
    rw [same] at run
    obtain ⟨k, hk, hs, hw⟩ := ih few run.2
    exact ⟨k + 1, by omega, by rw [hs]; rfl, by rw [hw]; rfl⟩
  | plain other => exact absurd (head hn run).symm other
  | feed => exact absurd (head hn run) hf
  | escape => exact absurd (head hn run) hb

/-- Up to two quotes belong to the text when three come behind them. -/
lemma lines_replicate {k : Nat} (hk : k ≤ quotesInRow) (hrest : rest.head? ≠ some quote) (fuel : Nat) :
    lines quote escapes (fuel + 1) (List.replicate k quote ++ (List.replicate 3 quote ++ rest)) =
      some (List.replicate k quote, rest) := by
  have none : closing quote rest = ([], rest) := by
    unfold closing
    split <;> simp_all
  have two : k = 0 ∨ k = 1 ∨ k = 2 := by
    unfold quotesInRow at hk
    omega
  rcases two with rfl | rfl | rfl
  · simp [lines, closes, List.replicate, none]
  · cases rest with
    | nil => simp [lines, closes, List.replicate, closing]
    | cons c r =>
      have other : c ≠ quote := by simpa using hrest
      simp [lines, closes, List.replicate, closing, other]
  · simp [lines, closes, List.replicate, closing]

lemma lines_of_not_closes {q c : Char} {r : List Char} (h : closes q (c :: r) = false) :
    lines q escapes (fuel + 1) (c :: r) =
      if escapes && c == '\\' then
        if atBreak (r.dropWhile isBlank) then lines q escapes fuel (dropSpace r)
        else (escaped? r).bind fun (e, r) => (lines q escapes fuel r).map fun (s, r) => (e :: s, r)
      else if atBreak (c :: r) then (lines q escapes fuel (dropBreak (c :: r))).map fun (s, r) => ('\n' :: s, r)
      else if isPlain c then (lines q escapes fuel r).map fun (s, r) => (c :: s, r)
      else none := by
  rw [lines, h]
  rfl

/-- Three quotes are next only where all that is left is quotes. -/
lemma Spelled.of_closes (h : Spelled quote escapes n s w) (hb : quote ≠ '\\') (hf : quote ≠ '\n') (hn : n ≤ quotesInRow)
    (run : closes quote (w ++ rest) = true) :
    ∃ k, k ≤ quotesInRow ∧ s = List.replicate k quote ∧ w = List.replicate k quote := by
  have three : List.replicate (quotesInRow + 1) quote <+: w ++ rest := List.isPrefixOf_iff_prefix.mp run
  have counted : List.replicate (quotesInRow + 1 - n) quote <+: List.replicate (quotesInRow + 1) quote := by
    refine ⟨List.replicate n quote, ?_⟩
    rw [List.replicate_append_replicate, Nat.sub_add_cancel (Nat.le_succ_of_le hn)]
  obtain ⟨k, hk, hs, hw⟩ := h.eq_replicate hb hf hn (counted.trans three)
  exact ⟨k, by omega, hs, hw⟩

/-- A text that is spelled is read back up to three quotes. -/
lemma Spelled.lines (h : Spelled quote escapes n s w) (hq : isPlain quote = true) (hb : quote ≠ '\\')
    (hn : n ≤ quotesInRow) (hrest : rest.head? ≠ some quote) (hfuel : s.length < fuel) :
    lines quote escapes fuel (w ++ (List.replicate 3 quote ++ rest)) = some (s, rest) := by
  have hf : quote ≠ '\n' := ne_of_class hq (by decide)
  induction fuel generalizing n s w with
  | zero => exact absurd hfuel (Nat.not_lt_zero _)
  | succ fuel ih =>
    by_cases run : closes quote (w ++ (List.replicate 3 quote ++ rest)) = true
    · obtain ⟨k, hk, rfl, rfl⟩ := h.of_closes hb hf hn run
      exact lines_replicate hk hrest fuel
    rw [Bool.not_eq_true] at run
    cases h with
    | nil => simp [closes, List.replicate] at run
    | quote few more =>
      have behind := ih more few (by simpa using hfuel)
      have start : (escapes && quote == '\\') = false := by simp [hb]
      rw [List.cons_append] at run ⊢
      rw [lines_of_not_closes run, start, not_atBreak_of_isPlain hq, hq, behind]
      rfl
    | @plain _ c _ _ _ plain noEscape more =>
      have behind := ih more (Nat.zero_le _) (by simpa using hfuel)
      have start : (escapes && c == '\\') = false := by
        rw [Bool.and_eq_false_imp]
        simpa using noEscape
      rw [List.cons_append] at run ⊢
      rw [lines_of_not_closes run, start, not_atBreak_of_isPlain plain, plain, behind]
      rfl
    | @feed _ _ w more =>
      have behind := ih more (Nat.zero_le _) (by simpa using hfuel)
      have start : (escapes && '\n' == '\\') = false := by simp
      rw [List.cons_append] at run ⊢
      rw [lines_of_not_closes run, start]
      show Option.map _ (Toml.lines quote escapes fuel (w ++ _)) = _
      rw [behind]
      rfl
    | @escape _ c body _ w on isEscape more =>
      have behind := ih more (Nat.zero_le _) (by simpa using hfuel)
      obtain ⟨d, r, hbody, blank, plain⟩ := isEscape.visible
      have next : atBreak ((body ++ (w ++ (List.replicate 3 quote ++ rest))).dropWhile isBlank) = false := by
        rw [hbody, List.cons_append, List.dropWhile_cons_of_neg (by simp [blank]), not_atBreak_of_isPlain plain]
      rw [List.cons_append, List.append_assoc] at run ⊢
      rw [lines_of_not_closes run, next, isEscape.reads]
      subst on
      show Option.map _ (Toml.lines quote true fuel _) = _
      rw [behind]
      rfl

/-- A line break in front is dropped where it was written, and there is no other. -/
lemma Spelled.dropBreak_start (h : Spelled quote escapes n s w) (hq : isPlain quote = true) :
    dropBreak ((if s.contains '\n' then ['\n'] else []) ++ (w ++ (List.replicate 3 quote ++ rest))) =
      w ++ (List.replicate 3 quote ++ rest) := by
  have keep : ∀ {d : Char} (r : List Char), isPlain d = true → dropBreak (d :: r) = d :: r := by
    intro d r hd
    have := not_atBreak_of_isPlain hd r
    unfold dropBreak
    split <;> simp_all [atBreak]
  split_ifs with hs
  · rfl
  · rw [List.nil_append]
    cases h with
    | nil => exact keep _ hq
    | quote => exact keep _ hq
    | plain _ plain => exact keep _ plain
    | feed => simp at hs
    | escape => exact keep _ (by decide)

end spelled

/-! ### Every kind of quotes -/

lemma not_mem_of_longestRun {q : Char} (h : longestRun q n s = 0) : q ∉ s := by
  induction s generalizing n with
  | nil => exact List.not_mem_nil
  | cons c s ih =>
    unfold longestRun at h
    split_ifs at h with hc
    · exact absurd (le_longestRun q (n + 1) s) (by omega)
    · have rest : longestRun q 0 s = 0 := by omega
      rw [List.mem_cons, not_or]
      exact ⟨fun hq => hc hq.symm, ih rest⟩

/-- A text stands between single quotes only where nothing in it has to be escaped. -/
lemma quotingOf_literal (h : quotingOf s = .literal) : ∀ c ∈ s, isPlain c = true ∧ c ≠ singleQuote := by
  unfold quotingOf at h
  dsimp only at h
  split_ifs at h with hb hl
  simp only [Bool.and_eq_true, Bool.not_eq_true', beq_iff_eq, List.any_eq_false, List.contains_eq_mem,
    decide_eq_false_iff_not] at hl
  obtain ⟨⟨plain, none⟩, breaks⟩ := hl
  intro c hc
  have feed : c ≠ '\n' := ne_of_mem_of_not_mem hc breaks
  exact ⟨by simpa [needsEscape, feed] using plain c hc, ne_of_mem_of_not_mem hc (not_mem_of_longestRun none)⟩

lemma quotingOf_literalLines (h : quotingOf s = .literalLines) :
    (∀ c ∈ s, needsEscape c = false) ∧ longestRun singleQuote 0 s ≤ quotesInRow := by
  unfold quotingOf at h
  dsimp only at h
  split_ifs at h with hb hl hm hs
  simp only [Bool.and_eq_true, Bool.not_eq_true', List.any_eq_false, decide_eq_true_eq, Bool.not_eq_true] at hs
  exact hs

lemma length_le_writeBasic (multiline : Bool) (n : Nat) (s : List Char) :
    s.length ≤ (writeBasic multiline n s).length := by
  have visible : ∀ c, 0 < (escape c).length := by
    intro c
    unfold escape
    split_ifs <;> exact Nat.succ_pos _
  fun_induction writeBasic multiline n s <;> grind

lemma length_le_write (s : List Char) : s.length + 2 ≤ (write s).length := by
  unfold write
  cases quotingOf s <;> simp <;> grind [length_le_writeBasic]

lemma not_closes_of_ne {q : Char} (h : c ≠ q) (r : List Char) : closes q (c :: r) = false := by
  simp [closes, List.isPrefixOf_cons_cons, Ne.symm h]

/-- One quote on each side is not taken for three in a row. -/
lemma not_closes_single {q : Char} (hw : w.head? ≠ some q) (hrest : rest.head? ≠ some q) :
    closes q (q :: (w ++ q :: rest)) = false := by
  have apart : ∀ {r : List Char}, r.head? ≠ some q → closes q (q :: r) = false ∧ closes q (q :: q :: r) = false := by
    intro r hr
    cases r with
    | nil => simp [closes]
    | cons d r =>
      have other : q ≠ d := by simpa using Ne.symm hr
      simp [closes, List.isPrefixOf_cons_cons, other]
  cases w with
  | nil => exact (apart hrest).2
  | cons d w => exact (apart (r := d :: w ++ q :: rest) hw).1

/-- What is written for a text is read back, whatever but a quote follows. -/
lemma quoted?_write (s : List Char) (hd : rest.head? ≠ some doubleQuote) (hs : rest.head? ≠ some singleQuote)
    (hfuel : (write s).length ≤ fuel) : quoted? fuel (write s ++ rest) = some (s, rest) := by
  have enough : s.length < fuel := by
    have := length_le_write s
    omega
  have several : ∀ {quote : Char} {escapes : Bool} {w : List Char}, Spelled quote escapes 0 s w → isPlain quote = true →
      quote ≠ '\\' → rest.head? ≠ some quote →
      lines quote escapes fuel (dropBreak ((if s.contains '\n' then ['\n'] else []) ++
        (w ++ (List.replicate 3 quote ++ rest)))) = some (s, rest) := by
    intro quote escapes w spelled hq hb hrest
    rw [spelled.dropBreak_start hq]
    exact spelled.lines hq hb (Nat.zero_le _) hrest enough
  have apart : doubleQuote ≠ singleQuote := by decide
  clear hfuel
  unfold write
  cases hquoting : quotingOf s with
  | basic =>
    simp only [List.cons_append, List.append_assoc, List.nil_append]
    rw [quoted?, not_closes_single (head?_writeBasic 0 s) hd, not_closes_of_ne apart]
    exact basic_writeBasic 0 s rest enough
  | literal =>
    have plain := quotingOf_literal hquoting
    have first : s.head? ≠ some singleQuote := fun h => (plain _ (List.mem_of_head? h)).2 rfl
    simp only [List.cons_append, List.append_assoc, List.nil_append]
    rw [quoted?, not_closes_of_ne apart.symm, not_closes_single first hs]
    exact literal_append plain rest
  | basicLines =>
    have read := several (spelled_writeBasic s 0) (by decide) (by decide) hd
    simp only [List.append_assoc]
    exact read
  | literalLines =>
    obtain ⟨plain, few⟩ := quotingOf_literalLines hquoting
    have read := several (spelled_self plain few) (by decide) (by decide) hs
    simp only [List.append_assoc]
    exact read

/-- A written text starts with a quote. -/
lemma exists_write (s : List Char) : ∃ c w, write s = c :: w ∧ (c = doubleQuote ∨ c = singleQuote) := by
  unfold write
  cases quotingOf s with
  | basic => exact ⟨_, _, rfl, Or.inl rfl⟩
  | literal => exact ⟨_, _, rfl, Or.inr rfl⟩
  | basicLines => exact ⟨_, _, rfl, Or.inl rfl⟩
  | literalLines => exact ⟨_, _, rfl, Or.inr rfl⟩

end CiWorkflow.Toml
