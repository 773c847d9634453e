import CiWorkflow.Proofs.Toml.Quoted
import CiWorkflow.Toml.Document
import Mathlib.Data.Nat.Digits.Defs

/-!
# Reading back TOML values

Texts, whole numbers and booleans are read back from what is written for them at the end of a line:
`IsWritten` says so of a value and its written form.
-/

namespace CiWorkflow.Toml

variable {c : Char} {cs w : List Char} {v : Value}

/-! ### Whole numbers -/

lemma hexValue?_of_isDigit (h : c.isDigit = true) : Text.hexValue? c = some (c.toNat - 48) := by
  simp only [Char.isDigit, Bool.and_eq_true, decide_eq_true_eq] at h
  exact if_pos h

lemma valueOf_toDigits (n : Nat) : valueOf 10 (Nat.toDigits 10 n) = n := by
  have same : ∀ (ds : List Char) (k : Nat), (∀ d ∈ ds, d.isDigit = true) →
      ds.foldl (fun n c => 10 * n + (Text.hexValue? c).getD 0) k = Nat.ofDigitChars 10 ds k := by
    intro ds
    induction ds with
    | nil => exact fun _ _ => rfl
    | cons d ds ih =>
      intro k h
      obtain ⟨first, more⟩ := List.forall_mem_cons.mp h
      rw [List.foldl_cons, hexValue?_of_isDigit first]
      exact ih _ more
  rw [valueOf, same _ 0 fun d hd => Nat.isDigit_of_mem_toDigits (by decide) (by decide) hd]
  exact Nat.ofDigitChars_toDigits (by decide) (by decide)

lemma digits?_of_isDigit (hne : cs ≠ []) (h : ∀ c ∈ cs, c.isDigit = true) : digits? Char.isDigit cs = some cs := by
  induction cs with
  | nil => exact absurd rfl hne
  | cons c cs ih =>
    obtain ⟨first, more⟩ := List.forall_mem_cons.mp h
    cases cs with
    | nil => simp [digits?, first]
    | cons d cs =>
      have other : d ≠ '_' := ne_of_class (more d List.mem_cons_self) (by decide)
      rw [digits?, if_pos first, ih (List.cons_ne_nil d cs) more]
      · rfl
      · exact nofun
      · rintro r heq
        exact other (List.cons.inj heq).1

/-- The digits of a number do not start with a zero. -/
lemma head?_toDigits {n : Nat} (h : 0 < n) : (Nat.toDigits 10 n).head? ≠ some '0' := by
  induction n using Nat.strong_induction_on with
  | _ n ih =>
    by_cases small : n < 10
    · have all : ∀ m ∈ List.range 10, 0 < m → m.digitChar ≠ '0' := by decide
      rw [Nat.toDigits_of_lt_base small, List.head?_cons, Ne, Option.some_inj]
      exact all n (List.mem_range.mpr small) h
    · have before := ih (n / 10) (by omega) (by omega)
      rw [Nat.toDigits_of_base_le (by decide) (by omega), List.head?_append_of_ne_nil _ Nat.toDigits_ne_nil]
      exact before

lemma decimal?_toDigits (n : Nat) : decimal? (Nat.toDigits 10 n) = some (Nat.toDigits 10 n) := by
  have read := digits?_of_isDigit Nat.toDigits_ne_nil
    fun c hc => Nat.isDigit_of_mem_toDigits (b := 10) (n := n) (by decide) (by decide) hc
  have single : ¬ ((Nat.toDigits 10 n).head? = some '0' ∧ 1 < (Nat.toDigits 10 n).length) := by
    rintro ⟨zero, long⟩
    rcases Nat.eq_zero_or_pos n with rfl | pos
    · exact absurd long (by decide)
    · exact head?_toDigits pos zero
  rw [decimal?, read, Option.bind_some, if_neg single]

lemma integer?_toDigits (n : Nat) : integer? (Nat.toDigits 10 n) = some (n : Int) := by
  have digit : ∀ c ∈ Nat.toDigits 10 n, c.isDigit = true :=
    fun c hc => Nat.isDigit_of_mem_toDigits (by decide) (by decide) hc
  have read := decimal?_toDigits n
  have value := valueOf_toDigits n
  obtain ⟨c, ds, hds⟩ := List.exists_cons_of_ne_nil (Nat.toDigits_ne_nil (n := n) (b := 10))
  rw [hds] at digit read value ⊢
  obtain ⟨first, more⟩ := List.forall_mem_cons.mp digit
  have plus : c ≠ '+' := ne_of_class first (by decide)
  have minus : c ≠ '-' := ne_of_class first (by decide)
  have plain : unsigned (c :: ds) = c :: ds := by
    unfold unsigned
    split <;> simp_all
  have second : ∀ {a d : Char} {r : List Char}, c :: ds = a :: d :: r → d.isDigit = true := by
    rintro a d r heq
    exact more d ((List.cons.inj heq).2 ▸ List.mem_cons_self)
  unfold integer?
  split
  · rename_i heq
    exact absurd (second heq) (by decide)
  · rename_i heq
    exact absurd (second heq) (by decide)
  · rename_i heq
    exact absurd (second heq) (by decide)
  · rw [plain, read, Option.map_some, value, if_neg (by simpa using minus)]

lemma scalar?_toDigits (n : Nat) : scalar? (Nat.toDigits 10 n) = some (.integer n) := by
  have digit : ∀ c ∈ Nat.toDigits 10 n, c.isDigit = true :=
    fun c hc => Nat.isDigit_of_mem_toDigits (by decide) (by decide) hc
  have word : ∀ {w : String}, (∃ c ∈ w.toList, c.isDigit = false) → Nat.toDigits 10 n ≠ w.toList := by
    rintro w ⟨c, hc, letter⟩ same
    rw [digit c (same ▸ hc)] at letter
    cases letter
  rw [scalar?, if_neg (word ⟨'t', by decide, by decide⟩), if_neg (word ⟨'f', by decide, by decide⟩), integer?_toDigits]

/-! ### Values at the end of a line -/

/-- A value is read back from its written form at the end of a line, and blanks in front do not count. -/
structure IsWritten (w : List Char) (v : Value) : Prop where
  read : ∀ fuel rest, w.length < fuel → value? fuel (w ++ '\n' :: rest) = some (v, '\n' :: rest)
  visible : ∀ rest, (w ++ rest).dropWhile isBlank = w ++ rest

lemma scalarText_append (h : ∀ c ∈ w, isScalarChar c = true) (rest : List Char) :
    scalarText (w ++ '\n' :: rest) = (w, '\n' :: rest) := by
  have stop : isScalarChar '\n' = false := by decide
  unfold scalarText
  rw [List.takeWhile_append_of_pos h, List.dropWhile_append_of_pos h, List.takeWhile_cons_of_neg (by simp [stop]),
    List.dropWhile_cons_of_neg (by simp [stop]), List.append_nil]
  rfl

/-- A value that is neither a list nor a table is told by whether it starts with a quote. -/
lemma value?_cons (list : c ≠ '[') (table : c ≠ '\x7b') (fuel : Nat) (r : List Char) :
    value? (fuel + 1) (c :: r) =
      if c = doubleQuote ∨ c = singleQuote then
        (quoted? fuel (c :: r)).map fun (s, r) => (.text (String.ofList s), r)
      else (scalar? (scalarText (c :: r)).1).map fun v => (v, (scalarText (c :: r)).2) := by
  rw [value?]
  · exact list
  · exact table

lemma dropWhile_isBlank (h : isBlank c = false) (r rest : List Char) :
    (c :: r ++ rest).dropWhile isBlank = c :: r ++ rest :=
  List.dropWhile_cons_of_neg (by simp [h])

lemma isWritten_scalar (h : ∀ c ∈ w, isScalarChar c = true) (read : scalar? w = some v) : IsWritten w v := by
  cases w with
  | nil => cases read
  | cons c w =>
    have other : ∀ {d : Char}, isScalarChar d = false → c ≠ d := ne_of_class (h c List.mem_cons_self)
    have bare : ¬ (c = doubleQuote ∨ c = singleQuote) := not_or.mpr ⟨other (by decide), other (by decide)⟩
    refine ⟨fun fuel rest hfuel => ?_, dropWhile_isBlank (not_isBlank (other (by decide)) (other (by decide))) w⟩
    obtain ⟨fuel, rfl⟩ := Nat.exists_eq_succ_of_ne_zero (Nat.ne_zero_of_lt hfuel)
    have text := scalarText_append h rest
    rw [List.cons_append] at text ⊢
    rw [value?_cons (other (by decide)) (other (by decide)), if_neg bare, text, read]
    rfl

lemma isWritten_integer (n : Nat) : IsWritten (Nat.toDigits 10 n) (.integer n) := by
  refine isWritten_scalar (fun c hc => ?_) (scalar?_toDigits n)
  have digit : c.isDigit = true := Nat.isDigit_of_mem_toDigits (by decide) (by decide) hc
  simp [isScalarChar, Char.isAlphanum, digit]

lemma isWritten_true : IsWritten "true".toList (.boolean true) :=
  isWritten_scalar (List.all_eq_true.mp rfl) rfl

lemma isWritten_false : IsWritten "false".toList (.boolean false) :=
  isWritten_scalar (List.all_eq_true.mp rfl) rfl

lemma isWritten_text (s : String) : IsWritten (write s.toList) (.text s) := by
  obtain ⟨c, w, hw, quote⟩ := exists_write s.toList
  have list : c ≠ '[' := by rcases quote with rfl | rfl <;> decide
  have table : c ≠ '\x7b' := by rcases quote with rfl | rfl <;> decide
  have solid : isBlank c = false := by rcases quote with rfl | rfl <;> decide
  refine ⟨fun fuel rest hfuel => ?_, hw ▸ dropWhile_isBlank solid w⟩
  obtain ⟨fuel, rfl⟩ := Nat.exists_eq_succ_of_ne_zero (Nat.ne_zero_of_lt hfuel)
  have feed : ∀ {q : Char}, q ≠ '\n' → ('\n' :: rest).head? ≠ some q := fun hq h => hq (Option.some.inj h).symm
  have read := quoted?_write s.toList (feed (by decide)) (feed (by decide)) (Nat.le_of_lt_succ hfuel)
  rw [hw, List.cons_append] at read ⊢
  rw [value?_cons list table, if_pos quote, read]
  simp

end CiWorkflow.Toml
