import CiWorkflow.Tree.Fields
import Mathlib.Data.List.DropRight
import Mathlib.Data.List.Forall2

/-!
# What names a node, and what describes it

A node is named by its key, and where it has none by its `id` field, and where it has none either by its
`name` field. It is described by its `description` entry, and where it has no such entry by its `desc`
entry. An entry is the first child with the key, in whichever case its ASCII letters are, and its value is
that of the first node below.
-/

namespace CiWorkflow

/-! ### Texts -/

namespace Text

/-- Two characters are the same, or one is a capital ASCII letter and the other one its small form. -/
def SameLetter (a b : Char) : Prop :=
  a = b ∨ (65 ≤ a.toNat ∧ a.toNat ≤ 90 ∧ b.toNat = a.toNat + 32) ∨
    (65 ≤ b.toNat ∧ b.toNat ≤ 90 ∧ a.toNat = b.toNat + 32)

/-- Two texts are the same up to the case of ASCII letters. -/
def SameButCase (a b : String) : Prop := List.Forall₂ SameLetter a.toList b.toList

lemma toNat_toLower (c : Char) :
    c.toLower.toNat = if 65 ≤ c.toNat ∧ c.toNat ≤ 90 then c.toNat + 32 else c.toNat := by
  have capital : (c.val ≥ 'A'.val ∧ c.val ≤ 'Z'.val) ↔ 65 ≤ c.toNat ∧ c.toNat ≤ 90 := Iff.rfl
  unfold Char.toLower
  by_cases h : 65 ≤ c.toNat ∧ c.toNat ≤ 90
  · rw [dif_pos (capital.mpr h), if_pos h]
    have small : (c.val + ('a'.val - 'A'.val)).toNat = (c.val.toNat + 32) % 2 ^ 32 := UInt32.toNat_add _ _
    have value : c.val.toNat = c.toNat := rfl
    show (c.val + ('a'.val - 'A'.val)).toNat = _
    omega
  · rw [dif_neg (mt capital.mp h), if_neg h]

lemma toLower_eq_iff {a b : Char} : a.toLower = b.toLower ↔ SameLetter a b := by
  rw [← Char.toNat_inj, toNat_toLower, toNat_toLower, SameLetter, ← Char.toNat_inj]
  split_ifs <;> omega

lemma sameAscii_iff {a b : String} : sameAscii a b = true ↔ SameButCase a b := by
  rw [sameAscii, beq_iff_eq, SameButCase, ← List.forall₂_eq_eq_eq, List.forall₂_map_left_iff,
    List.forall₂_map_right_iff]
  simp only [toLower_eq_iff]

/-- The second text is the first one without the blanks at its end. -/
def TrimmedEnd (s t : String) : Prop :=
  ∃ blanks, s.toList = t.toList ++ blanks ∧ (∀ c ∈ blanks, isBlank c = true) ∧
    ∀ c ∈ t.toList.getLast?, isBlank c = false

lemma trimStringEnd_eq_iff {s t : String} : trimStringEnd s = t ↔ TrimmedEnd s t := by
  have trimmed : trimStringEnd s = String.ofList (s.toList.rdropWhile isBlank) := rfl
  constructor
  · rintro rfl
    refine ⟨s.toList.rtakeWhile isBlank, ?_, fun c => List.mem_rtakeWhile_imp, fun c hc => ?_⟩
    · rw [trimmed, String.toList_ofList, List.rdropWhile_append_rtakeWhile]
    · rw [trimmed, String.toList_ofList] at hc
      obtain ⟨hne, rfl⟩ := List.mem_getLast?_eq_getLast hc
      simpa using List.rdropWhile_last_not isBlank s.toList hne
  · rintro ⟨blanks, split, blank, last⟩
    have behind : (blanks.reverse ++ t.toList.reverse).dropWhile isBlank = t.toList.reverse.dropWhile isBlank :=
      List.dropWhile_append_of_pos fun c hc => blank c (List.mem_reverse.mp hc)
    have whole : t.toList.rdropWhile isBlank = t.toList := by
      refine List.rdropWhile_eq_self_iff.mpr fun hne => ?_
      simpa using last _ (List.getLast?_eq_some_getLast hne)
    have ends : s.toList.rdropWhile isBlank = t.toList := by
      rw [split, List.rdropWhile, List.reverse_append, behind]
      exact whole
    rw [trimmed, ends, String.ofList_toList]

end Text

namespace Tree.Document

variable {d : Document} {n c : Nat} {key value text name : String}

/-! ### Entries -/

/-- A node has a key, up to the case of ASCII letters. -/
def Keyed (d : Document) (key : String) (n : Nat) : Prop := ∃ k, d.key? n = some k ∧ Text.SameButCase key k

/-- A node is the first child of another one that has a key. -/
def FirstKeyed (d : Document) (n : Nat) (key : String) (c : Nat) : Prop :=
  ∃ before after, d.children n = before ++ c :: after ∧ d.Keyed key c ∧ ∀ m ∈ before, ¬ d.Keyed key m

/-- The entry with a key has a value: that of the first node below it. -/
def FieldIs (d : Document) (n : Nat) (key value : String) : Prop :=
  ∃ c first rest, d.FirstKeyed n key c ∧ d.children c = first :: rest ∧ d.value? first = some value

lemma hasKey_iff : d.hasKey key n = true ↔ d.Keyed key n := by
  unfold hasKey Keyed
  cases d.key? n <;> simp [Text.sameAscii_iff]

lemma child?_eq_some_iff : d.child? n key = some c ↔ d.FirstKeyed n key c := by
  unfold child? FirstKeyed
  rw [List.find?_eq_some_iff_append, hasKey_iff]
  simp only [Bool.not_eq_true', ← Bool.not_eq_true, hasKey_iff]
  constructor
  · rintro ⟨hc, before, after, order, others⟩
    exact ⟨before, after, order, hc, others⟩
  · rintro ⟨before, after, order, hc, others⟩
    exact ⟨hc, before, after, order, others⟩

lemma child?_eq_none_iff : d.child? n key = none ↔ ∀ c ∈ d.children n, ¬ d.Keyed key c := by
  unfold child?
  rw [List.find?_eq_none]
  simp only [hasKey_iff]

lemma childValue?_eq_some_iff :
    d.childValue? c = some value ↔ ∃ first rest, d.children c = first :: rest ∧ d.value? first = some value := by
  unfold childValue?
  cases d.children c <;> simp

lemma field?_eq_some_iff : d.field? n key = some value ↔ d.FieldIs n key value := by
  unfold field? FieldIs
  rw [Option.bind_eq_some_iff]
  simp only [child?_eq_some_iff, childValue?_eq_some_iff, exists_and_left]

lemma field?_eq_none_iff : d.field? n key = none ↔ ∀ value, ¬ d.FieldIs n key value := by
  rw [Option.eq_none_iff_forall_ne_some]
  exact forall_congr' fun value => not_congr field?_eq_some_iff

/-! ### Names -/

/-- What a node is named by: its key, else its `id` field, else its `name` field. -/
inductive Named (d : Document) (n : Nat) : String → Prop where
  | key {name : String} : d.key? n = some name → Named d n name
  | id {name : String} : d.key? n = none → d.FieldIs n "id" name → Named d n name
  | name {name : String} : d.key? n = none → (∀ id, ¬ d.FieldIs n "id" id) → d.FieldIs n "name" name → Named d n name

lemma identifier?_eq_some_iff : d.identifier? n = some name ↔ d.Named n name := by
  unfold identifier?
  cases hk : d.key? n with
  | some k =>
    constructor
    · rintro ⟨⟩
      exact .key hk
    · rintro (own | ⟨none, -⟩ | ⟨none, -, -⟩)
      · exact hk.symm.trans own
      · cases hk.symm.trans none
      · cases hk.symm.trans none
  | none =>
    rw [Option.orElse_none]
    cases hid : d.field? n "id" with
    | some id =>
      constructor
      · rintro ⟨⟩
        exact .id hk (field?_eq_some_iff.mp hid)
      · rintro (own | ⟨-, is⟩ | ⟨-, none, -⟩)
        · cases hk.symm.trans own
        · exact hid.symm.trans (field?_eq_some_iff.mpr is)
        · exact (none id (field?_eq_some_iff.mp hid)).elim
    | none =>
      rw [Option.orElse_none]
      have none := field?_eq_none_iff.mp hid
      constructor
      · intro is
        exact .name hk none (field?_eq_some_iff.mp is)
      · rintro (own | ⟨-, is⟩ | ⟨-, -, is⟩)
        · cases hk.symm.trans own
        · exact (none _ is).elim
        · exact field?_eq_some_iff.mpr is

/-! ### Descriptions -/

/-- What a node is described by: its `description` entry, and only where it has none its `desc` entry,
without blanks at the end. -/
inductive Described (d : Document) (n : Nat) : String → Prop where
  | description {value text : String} : d.FieldIs n "description" value → Text.TrimmedEnd value text →
      Described d n text
  | desc {value text : String} : (∀ c ∈ d.children n, ¬ d.Keyed "description" c) → d.FieldIs n "desc" value →
      Text.TrimmedEnd value text → Described d n text

lemma description?_eq_some_iff : d.description? n = some text ↔ d.Described n text := by
  have trimmed (key : String) : ((d.child? n key).bind d.childValue?).map Text.trimStringEnd = some text ↔
      ∃ value, d.FieldIs n key value ∧ Text.TrimmedEnd value text := by
    rw [Option.map_eq_some_iff]
    refine exists_congr fun value => and_congr ?_ Text.trimStringEnd_eq_iff
    exact field?_eq_some_iff
  unfold description?
  cases hd : d.child? n "description" with
  | some c =>
    have long := trimmed "description"
    rw [hd] at long
    rw [Option.orElse_some, long]
    constructor
    · rintro ⟨value, is, ends⟩
      exact .description is ends
    · rintro (⟨is, ends⟩ | ⟨none, -, -⟩)
      · exact ⟨_, is, ends⟩
      · cases hd.symm.trans (child?_eq_none_iff.mpr none)
  | none =>
    rw [Option.orElse_none, trimmed "desc"]
    constructor
    · rintro ⟨value, is, ends⟩
      exact .desc (child?_eq_none_iff.mp hd) is ends
    · rintro (⟨⟨c, _, _, first, -⟩, -⟩ | ⟨-, is, ends⟩)
      · cases hd.symm.trans (child?_eq_some_iff.mpr first)
      · exact ⟨_, is, ends⟩

/-- The description of a node, which is empty where it has none. -/
def Describes (d : Document) (n : Nat) (text : String) : Prop :=
  d.Described n text ∨ text = "" ∧ ∀ t, ¬ d.Described n t

lemma getD_description?_eq_iff : (d.description? n).getD "" = text ↔ d.Describes n text := by
  unfold Describes
  simp only [← description?_eq_some_iff]
  cases d.description? n <;> simp [eq_comm]

end Tree.Document

end CiWorkflow
