import CiWorkflow.Proofs.Yaml.Cursor
import Mathlib.Data.List.Pairwise

/-!
# The shape of concrete trees

What the grammar promises of every construct of a text: its range lies between characters and holds
its parts in their order, nothing but the stream is empty, and each kind of construct has parts of
its own kinds only (`Lawful`). Readers that follow each other read constructs that follow each other
(`Reads`), and what is put around these is lawful where its shape is.
-/

namespace CiWorkflow.Yaml

open Text (Span IsCut)

/-- What a value in flow style consists of: a scalar, or a collection in brackets. -/
def Kind.isFlowContent (k : Kind) : Bool := k.isScalar || k == .flowSequence || k == .flowMapping

namespace ConcreteTree

variable {P Q : Kind → Span → List ConcreteTree → Prop} {t : ConcreteTree} {k : Kind} {r : Role} {s : Span}
  {ts us : List ConcreteTree} {source : List Char}

/-! ### What holds of every construct -/

/-- Every construct of a tree satisfies `P`, which is told its kind, its range and its parts. -/
inductive Everywhere (P : Kind → Span → List ConcreteTree → Prop) : ConcreteTree → Prop
  | node {k : Kind} {r : Role} {s : Span} {ts : List ConcreteTree} (own : P k s ts)
      (parts : ∀ t ∈ ts, Everywhere P t) : Everywhere P (.node k r s ts)

namespace Everywhere

lemma own (h : t.Everywhere P) : P t.kind t.span t.children := by
  cases h with
  | node own _ => exact own

lemma parts (h : t.Everywhere P) : ∀ u ∈ t.children, u.Everywhere P := by
  cases h with
  | node _ parts => exact parts

lemma withRole (h : t.Everywhere P) (r : Role) : (t.withRole r).Everywhere P := by
  cases h with
  | node own parts => exact node own parts

lemma mono (h : t.Everywhere P) (hPQ : ∀ k s ts, P k s ts → Q k s ts) : t.Everywhere Q := by
  induction h with
  | node own _ ih => exact node (hPQ _ _ _ own) ih

end Everywhere

@[simp] lemma span_withRole (t : ConcreteTree) (r : Role) : (t.withRole r).span = t.span := by cases t; rfl
@[simp] lemma role_withRole (t : ConcreteTree) (r : Role) : (t.withRole r).role = r := by cases t; rfl

/-- Some constructs stand one behind the other in a range. -/
structure Placed (s : Span) (ts : List ConcreteTree) : Prop where
  ordered : s.start ≤ s.stop
  within : ∀ t ∈ ts, t.span.Within s
  apart : ts.Pairwise fun t u => t.span.Before u.span

lemma wellPlaced_iff : (node k r s ts).WellPlaced ↔ Placed s ts ∧ ∀ t ∈ ts, t.WellPlaced := by
  have list : WellPlacedList s ts ↔
      (∀ t ∈ ts, t.WellPlaced ∧ t.span.Within s) ∧ ts.Pairwise fun t u => t.span.Before u.span := by
    induction ts with
    | nil => simp [WellPlacedList]
    | cons t ts ih =>
      simp only [WellPlacedList, ih, List.forall_mem_cons, List.pairwise_cons]
      constructor
      · rintro ⟨ht, hw, hb, hts, apart⟩
        exact ⟨⟨⟨ht, hw⟩, hts⟩, hb, apart⟩
      · rintro ⟨⟨⟨ht, hw⟩, hts⟩, hb, apart⟩
        exact ⟨ht, hw, hb, hts, apart⟩
  rw [WellPlaced, list]
  constructor
  · rintro ⟨hs, hts, apart⟩
    exact ⟨⟨hs, fun t ht => (hts t ht).2, apart⟩, fun t ht => (hts t ht).1⟩
  · rintro ⟨⟨hs, within, apart⟩, hts⟩
    exact ⟨hs, fun t ht => ⟨hts t ht, within t ht⟩, apart⟩

lemma Everywhere.and_placed (h : t.Everywhere P) (ht : t.WellPlaced) :
    t.Everywhere fun k s ts => Placed s ts ∧ P k s ts := by
  induction h with
  | node own _ ih =>
    obtain ⟨placed, parts⟩ := wellPlaced_iff.mp ht
    exact .node ⟨placed, own⟩ fun u hu => ih u hu (parts u hu)

/-! ### The grammar -/

/-- At most one part has content. -/
def Single (ts : List ConcreteTree) : Prop := (ts.filter fun t => !t.kind.isDecoration).length ≤ 1

/-- All parts stand behind the mark that the construct starts with. -/
def Opened (s : Span) (ts : List ConcreteTree) : Prop := ∀ t ∈ ts, s.start < t.span.start

/-- At most one part has a role. -/
def Unique (r : Role) (ts : List ConcreteTree) : Prop := (ts.filter fun t => t.role = r).length ≤ 1

/-- The parts that a construct of a kind may have. -/
def Shape (s : Span) (ts : List ConcreteTree) : Kind → Prop
  | .stream | .document | .blockMapping | .blockSequence => True
  | .blockNode => Single ts
  | .flowNode => Single ts ∧ ∀ t ∈ ts, t.kind.isDecoration = true ∨ t.kind.isFlowContent = true
  | .flowMapping => Opened s ts
  | .flowSequence => Opened s ts ∧ ∀ t ∈ ts, t.kind ∈ [.comment, .flowNode, .pair]
  | .item => Opened s ts ∧ Single ts ∧ ∀ t ∈ ts, t.kind ∈ [.comment, .flowNode, .blockNode]
  | .pair => Unique .key ts ∧ Unique .value ts ∧ ∀ t ∈ ts, t.kind = .comment ∧ t.role = .part ∨
      t.role = .key ∨ t.role = .value ∧ s.start < t.span.start
  | .plain | .singleQuoted | .doubleQuoted | .blockScalar | .aliasNode | .anchor | .tag | .comment => ts = []

/-- What the grammar promises of a construct. -/
structure Lawful (source : List Char) (k : Kind) (s : Span) (ts : List ConcreteTree) : Prop where
  cut : IsCut source s.start ∧ IsCut source s.stop
  placed : Placed s ts
  solid : k ≠ .stream → s.start < s.stop
  shape : Shape s ts k

lemma eq_nil_of_isScalar (h : Shape s ts k) (hk : k.isScalar = true) : ts = [] := by
  cases k <;> first | exact h | cases hk

lemma Lawful.offset_lt (h : t.Everywhere (Lawful source)) (hk : t.kind ≠ .stream) : t.span.start < t.span.stop :=
  h.own.solid hk

lemma single_append {us : List ConcreteTree} (hts : ∀ t ∈ ts, t.kind.isDecoration = true) (hus : Single us) :
    Single (ts ++ us) := by
  have none : (ts.filter fun t => !t.kind.isDecoration) = [] := by
    refine List.filter_eq_nil_iff.mpr fun t ht => ?_
    simp [hts t ht]
  unfold Single at *
  rwa [List.filter_append, none, List.nil_append]

lemma single_singleton (t : ConcreteTree) : Single [t] := by
  unfold Single
  exact List.length_filter_le _ _

lemma Unique.append_left (h : Unique r us) (hts : ∀ t ∈ ts, t.role ≠ r) : Unique r (ts ++ us) := by
  have none : (ts.filter fun t => t.role = r) = [] := by
    refine List.filter_eq_nil_iff.mpr fun t ht => ?_
    simpa using hts t ht
  unfold Unique at *
  rwa [List.filter_append, none, List.nil_append]

lemma Unique.append_right (h : Unique r ts) (hus : ∀ t ∈ us, t.role ≠ r) : Unique r (ts ++ us) := by
  have none : (us.filter fun t => t.role = r) = [] := by
    refine List.filter_eq_nil_iff.mpr fun t ht => ?_
    simpa using hus t ht
  unfold Unique at *
  rwa [List.filter_append, none, List.append_nil]

end ConcreteTree

open ConcreteTree

/-! ### Reading one construct behind the other -/

/-- Between two places of a text stand some constructs, one behind the other. -/
structure Reads (source : List Char) (p : Cursor) (ts : List ConcreteTree) (e : Cursor) : Prop where
  start : p.In source
  reaches : p.Reaches e
  placed : Placed ⟨p.offset, e.offset⟩ ts
  lawful : ∀ t ∈ ts, t.Everywhere (Lawful source)

/-- From a place on a construct of one of some kinds was read. -/
structure Parses (source : List Char) (p : Cursor) (ks : List Kind) (t : ConcreteTree) (e : Cursor) : Prop where
  start : p.In source
  reaches : p.Reaches e
  span : t.span = ⟨p.offset, e.offset⟩
  lawful : t.Everywhere (Lawful source)
  kind : t.kind ∈ ks
  role : t.role = .part

variable {source : List Char} {p q e : Cursor} {ts us : List ConcreteTree} {t : ConcreteTree} {k : Kind}
  {ks ks' : List Kind}

namespace Reads

lemma stop (h : Reads source p ts e) : e.In source := h.start.trans h.reaches

lemma nil (hp : p.In source) (h : p.Reaches e) : Reads source p [] e :=
  ⟨hp, h, ⟨h.offset_le, nofun, List.Pairwise.nil⟩, nofun⟩

lemma append (h : Reads source p ts q) (h' : Reads source q us e) : Reads source p (ts ++ us) e := by
  have before := h.placed.ordered
  have behind := h'.placed.ordered
  refine ⟨h.start, h.reaches.trans h'.reaches, ⟨(h.reaches.trans h'.reaches).offset_le, fun t ht => ?_, ?_⟩, ?_⟩
  · rcases List.mem_append.mp ht with ht | ht
    · exact ⟨(h.placed.within t ht).1, Nat.le_trans (h.placed.within t ht).2 behind⟩
    · exact ⟨Nat.le_trans before (h'.placed.within t ht).1, (h'.placed.within t ht).2⟩
  · refine List.pairwise_append.mpr ⟨h.placed.apart, h'.placed.apart, fun t ht u hu => ?_⟩
    exact Nat.le_trans (h.placed.within t ht).2 (h'.placed.within u hu).1
  · intro t ht
    rcases List.mem_append.mp ht with ht | ht
    · exact h.lawful t ht
    · exact h'.lawful t ht

lemma before (h : Reads source p ts q) (h' : q.Reaches e) : Reads source p ts e := by
  simpa using h.append (nil h.stop h')

lemma behind (hp : p.In source) (h : p.Reaches q) (h' : Reads source q us e) : Reads source p us e := by
  simpa using (nil hp h).append h'

/-- What is put around constructs is lawful where its shape is. -/
lemma parses (h : Reads source p ts e) (hlt : p.offset < e.offset) (shape : Shape ⟨p.offset, e.offset⟩ ts k) :
    Parses source p [k] (.node k .part ⟨p.offset, e.offset⟩ ts) e :=
  ⟨h.start, h.reaches, rfl,
    .node ⟨⟨h.start.isCut, h.stop.isCut⟩, h.placed, fun _ => hlt, shape⟩ h.lawful, List.mem_singleton_self k, rfl⟩

end Reads

lemma parses_leaf (hp : p.In source) (h : p.Reaches e) (hlt : p.offset < e.offset) (shape : Shape ⟨p.offset, e.offset⟩ [] k) :
    Parses source p [k] (leaf k p.offset e.offset) e :=
  (Reads.nil hp h).parses hlt shape

namespace Parses

lemma stop (h : Parses source p ks t e) : e.In source := h.start.trans h.reaches

lemma mono (h : Parses source p ks t e) (hk : ks ⊆ ks') : Parses source p ks' t e :=
  ⟨h.start, h.reaches, h.span, h.lawful, hk h.kind, h.role⟩

/-- A construct that was read has a role in what it is a part of. -/
lemma reads_withRole (h : Parses source p ks t e) (r : Role) : Reads source p [t.withRole r] e := by
  refine ⟨h.start, h.reaches, ⟨h.reaches.offset_le, fun u hu => ?_, List.pairwise_singleton _ _⟩, fun u hu => ?_⟩
  · rw [List.mem_singleton.mp hu, span_withRole, h.span]
    exact Span.Within.refl _
  · rw [List.mem_singleton.mp hu]
    exact h.lawful.withRole r

lemma withRole_part (h : Parses source p ks t e) : t.withRole .part = t := by
  have role := h.role
  cases t
  simp_all [ConcreteTree.role, ConcreteTree.withRole]

lemma reads (h : Parses source p ks t e) : Reads source p [t] e := by
  have read := h.reads_withRole .part
  rwa [h.withRole_part] at read

/-- What a construct consists of was read where the construct was. -/
lemma parts (h : Parses source p ks t e) : Reads source p t.children e := by
  have placed := h.lawful.own.placed
  rw [h.span] at placed
  exact ⟨h.start, h.reaches, placed, h.lawful.parts⟩

lemma offset_lt (h : Parses source p ks t e) (hk : .stream ∉ ks) : p.offset < e.offset := by
  have solid := Lawful.offset_lt h.lawful fun hs => hk (hs ▸ h.kind)
  rwa [h.span] at solid

lemma offset_lt_of_reaches (h : Parses source q ks t e) (hk : .stream ∉ ks) (hp : p.Reaches q) : p.offset < e.offset :=
  Nat.lt_of_le_of_lt hp.offset_le (h.offset_lt hk)

end Parses

/-! ### Comments and pairs -/

/-- Some parts are comments. -/
def AllComments (ts : List ConcreteTree) : Prop := ∀ t ∈ ts, t.kind = .comment ∧ t.role = .part

lemma AllComments.nil : AllComments [] := nofun

lemma AllComments.append (h : AllComments ts) (h' : AllComments us) : AllComments (ts ++ us) := by
  intro t ht
  rcases List.mem_append.mp ht with ht | ht
  · exact h t ht
  · exact h' t ht

lemma AllComments.isDecoration (h : AllComments ts) : ∀ t ∈ ts, t.kind.isDecoration = true := by
  intro t ht
  rw [(h t ht).1]
  rfl

/-- The parts of a pair up to its key: there is nothing where there is no key. -/
def keyParts (comments : List ConcreteTree) (key : Option ConcreteTree) : List ConcreteTree :=
  (key.map fun k => comments ++ [k.withRole .key]).getD []

lemma role_of_mem_keyParts {cs : List ConcreteTree} (key : Option ConcreteTree) (hc : AllComments cs) :
    ∀ t ∈ keyParts cs key, t.kind = .comment ∧ t.role = .part ∨ t.role = .key := by
  intro t ht
  cases key with
  | none => cases ht
  | some k =>
    rcases List.mem_append.mp ht with ht | ht
    · exact Or.inl (hc t ht)
    · rw [List.mem_singleton.mp ht, role_withRole]
      exact Or.inr rfl

lemma unique_keyParts {cs : List ConcreteTree} (key : Option ConcreteTree) (hc : AllComments cs) :
    Unique .key (keyParts cs key) := by
  cases key with
  | none => exact Nat.zero_le 1
  | some k =>
    refine Unique.append_left (List.length_filter_le _ [k.withRole .key]) fun t ht => ?_
    rw [(hc t ht).2]
    decide

/-- A pair has a key, comments and then a value, which stands behind the start of the pair. -/
lemma shape_pair {s : Span} {cs ds : List ConcreteTree} (key value : Option ConcreteTree) (hc : AllComments cs)
    (hd : AllComments ds) (hv : ∀ v ∈ value, s.start < v.span.start) :
    Shape s (keyParts cs key ++ ds ++ (value.map (·.withRole .value)).toList) .pair := by
  have upToKey := role_of_mem_keyParts key hc
  refine ⟨?_, ?_, fun t ht => ?_⟩
  · refine ((unique_keyParts key hc).append_right fun t ht => ?_).append_right fun t ht => ?_
    · rw [(hd t ht).2]
      decide
    · obtain ⟨v, -, rfl⟩ := Option.map_eq_some_iff.mp (Option.mem_toList.mp ht)
      rw [role_withRole]
      decide
  · refine Unique.append_left ?_ fun t ht => ?_
    · exact Nat.le_trans (List.length_filter_le _ _) Option.length_toList_le
    · rcases List.mem_append.mp ht with ht | ht
      · rcases upToKey t ht with ⟨-, hr⟩ | hr <;> rw [hr] <;> decide
      · rw [(hd t ht).2]
        decide
  · rcases List.mem_append.mp ht with ht | ht
    · rcases List.mem_append.mp ht with ht | ht
      · exact (upToKey t ht).imp id Or.inl
      · exact Or.inl (hd t ht)
    · obtain ⟨v, hvalue, rfl⟩ := Option.map_eq_some_iff.mp (Option.mem_toList.mp ht)
      rw [role_withRole, span_withRole]
      exact Or.inr (Or.inr ⟨rfl, hv v hvalue⟩)

/-! ### Gaps -/

/-- A comment that was opened at a place ends at another one. -/
lemma reads_comment {b o mark : Cursor} (hc : Reads source b ts mark) (hts : AllComments ts)
    (hm : mark.Reaches o) (he : o.Reaches e) (hlt : o.offset < e.offset) :
    Reads source b (ts ++ [leaf .comment o.offset e.offset]) e ∧
      AllComments (ts ++ [leaf .comment o.offset e.offset]) := by
  have comment := parses_leaf (k := .comment) (hc.stop.trans hm) he hlt rfl
  refine ⟨(hc.before hm).append comment.reads, hts.append fun t ht => ?_⟩
  rw [List.mem_singleton.mp ht]
  exact ⟨rfl, rfl⟩

lemma reads_scan {b mark : Cursor} {s : List Char} {pos : Position} (spaces : Nat) (tab : Bool)
    (opened : Option Nat) (comments : List ConcreteTree) (hb : Reads source b comments.reverse mark)
    (hc : AllComments comments.reverse) (hm : mark.Reaches ⟨pos, s⟩)
    (ho : ∀ n ∈ opened, ∃ o : Cursor, o.offset = n ∧ mark.Reaches o ∧ o.Reaches ⟨pos, s⟩ ∧ n < pos.offset) :
    Reads source b (Gap.scan s pos mark spaces tab opened comments).comments
        (Gap.scan s pos mark spaces tab opened comments).mark ∧
      AllComments (Gap.scan s pos mark spaces tab opened comments).comments := by
  have unopened (P : Nat → Prop) : ∀ n ∈ (none : Option Nat), P n := fun n hn => absurd hn (Option.not_mem_none n)
  fun_induction Gap.scan s pos mark spaces tab opened comments with
  | case1 => exact ⟨hb, hc⟩
  | case2 p mark spaces tab comments start =>
    obtain ⟨o, rfl, hmo, hop, hlt⟩ := ho start rfl
    rw [List.reverse_cons]
    exact reads_comment hb hc hmo hop hlt
  | case3 c r p mark spaces tab start comments hbr ih =>
    obtain ⟨o, rfl, hmo, hop, hlt⟩ := ho start rfl
    obtain ⟨hb', hc'⟩ := reads_comment hb hc hmo hop hlt
    refine ih ?_ ?_ (Cursor.Reaches.refl _).after (unopened _)
    · rwa [List.reverse_cons]
    · rwa [List.reverse_cons]
  | case4 c r p mark spaces tab start comments hbr ih =>
    obtain ⟨o, rfl, hmo, hop, hlt⟩ := ho start rfl
    refine ih hb hc hm.after fun n hn => ?_
    cases hn
    have := Position.offset_after p c
    exact ⟨o, rfl, hmo, hop.after, by omega⟩
  | case5 c r p mark spaces tab comments hbr ih => exact ih hb hc hm.after (unopened _)
  | case6 r p mark spaces tab comments _ ih => exact ih hb hc hm.after (unopened _)
  | case7 r p mark spaces tab comments _ _ ih => exact ih hb hc hm.after (unopened _)
  | case8 c r p mark spaces tab comments _ _ _ hh ih =>
    refine ih hb hc hm.after fun n hn => ?_
    cases hn
    have hpos := c.utf8Size_pos
    have := Position.offset_after p c
    exact ⟨⟨p, c :: r⟩, rfl, hm, (Cursor.Reaches.refl _).after, by omega⟩
  | case9 => exact ⟨hb, hc⟩

/-- In front of a visible character that opens no comment there is no gap. -/
lemma gap_of_head? {c : Char} (hc : p.rest.head? = some c) (hb : isBreak c = false) (hs : isSpace c = false)
    (hh : c ≠ '#') : p.gap = ⟨[], p, p, 0, false⟩ := by
  obtain ⟨pos, rest⟩ := p
  obtain ⟨r, rfl⟩ : ∃ r, rest = c :: r := by
    cases rest with
    | nil => cases hc
    | cons d r => exact ⟨r, by rw [Option.some.inj hc]⟩
  simp only [isSpace, Bool.or_eq_false_iff, beq_eq_false_iff_ne, ne_eq] at hs
  simp [Cursor.gap, Gap.scan, hb, hs.1, hs.2, hh]

/-- In a gap stand comments. -/
lemma reads_gap (hp : p.In source) : Reads source p p.gap.comments p.gap.mark ∧ AllComments p.gap.comments :=
  reads_scan 0 false none [] (Reads.nil hp (Cursor.Reaches.refl p)) nofun (Cursor.Reaches.refl p) nofun

lemma reads_gap_ahead (hp : p.In source) : Reads source p p.gap.comments p.gap.ahead :=
  (reads_gap hp).1.before p.reaches_ahead

lemma reads_gap_closing (hp : p.In source) : Reads source p p.gap.comments p.gap.closing := by
  unfold Gap.closing
  split
  · exact reads_gap_ahead hp
  · exact (reads_gap hp).1

/-! ### Values behind keys and indicators -/

/-- Behind a place stand comments and then a value. -/
structure ReadsValue (source : List Char) (p : Cursor) (ks : List Kind) (cs : List ConcreteTree) (v : ConcreteTree)
    (e : Cursor) : Prop where
  comments : AllComments cs
  value : ∃ q, Reads source p cs q ∧ Parses source q ks v e

namespace ReadsValue

variable {cs : List ConcreteTree} {v : ConcreteTree} (h : ReadsValue source p ks cs v e)

include h

lemma reads_withRole (r : Role) : Reads source p (cs ++ [v.withRole r]) e := by
  obtain ⟨q, comments, value⟩ := h.value
  exact comments.append (value.reads_withRole r)

lemma reads : Reads source p (cs ++ [v]) e := by
  obtain ⟨q, comments, value⟩ := h.value
  exact comments.append value.reads

lemma offset_le : p.offset ≤ v.span.start := by
  obtain ⟨q, comments, value⟩ := h.value
  rw [value.span]
  exact comments.reaches.offset_le

lemma kind : v.kind ∈ ks := by
  obtain ⟨q, -, value⟩ := h.value
  exact value.kind

end ReadsValue

/-- Up to the colon, or what else comes before its value, stands what makes a pair. -/
structure ReadsKey (source : List Char) (p : Cursor) (ts : List ConcreteTree) (q : Cursor) : Prop where
  reads : Reads source p ts q
  moved : p.offset < q.offset
  parts : ∃ cs ds key, AllComments cs ∧ AllComments ds ∧ ts = keyParts cs key ++ ds

namespace ReadsKey

variable (h : ReadsKey source p ts q)

include h

/-- A pair without a value. -/
lemma parses : Parses source p [.pair] (.node .pair .part ⟨p.offset, q.offset⟩ ts) q := by
  obtain ⟨cs, ds, key, hc, hd, rfl⟩ := h.parts
  refine h.reads.parses h.moved ?_
  have shape : Shape ⟨p.offset, q.offset⟩ (keyParts cs key ++ ds ++ []) .pair :=
    shape_pair key none hc hd fun _ hv => nomatch hv
  rwa [List.append_nil] at shape

/-- A pair with a value. -/
lemma parses_value {es : List ConcreteTree} {v : ConcreteTree} (hv : ReadsValue source q ks es v e) :
    Parses source p [.pair] (.node .pair .part ⟨p.offset, e.offset⟩ (ts ++ es ++ [v.withRole .value])) e := by
  obtain ⟨cs, ds, key, hc, hd, rfl⟩ := h.parts
  have value := hv.reads_withRole .value
  rw [List.append_assoc]
  refine (h.reads.append value).parses (Nat.lt_of_lt_of_le h.moved value.reaches.offset_le) ?_
  rw [← List.append_assoc, List.append_assoc (keyParts cs key)]
  refine shape_pair key (some v) hc (hd.append hv.comments) fun w hw => ?_
  cases hw
  exact Nat.lt_of_lt_of_le h.moved hv.offset_le

end ReadsKey

end CiWorkflow.Yaml
