import CiWorkflow.Proofs.Yaml.Shape
import CiWorkflow.Yaml.Flow

/-!
# Flow style reads lawful trees

Whatever a reader of flow style answers, to whatever depth it may go: the construct starts where the
reader does, ends where the reader ends, and is lawful.
-/

namespace CiWorkflow.Yaml

open ConcreteTree

variable {source : List Char} {fuel margin : Nat} {flow : Bool} {p q e : Cursor} {ts : List ConcreteTree}
  {t : ConcreteTree}

/-- The kinds of what a value in flow style consists of, aliases apart. -/
def flowContentKinds : List Kind := [.plain, .singleQuoted, .doubleQuoted, .flowSequence, .flowMapping]

lemma isFlowContent_of_mem {k : Kind} (hk : k ∈ flowContentKinds) : k.isFlowContent = true := by
  revert k
  decide

/-! ### Properties and scalars -/

/-- A construct without parts that has at least its first character. -/
lemma parses_lexeme {k : Kind} (hp : p.In source) (hr : p.rest ≠ []) (h : p.next.Reaches e)
    (shape : Shape ⟨p.offset, e.offset⟩ [] k) : Parses source p [k] (leaf k p.offset e.offset) e :=
  parses_leaf hp ((Cursor.Reaches.refl p).next.trans h) (h.offset_lt hr) shape

/-- Anchors and tags, and a place behind them. -/
structure ReadsProperties (source : List Char) (p : Cursor) (ts : List ConcreteTree) (q : Cursor) : Prop where
  reads : Reads source p ts q
  decorations : ∀ t ∈ ts, t.kind.isDecoration = true
  moved : ts = [] ∧ q = p ∨ ts ≠ [] ∧ p.offset < q.offset

lemma reads_properties (hp : p.In source) (h : properties p = some (ts, q)) : ReadsProperties source p ts q := by
  unfold properties at h
  extract_lets anchor tag also at h
  have of_anchor : ∀ o r, o.In source → o.rest ≠ [] → anchor o = some r → Parses source o [.anchor, .tag] r.1 r.2 := by
    intro o r ho hr h
    obtain ⟨e, he, rfl⟩ := Option.map_eq_some_iff.mp h
    have named := reaches_anchorName (Cursor.Reaches.refl o.next) he
    exact (parses_lexeme (k := .anchor) ho hr named rfl).mono (by simp)
  have of_tag : ∀ o r, o.In source → o.rest ≠ [] → tag o = some r → Parses source o [.anchor, .tag] r.1 r.2 := by
    intro o r ho hr h
    obtain ⟨e, he, rfl⟩ := Option.map_eq_some_iff.mp h
    exact (parses_lexeme (k := .tag) ho hr (reaches_tagEnd he) rfl).mono (by simp)
  -- one property, and perhaps another one on the same line
  have of_both {c : Char} {read : Cursor → Parsed} {first : ConcreteTree × Cursor}
      (of_read : ∀ o r, o.In source → o.rest ≠ [] → read o = some r → Parses source o [.anchor, .tag] r.1 r.2)
      (hf : Parses source p [.anchor, .tag] first.1 first.2) (h : also c read first = some (ts, q)) :
      ReadsProperties source p ts q := by
    have decoration {t : ConcreteTree} {o f : Cursor} (ht : Parses source o [.anchor, .tag] t f) :
        t.kind.isDecoration = true := by
      have hk := ht.kind
      revert hk
      cases t.kind <;> decide
    have moved := hf.offset_lt (by decide)
    dsimp only [also] at h
    split at h
    · rename_i hc
      obtain ⟨⟨t, e⟩, he, h⟩ := Option.map_eq_some_iff.mp h
      cases h
      simp only [Bool.and_eq_true, beq_iff_eq] at hc
      have second := of_read _ _ hf.stop.ahead (Cursor.rest_ne_nil_of_head? hc.2) he
      have both := hf.reads.append (second.reads.behind hf.stop (Cursor.Reaches.refl first.2).ahead)
      have further := ((Cursor.Reaches.refl first.2).ahead.trans second.reaches).offset_le
      refine ⟨both, fun u hu => ?_, Or.inr ⟨by simp, Nat.lt_of_lt_of_le moved further⟩⟩
      rcases List.mem_cons.mp hu with rfl | hu
      · exact decoration hf
      · rw [List.mem_singleton.mp hu]
        exact decoration second
    · cases h
      refine ⟨hf.reads, fun u hu => ?_, Or.inr ⟨by simp, moved⟩⟩
      rw [List.mem_singleton.mp hu]
      exact decoration hf
  split at h
  · rename_i hc
    obtain ⟨first, hf, h⟩ := Option.bind_eq_some_iff.mp h
    exact of_both of_tag (of_anchor _ _ hp (Cursor.rest_ne_nil_of_head? hc) hf) h
  · rename_i hc
    obtain ⟨first, hf, h⟩ := Option.bind_eq_some_iff.mp h
    exact of_both of_anchor (of_tag _ _ hp (Cursor.rest_ne_nil_of_head? hc) hf) h
  · cases h
    exact ⟨Reads.nil hp (Cursor.Reaches.refl _), nofun, Or.inl ⟨rfl, rfl⟩⟩

namespace ReadsProperties

variable (h : ReadsProperties source p ts q)

include h

/-- Up to what the properties belong to stand decorations only. -/
lemma gap : Reads source p (ts ++ q.gap.comments) q.gap.ahead ∧
    ∀ t ∈ ts ++ q.gap.comments, t.kind.isDecoration = true := by
  refine ⟨h.reads.append (reads_gap_ahead h.reads.stop), fun t ht => ?_⟩
  rcases List.mem_append.mp ht with ht | ht
  · exact h.decorations t ht
  · exact (reads_gap h.reads.stop).2.isDecoration t ht

/-- What stands behind the gap, without the comments of the gap. -/
lemma append {ks : List Kind} (ht : Parses source q.gap.ahead ks t e) : Reads source p (ts ++ [t]) e :=
  h.reads.append (ht.reads.behind h.reads.stop (Cursor.Reaches.refl q).ahead)

/-- Properties alone are a value. -/
lemma parses (hne : ts ≠ []) : Parses source p [.flowNode] (.node .flowNode .part ⟨p.offset, q.offset⟩ ts) q := by
  obtain ⟨rfl, -⟩ | ⟨-, hlt⟩ := h.moved
  · exact absurd rfl hne
  · have single : Single (ts ++ []) := single_append h.decorations (Nat.zero_le 1)
    rw [List.append_nil] at single
    exact h.reads.parses hlt ⟨single, fun u hu => Or.inl (h.decorations u hu)⟩

end ReadsProperties

/-- A value in flow style: properties and comments, and what the value consists of. -/
lemma parses_flowNode (h : Reads source p (ts ++ [t]) e) (hlt : p.offset < e.offset)
    (hts : ∀ u ∈ ts, u.kind.isDecoration = true) (ht : t.kind.isFlowContent = true) :
    Parses source p [.flowNode] (.node .flowNode .part ⟨p.offset, e.offset⟩ (ts ++ [t])) e := by
  refine h.parses hlt ⟨single_append hts (single_singleton t), fun u hu => ?_⟩
  rcases List.mem_append.mp hu with hu | hu
  · exact Or.inl (hts u hu)
  · rw [List.mem_singleton.mp hu]
    exact Or.inr ht

/-- A value in flow style without properties. -/
lemma parses_flowNode_bare (h : Reads source p [t] e) (hlt : p.offset < e.offset) (ht : t.kind.isFlowContent = true) :
    Parses source p [.flowNode] (.node .flowNode .part ⟨p.offset, e.offset⟩ [t]) e := by
  refine h.parses hlt ⟨single_singleton t, fun u hu => ?_⟩
  rw [List.mem_singleton.mp hu]
  exact Or.inr ht

lemma parses_aliasNode (hp : p.In source) (hr : p.rest ≠ []) (h : aliasNode p = some (t, e)) :
    Parses source p [.flowNode] t e := by
  obtain ⟨e, he, h⟩ := Option.map_eq_some_iff.mp h
  cases h
  have named := reaches_anchorName (Cursor.Reaches.refl p.next) he
  have lexeme := parses_lexeme (k := .aliasNode) hp hr named rfl
  exact parses_flowNode_bare lexeme.reads (named.offset_lt hr) rfl

lemma parses_flowScalar (hp : p.In source) (h : flowScalar flow margin p = some (t, e)) :
    Parses source p flowContentKinds t e := by
  unfold flowScalar at h
  extract_lets done at h
  have start := Cursor.Reaches.refl p.next
  split at h
  · rename_i hc
    obtain ⟨e, he, h⟩ := Option.map_eq_some_iff.mp h
    cases h
    have quoted := parses_lexeme (k := .doubleQuoted) hp (Cursor.rest_ne_nil_of_head? hc) (reaches_doubleQuoted start he) rfl
    exact quoted.mono (by decide)
  · rename_i hc
    obtain ⟨e, he, h⟩ := Option.map_eq_some_iff.mp h
    cases h
    have quoted := parses_lexeme (k := .singleQuoted) hp (Cursor.rest_ne_nil_of_head? hc) (reaches_singleQuoted start he) rfl
    exact quoted.mono (by decide)
  · obtain ⟨e, he, h⟩ := Option.map_eq_some_iff.mp h
    cases h
    obtain ⟨hr, moved⟩ := reaches_plainScalar he
    exact (parses_lexeme (k := .plain) hp hr moved rfl).mono (by decide)

/-! ### Collections -/

/-- The readers of flow style read lawful trees, to some depth of their calls. -/
structure FlowReads (source : List Char) (fuel : Nat) : Prop where
  node : ∀ {flow margin p t e}, p.In source → flowNode fuel flow margin p = some (t, e) →
    Parses source p [.flowNode] t e
  content : ∀ {flow margin p t e}, p.In source → flowContent fuel flow margin p = some (t, e) →
    Parses source p flowContentKinds t e
  entries : ∀ {close margin p ts e}, p.In source → flowEntries fuel close margin p = some (ts, e) →
    Reads source p ts e ∧ ∀ t ∈ ts, t.kind ∈ [.comment, .flowNode, .pair]
  entry : ∀ {inSequence margin p t e}, p.In source → flowEntry fuel inSequence margin p = some (t, e) →
    Parses source p [.flowNode, .pair] t e
  pair : ∀ {margin p comments key q t e}, Reads source p (keyParts comments key) q → AllComments comments →
    p.offset < q.offset ∨ p = q ∧ p.atFlowColon = true → flowPair fuel margin p comments key q = some (t, e) →
    Parses source p [.pair] t e

namespace FlowReads

variable (h : FlowReads source fuel)

include h

lemma node_succ (hp : p.In source) (hf : flowNode (fuel + 1) flow margin p = some (t, e)) :
    Parses source p [.flowNode] t e := by
  unfold flowNode at hf
  split at hf
  · rename_i hc
    exact parses_aliasNode hp (Cursor.rest_ne_nil_of_head? hc) hf
  · split at hf
    · cases hf
    · obtain ⟨⟨u, f⟩, hu, hf⟩ := Option.map_eq_some_iff.mp hf
      cases hf
      have content := h.content hp hu
      exact parses_flowNode_bare content.reads (content.offset_lt (by decide)) (isFlowContent_of_mem content.kind)
    · rename_i props q hne hq
      have properties := reads_properties hp hq
      dsimp only at hf
      split at hf
      · rename_i u f hu
        cases hf
        obtain ⟨-, hu⟩ := Option.ite_none_right_eq_some.mp hu
        have content := h.content properties.reads.stop.ahead hu
        obtain ⟨gap, decorations⟩ := properties.gap
        have moved := content.offset_lt_of_reaches (by decide) gap.reaches
        exact parses_flowNode (gap.append content.reads) moved decorations (isFlowContent_of_mem content.kind)
      · cases hf
        exact properties.parses fun hnil => hne (by rw [hnil])

lemma content_succ (hp : p.In source) (hf : flowContent (fuel + 1) flow margin p = some (t, e)) :
    Parses source p flowContentKinds t e := by
  -- the entries stand behind the bracket
  have collection {c : Char} {us : List ConcreteTree} {f : Cursor} {close : Char} (hc : p.rest.head? = some c)
      (hu : flowEntries fuel close margin p.next = some (us, f)) : Reads source p us f ∧ p.offset < f.offset ∧
        Opened ⟨p.offset, f.offset⟩ us ∧ ∀ t ∈ us, t.kind ∈ [.comment, .flowNode, .pair] := by
    obtain ⟨entries, kinds⟩ := h.entries hp.next hu
    have bracket := Cursor.offset_lt_next (Cursor.rest_ne_nil_of_head? hc)
    refine ⟨entries.behind hp (Cursor.Reaches.refl p).next, Nat.lt_of_lt_of_le bracket entries.reaches.offset_le,
      fun t ht => Nat.lt_of_lt_of_le bracket (entries.placed.within t ht).1, kinds⟩
  unfold flowContent at hf
  split at hf
  · rename_i hc
    obtain ⟨⟨us, f⟩, hu, hf⟩ := Option.map_eq_some_iff.mp hf
    cases hf
    obtain ⟨entries, hlt, opened, kinds⟩ := collection hc hu
    exact (entries.parses (k := .flowSequence) hlt ⟨opened, kinds⟩).mono (by decide)
  · rename_i hc
    obtain ⟨⟨us, f⟩, hu, hf⟩ := Option.map_eq_some_iff.mp hf
    cases hf
    obtain ⟨entries, hlt, opened, -⟩ := collection hc hu
    exact (entries.parses (k := .flowMapping) hlt opened).mono (by decide)
  · exact parses_flowScalar hp hf

lemma entries_succ {close : Char} (hp : p.In source) (hf : flowEntries (fuel + 1) close margin p = some (ts, e)) :
    Reads source p ts e ∧ ∀ t ∈ ts, t.kind ∈ [.comment, .flowNode, .pair] := by
  have gapKinds {q : Cursor} (hq : q.In source) : ∀ t ∈ q.gap.comments, t.kind ∈ [.comment, .flowNode, .pair] := by
    intro t ht
    rw [((reads_gap hq).2 t ht).1]
    decide
  unfold flowEntries at hf
  dsimp only at hf
  split at hf
  · cases hf
    exact ⟨(reads_gap_ahead hp).before (Cursor.Reaches.refl _).next, gapKinds hp⟩
  · split at hf
    · split at hf
      · cases hf
      · rename_i u q hu
        have entry := h.entry hp.ahead hu
        have upTo := ((reads_gap_ahead hp).append entry.reads).append (reads_gap_ahead entry.stop)
        have kinds : ∀ t ∈ p.gap.comments ++ [u] ++ q.gap.comments, t.kind ∈ [.comment, .flowNode, .pair] := by
          intro t ht
          rcases List.mem_append.mp ht with ht | ht
          · rcases List.mem_append.mp ht with ht | ht
            · exact gapKinds hp t ht
            · rw [List.mem_singleton.mp ht]
              exact List.mem_cons_of_mem _ entry.kind
          · exact gapKinds entry.stop t ht
        split at hf
        · cases hf
          rw [← List.singleton_append, ← List.append_assoc]
          exact ⟨upTo.before (Cursor.Reaches.refl _).next, kinds⟩
        · split at hf
          · obtain ⟨⟨us, f⟩, hus, hf⟩ := Option.map_eq_some_iff.mp hf
            cases hf
            obtain ⟨rest, restKinds⟩ := h.entries entry.stop.ahead.next hus
            rw [← List.singleton_append, ← List.append_assoc, ← List.append_assoc]
            refine ⟨upTo.append (rest.behind upTo.stop (Cursor.Reaches.refl _).next), fun t ht => ?_⟩
            rcases List.mem_append.mp ht with ht | ht
            · exact kinds t ht
            · exact restKinds t ht
          · cases hf
    · cases hf

lemma pair_succ {comments : List ConcreteTree} {key : Option ConcreteTree}
    (hk : Reads source p (keyParts comments key) q) (hc : AllComments comments)
    (hlt : p.offset < q.offset ∨ p = q ∧ p.atFlowColon = true)
    (hf : flowPair (fuel + 1) margin p comments key q = some (t, e)) : Parses source p [.pair] t e := by
  unfold flowPair at hf
  extract_lets g parts colon at hf
  obtain ⟨-, hg⟩ := reads_gap hk.stop
  split at hf
  · rename_i hcolon
    have visible : g.ahead.rest.head? = some ':' := by
      simp only [colon, Bool.and_eq_true, beq_iff_eq] at hcolon
      exact hcolon.1.1
    have gap := hk.append (reads_gap_ahead hk.stop)
    have moved : p.offset < g.ahead.next.offset :=
      Nat.lt_of_le_of_lt gap.reaches.offset_le (Cursor.offset_lt_next (Cursor.rest_ne_nil_of_head? visible))
    have upTo : ReadsKey source p (parts ++ g.comments) g.ahead.next :=
      ⟨gap.before (Cursor.Reaches.refl g.ahead).next, moved, comments, g.comments, key, hc, hg, rfl⟩
    split at hf
    · rename_i v f hv
      cases hf
      obtain ⟨-, hv⟩ := Option.ite_none_right_eq_some.mp hv
      have behind := upTo.reads.stop
      exact upTo.parses_value ⟨(reads_gap behind).2, _, reads_gap_ahead behind, h.node behind.ahead hv⟩
    · cases hf
      exact upTo.parses
  · rename_i hcolon
    cases hf
    have moved : p.offset < q.offset := by
      refine hlt.resolve_right fun hs => hcolon ?_
      obtain ⟨hpq, hat⟩ := hs
      subst hpq
      have visible : p.rest.head? = some ':' := by
        simp only [Cursor.atFlowColon, Bool.and_eq_true, beq_iff_eq] at hat
        exact hat.1
      have none : g = ⟨[], p, p, 0, false⟩ := gap_of_head? visible rfl rfl (by decide)
      simp [colon, none, visible, hat, Gap.inside, Gap.newline]
    have upTo : ReadsKey source p parts q :=
      ⟨hk, moved, comments, [], key, hc, AllComments.nil, (List.append_nil _).symm⟩
    exact upTo.parses

lemma entry_succ {inSequence : Bool} (hp : p.In source)
    (hf : flowEntry (fuel + 1) inSequence margin p = some (t, e)) : Parses source p [.flowNode, .pair] t e := by
  unfold flowEntry at hf
  split at hf
  · rename_i hq
    have moved := Cursor.offset_lt_next (Cursor.rest_ne_nil_of_atIndicator hq)
    have gap := (reads_gap_ahead hp.next).behind hp (Cursor.Reaches.refl p).next
    dsimp only at hf
    split at hf
    · exact (h.pair (Reads.nil hp (Cursor.Reaches.refl p).next) (reads_gap hp.next).2 (Or.inl moved) hf).mono (by decide)
    · rename_i k q hk
      obtain ⟨-, hk⟩ := Option.ite_none_right_eq_some.mp hk
      have read := h.node hp.next.ahead hk
      have upTo := gap.append (read.reads_withRole .key)
      have further := read.offset_lt_of_reaches (by decide) gap.reaches
      exact (h.pair upTo (reads_gap hp.next).2 (Or.inl further) hf).mono (by decide)
  · split at hf
    · rename_i hcolon
      exact (h.pair (Reads.nil hp (Cursor.Reaches.refl p)) AllComments.nil (Or.inr ⟨rfl, hcolon⟩) hf).mono (by decide)
    · split at hf
      · cases hf
      · rename_i k q hk
        have read := h.node hp hk
        extract_lets g colon near at hf
        split at hf
        · have moved := read.offset_lt (by decide)
          exact (h.pair (read.reads_withRole .key : Reads source p (keyParts [] (some k)) q) AllComments.nil (Or.inl moved) hf).mono (by decide)
        · cases hf
          exact read.mono (by decide)

end FlowReads

/-- To whatever depth the readers of flow style go, they read lawful trees. -/
theorem flowReads (source : List Char) (fuel : Nat) : FlowReads source fuel := by
  induction fuel with
  | zero =>
    constructor <;> simp [flowNode, flowContent, flowEntries, flowEntry, flowPair]
  | succ fuel ih => exact ⟨ih.node_succ, ih.content_succ, ih.entries_succ, ih.entry_succ, ih.pair_succ⟩

end CiWorkflow.Yaml
