import CiWorkflow.Proofs.Yaml.Flow
import CiWorkflow.Yaml.Block

/-!
# Block style reads lawful trees

Whatever a reader of block style answers, to whatever depth it may go: the construct starts where the
reader does, ends where the reader ends, and is lawful. Behind an indicator there may be no value at
all; the construct then ends with the indicator.
-/

namespace CiWorkflow.Yaml

open ConcreteTree

variable {source : List Char} {fuel margin col : Nat} {slot : Slot} {p q e : Cursor} {ts us : List ConcreteTree}
  {t v : ConcreteTree} {ks : List Kind}

/-! ### Wrapping -/

/-- The kinds of values. -/
def valueKinds : List Kind := [.flowNode, .blockNode]

lemma Parses.asBlockNode (h : Parses source p ks t e) (hk : .stream ∉ ks) :
    Parses source p valueKinds (asBlockNode (t, e)).1 e := by
  have node := h.reads.parses (k := .blockNode) (h.offset_lt hk) (single_singleton t)
  unfold Yaml.asBlockNode
  rw [h.span]
  exact node.mono (by decide)

/-- A collection is a value. -/
lemma parses_collection {r : Parsed} (h : r.map asBlockNode = some (t, e))
    (hr : ∀ {u f}, r = some (u, f) → Parses source p ks u f) (hk : .stream ∉ ks) : Parses source p valueKinds t e := by
  obtain ⟨⟨u, f⟩, hu, h⟩ := Option.map_eq_some_iff.mp h
  cases h
  exact (hr hu).asBlockNode hk

/-- Properties and comments in front of a value become parts of it. -/
lemma Parses.decorated (h : Parses source q valueKinds t e) (hp : Reads source p us q)
    (hd : ∀ u ∈ us, u.kind.isDecoration = true) :
    Parses source p valueKinds (.node t.kind .part ⟨p.offset, e.offset⟩ (us ++ t.children)) e := by
  have moved := h.offset_lt_of_reaches (by decide) hp.reaches
  have shape := h.lawful.own.shape
  have parts := hp.append h.parts
  rcases List.mem_cons.mp h.kind with hk | hk
  · rw [hk] at shape ⊢
    refine (parts.parses (k := .flowNode) moved ⟨single_append hd shape.1, fun u hu => ?_⟩).mono (by decide)
    rcases List.mem_append.mp hu with hu | hu
    · exact Or.inl (hd u hu)
    · exact shape.2 u hu
  · rw [List.mem_singleton.mp hk] at shape ⊢
    exact (parts.parses (k := .blockNode) moved (single_append hd shape)).mono (by decide)

/-! ### Values and collections -/

/-- What a reader behind an indicator answers: comments and a value, or nothing read at all. -/
def ReadsBehind (source : List Char) (p : Cursor) : List ConcreteTree × Option ConcreteTree × Cursor → Prop
  | (cs, some v, e) => ReadsValue source p valueKinds cs v e
  | (cs, none, e) => cs = [] ∧ e = p

/-- A key was read already, up to its colon. -/
def KeyRead (source : List Char) (p : Cursor) (key : ConcreteTree × Cursor) : Prop :=
  ∃ q, Parses source p valueKinds key.1 q ∧ q.Reaches key.2

/-- Behind the dash of an item stand comments and a value. -/
lemma ReadsValue.parses_item {cs : List ConcreteTree} (h : ReadsValue source p.next valueKinds cs v e) (hp : p.In source)
    (hd : p.offset < p.next.offset) : Parses source p [.item] (.node .item .part ⟨p.offset, e.offset⟩ (cs ++ [v])) e := by
  have parts := h.reads
  refine (parts.behind hp (Cursor.Reaches.refl p).next).parses (Nat.lt_of_lt_of_le hd parts.reaches.offset_le)
    ⟨fun t ht => Nat.lt_of_lt_of_le hd (parts.placed.within t ht).1,
      single_append h.comments.isDecoration (single_singleton v), fun t ht => ?_⟩
  rcases List.mem_append.mp ht with ht | ht
  · rw [(h.comments t ht).1]
    decide
  · rw [List.mem_singleton.mp ht]
    exact List.mem_cons_of_mem _ h.kind

/-- Behind an indicator stands the key of a pair, or nothing. -/
lemma ReadsBehind.key {cs : List ConcreteTree} {key : Option ConcreteTree} (h : ReadsBehind source p (cs, key, q))
    (hp : p.In source) : AllComments cs ∧ Reads source p (keyParts cs key) q := by
  cases key with
  | none =>
    obtain ⟨rfl, rfl⟩ := h
    exact ⟨AllComments.nil, Reads.nil hp (Cursor.Reaches.refl q)⟩
  | some k => exact ⟨h.comments, h.reads_withRole .key⟩

/-- The readers of block style read lawful trees, to some depth of their calls. -/
structure BlockReads (source : List Char) (fuel : Nat) : Prop where
  value : ∀ slot {p}, p.In source → ReadsBehind source p (blockValue fuel slot p)
  content : ∀ {slot collections p t e}, p.In source → blockContent fuel slot collections p = some (t, e) →
    Parses source p valueKinds t e
  mapping : ∀ {margin p key t e}, p.In source → (∀ k ∈ key, KeyRead source p k) →
    blockMapping fuel margin p key = some (t, e) → Parses source p [.blockMapping] t e
  entries : ∀ {margin col p key ts e}, p.In source → (∀ k ∈ key, KeyRead source p k) →
    mappingEntries fuel margin col p key = some (ts, e) → Reads source p ts e ∧ p.offset < e.offset
  entry : ∀ {col p key t e}, p.In source → (∀ k ∈ key, KeyRead source p k) →
    mappingEntry fuel col p key = some (t, e) → Parses source p [.pair] t e
  sequence : ∀ {margin p t e}, p.In source → p.atIndicator '-' = true → blockSequence fuel margin p = some (t, e) →
    Parses source p [.blockSequence] t e
  items : ∀ {margin col p ts e}, p.In source → p.atIndicator '-' = true →
    sequenceItems fuel margin col p = some (ts, e) → Reads source p ts e ∧ p.offset < e.offset

namespace BlockReads

variable (h : BlockReads source fuel)

include h

lemma value_succ (slot : Slot) (hp : p.In source) : ReadsBehind source p (blockValue (fuel + 1) slot p) := by
  unfold blockValue
  extract_lets g found
  have of_found : ∀ {t e}, found = some (t, e) → Parses source g.ahead valueKinds t e := by
    intro t e hf
    dsimp only [found] at hf
    split at hf
    · cases hf
    · split at hf
      · exact h.content hp.ahead hf
      · split at hf
        · exact h.content hp.ahead hf
        · split at hf
          · rename_i hdash
            simp only [Bool.and_eq_true] at hdash
            exact parses_collection hf (h.sequence hp.ahead hdash.2) (by decide)
          · cases hf
  cases hf : found with
  | none => exact ⟨rfl, rfl⟩
  | some r => exact ⟨(reads_gap hp).2, g.ahead, reads_gap_ahead hp, of_found hf⟩

lemma content_succ {collections : Bool} (hp : p.In source)
    (hf : blockContent (fuel + 1) slot collections p = some (t, e)) : Parses source p valueKinds t e := by
  unfold blockContent at hf
  split at hf
  · rename_i hdash
    simp only [Bool.and_eq_true] at hdash
    exact parses_collection hf (h.sequence hp hdash.2) (by decide)
  · split at hf
    · exact parses_collection hf (h.mapping hp nofun) (by decide)
    · split at hf
      · cases hf
      · rename_i props q hprops
        extract_lets g bare decorate plainValue at hf
        have properties := reads_properties hp hprops
        obtain ⟨gap, decorations⟩ := properties.gap
        have of_bare {t e} (hb : bare = some (t, e)) : Parses source p valueKinds t e := by
          dsimp only [bare] at hb
          split at hb
          · cases hb
          · rename_i hne
            cases hb
            exact (properties.parses (by simpa using hne)).mono (by decide)
        split at hf
        · -- the value stands on a later line than its properties
          split at hf
          · exact of_bare hf
          · split at hf
            · split at hf
              · rename_i r hr
                split at hf
                · cases hf
                  exact (h.content properties.reads.stop.ahead hr).decorated gap decorations
                · exact of_bare hf
              · exact of_bare hf
            · split at hf
              · rename_i hdash
                simp only [Bool.and_eq_true] at hdash
                obtain ⟨⟨u, f⟩, hu, hf⟩ := Option.map_eq_some_iff.mp hf
                cases hf
                have sequence := (h.sequence properties.reads.stop.ahead hdash.2 hu).asBlockNode (by decide)
                exact sequence.decorated gap decorations
              · exact of_bare hf
        · split at hf
          · rename_i hbar
            obtain ⟨f, hf', hf⟩ := Option.map_eq_some_iff.mp hf
            cases hf
            have visible : g.ahead.rest ≠ [] := hbar.elim Cursor.rest_ne_nil_of_head? Cursor.rest_ne_nil_of_head?
            have scalar := parses_lexeme (k := .blockScalar) properties.reads.stop.ahead visible (reaches_blockScalar hf') rfl
            have moved := scalar.offset_lt_of_reaches (by decide) gap.reaches
            have single := single_append properties.decorations (single_singleton (leaf .blockScalar g.ahead.offset e.offset))
            exact ((properties.append scalar).parses (k := .blockNode) moved single).mono (by decide)
          · have of_plain {t e} (hv : plainValue = some (t, e)) : Parses source p valueKinds t e := by
              dsimp only [plainValue] at hv
              split at hv
              · rename_i hstar
                simp only [Bool.and_eq_true, beq_iff_eq] at hstar
                exact (parses_aliasNode hp (Cursor.rest_ne_nil_of_head? hstar.2) hv).mono (by decide)
              · split at hv
                · rename_i u f hu
                  cases hv
                  have content := (flowReads source fuel).content properties.reads.stop.ahead hu
                  have moved := content.offset_lt_of_reaches (by decide) gap.reaches
                  have node := parses_flowNode (properties.append content) moved properties.decorations
                    (isFlowContent_of_mem content.kind)
                  exact node.mono (by decide)
                · exact of_bare hv
            cases hu : plainValue with
            | none =>
              rw [hu] at hf
              cases hf
            | some r =>
              obtain ⟨u, f⟩ := r
              have value := of_plain hu
              simp only [hu] at hf
              split at hf
              · refine parses_collection hf (h.mapping hp fun k hk => ?_) (by decide)
                cases hk
                exact ⟨f, value, (Cursor.Reaches.refl f).ahead⟩
              · cases hf
                exact value

lemma mapping_succ {key : Option (ConcreteTree × Cursor)} (hp : p.In source) (hk : ∀ k ∈ key, KeyRead source p k)
    (hf : blockMapping (fuel + 1) margin p key = some (t, e)) : Parses source p [.blockMapping] t e := by
  unfold blockMapping at hf
  obtain ⟨⟨us, f⟩, hus, hf⟩ := Option.map_eq_some_iff.mp hf
  cases hf
  obtain ⟨entries, moved⟩ := h.entries hp hk hus
  exact entries.parses moved trivial

lemma entries_succ {key : Option (ConcreteTree × Cursor)} (hp : p.In source) (hk : ∀ k ∈ key, KeyRead source p k)
    (hf : mappingEntries (fuel + 1) margin col p key = some (ts, e)) : Reads source p ts e ∧ p.offset < e.offset := by
  unfold mappingEntries at hf
  split at hf
  · cases hf
  · rename_i u q hu
    have entry := h.entry hp hk hu
    have moved := entry.offset_lt (by decide)
    dsimp only at hf
    split at hf
    · cases hf
      have closing := reads_gap_closing entry.stop
      exact ⟨entry.reads.append closing, Nat.lt_of_lt_of_le moved closing.reaches.offset_le⟩
    · split at hf
      · obtain ⟨⟨us, f⟩, hus, hf⟩ := Option.map_eq_some_iff.mp hf
        cases hf
        have unread : ∀ k ∈ (none : Option (ConcreteTree × Cursor)), KeyRead source q.gap.ahead k :=
          fun k hk => absurd hk (Option.not_mem_none k)
        obtain ⟨rest, -⟩ := h.entries entry.stop.ahead unread hus
        have behind := (reads_gap_ahead entry.stop).append rest
        exact ⟨entry.reads.append behind, Nat.lt_of_lt_of_le moved behind.reaches.offset_le⟩
      · cases hf

/-- An entry whose key was read already: behind the colon stands its value. -/
lemma keyed_entry {k : ConcreteTree} {colon : Cursor} (hk : KeyRead source p (k, colon))
    (hf : mappingEntry (fuel + 1) col p (some (k, colon)) = some (t, e)) : Parses source p [.pair] t e := by
  obtain ⟨q, key, hcolon⟩ := hk
  have upTo : ReadsKey source p [k.withRole .key] colon.next := by
    refine ⟨(key.reads_withRole .key).before hcolon.next, ?_, [], [], some k, AllComments.nil, AllComments.nil, rfl⟩
    exact Nat.lt_of_lt_of_le (key.offset_lt (by decide)) hcolon.next.offset_le
  have behind := h.value ⟨col + 1, false, true⟩ upTo.reads.stop
  unfold mappingEntry at hf
  split at hf
  · rename_i cs v f hv
    rw [hv] at behind
    cases hf
    exact upTo.parses_value behind
  · cases hf
    exact upTo.parses

/-- An entry with a key behind `?`, and perhaps a colon on a later line. -/
lemma explicit_entry (hp : p.In source) (hq : p.atIndicator '?' = true)
    (hf : mappingEntry (fuel + 1) col p none = some (t, e)) : Parses source p [.pair] t e := by
  have moved := Cursor.offset_lt_next (Cursor.rest_ne_nil_of_atIndicator hq)
  have behind := h.value ⟨col + 1, true, true⟩ hp.next
  rcases hv : blockValue fuel ⟨col + 1, true, true⟩ p.next with ⟨cs, key, q⟩
  rw [hv] at behind
  simp only [mappingEntry, hq, if_true, hv] at hf
  obtain ⟨hc, hkey⟩ := behind.key hp.next
  have upToKey : ReadsKey source p (keyParts cs key) q :=
    ⟨hkey.behind hp (Cursor.Reaches.refl p).next, Nat.lt_of_lt_of_le moved hkey.reaches.offset_le,
      cs, [], key, hc, AllComments.nil, (List.append_nil _).symm⟩
  split at hf
  · obtain ⟨-, hg⟩ := reads_gap upToKey.reads.stop
    have ahead := (Cursor.Reaches.refl q).ahead.next
    have upTo : ReadsKey source p (keyParts cs key ++ q.gap.comments) q.gap.ahead.next :=
      ⟨upToKey.reads.append ((reads_gap_ahead upToKey.reads.stop).before (Cursor.Reaches.refl _).next),
        Nat.lt_of_lt_of_le upToKey.moved ahead.offset_le, cs, q.gap.comments, key, hc, hg, rfl⟩
    have behind := h.value ⟨col + 1, true, true⟩ upTo.reads.stop
    split at hf
    · rename_i ds v f hv
      rw [hv] at behind
      cases hf
      exact upTo.parses_value behind
    · cases hf
      exact upTo.parses
  · cases hf
    exact upToKey.parses

/-- An entry that starts with the colon has no key. -/
lemma keyless_entry (hp : p.In source) (hq : p.atIndicator '?' = false) (hc : p.atIndicator ':' = true)
    (hf : mappingEntry (fuel + 1) col p none = some (t, e)) : Parses source p [.pair] t e := by
  have moved := Cursor.offset_lt_next (Cursor.rest_ne_nil_of_atIndicator hc)
  have upTo : ReadsKey source p [] p.next :=
    ⟨Reads.nil hp (Cursor.Reaches.refl p).next, moved, [], [], none, AllComments.nil, AllComments.nil, rfl⟩
  have behind := h.value ⟨col + 1, true, true⟩ upTo.reads.stop
  simp only [mappingEntry, hq, Bool.false_eq_true, if_false, hc, if_true] at hf
  split at hf
  · rename_i cs v f hv
    rw [hv] at behind
    cases hf
    exact upTo.parses_value behind
  · cases hf
    exact upTo.parses

lemma entry_succ {key : Option (ConcreteTree × Cursor)} (hp : p.In source) (hk : ∀ k ∈ key, KeyRead source p k)
    (hf : mappingEntry (fuel + 1) col p key = some (t, e)) : Parses source p [.pair] t e := by
  cases key with
  | some r => exact h.keyed_entry (hk r rfl) hf
  | none =>
    cases hq : p.atIndicator '?' with
    | true => exact h.explicit_entry hp hq hf
    | false =>
      cases hc : p.atIndicator ':' with
      | true => exact h.keyless_entry hp hq hc hf
      | false =>
        -- a key on one line with its colon
        simp only [mappingEntry, hq, hc, Bool.false_eq_true, if_false] at hf
        split at hf
        · cases hf
        · rename_i k q hkey
          split at hf
          · have key := (flowReads source fuel).node hp hkey
            refine h.entry hp (fun r hr => ?_) hf
            cases hr
            exact ⟨q, key.mono (by decide), (Cursor.Reaches.refl q).ahead⟩
          · cases hf

lemma sequence_succ (hp : p.In source) (hd : p.atIndicator '-' = true)
    (hf : blockSequence (fuel + 1) margin p = some (t, e)) : Parses source p [.blockSequence] t e := by
  unfold blockSequence at hf
  obtain ⟨⟨us, f⟩, hus, hf⟩ := Option.map_eq_some_iff.mp hf
  cases hf
  obtain ⟨items, moved⟩ := h.items hp hd hus
  exact items.parses moved trivial

lemma items_succ (hp : p.In source) (hd : p.atIndicator '-' = true)
    (hf : sequenceItems (fuel + 1) margin col p = some (ts, e)) : Reads source p ts e ∧ p.offset < e.offset := by
  unfold sequenceItems at hf
  have dash := Cursor.offset_lt_next (Cursor.rest_ne_nil_of_atIndicator hd)
  -- one item, and what stands behind it
  have item {u : ConcreteTree} {q : Cursor} (hu : (match blockValue fuel ⟨col + 1, true, false⟩ p.next with
      | (cs, some v, e) => (node .item .part ⟨p.offset, e.offset⟩ (cs ++ [v]), e)
      | (_, none, _) => (node .item .part ⟨p.offset, p.next.offset⟩ [], p.next)) = (u, q)) :
      Parses source p [.item] u q := by
    have behind := h.value ⟨col + 1, true, false⟩ hp.next
    split at hu
    · rename_i cs v f hv
      rw [hv] at behind
      cases hu
      exact behind.parses_item hp dash
    · cases hu
      have empty (P : ConcreteTree → Prop) : ∀ u ∈ ([] : List ConcreteTree), P u :=
        fun u hu => absurd hu List.not_mem_nil
      exact (Reads.nil hp (Cursor.Reaches.refl p).next).parses dash ⟨empty _, Nat.zero_le 1, empty _⟩
  split at hf
  rename_i u q hu
  have item := item hu
  have moved := item.offset_lt (by decide)
  dsimp only at hf
  split at hf
  · cases hf
    have closing := reads_gap_closing item.stop
    exact ⟨item.reads.append closing, Nat.lt_of_lt_of_le moved closing.reaches.offset_le⟩
  · split at hf
    · rename_i hnext
      simp only [Bool.and_eq_true] at hnext
      obtain ⟨⟨us, f⟩, hus, hf⟩ := Option.map_eq_some_iff.mp hf
      cases hf
      obtain ⟨rest, -⟩ := h.items item.stop.ahead hnext.2 hus
      have behind := (reads_gap_ahead item.stop).append rest
      exact ⟨item.reads.append behind, Nat.lt_of_lt_of_le moved behind.reaches.offset_le⟩
    · cases hf

end BlockReads

/-- To whatever depth the readers of block style go, they read lawful trees. -/
theorem blockReads (source : List Char) (fuel : Nat) : BlockReads source fuel := by
  induction fuel with
  | zero =>
    constructor
    case value =>
      intro slot p hp
      unfold blockValue
      exact ⟨rfl, rfl⟩
    all_goals simp [blockContent, blockMapping, mappingEntries, mappingEntry, blockSequence, sequenceItems]
  | succ fuel ih =>
    exact ⟨fun slot _ => ih.value_succ slot, ih.content_succ, ih.mapping_succ, ih.entries_succ, ih.entry_succ, ih.sequence_succ, ih.items_succ⟩

end CiWorkflow.Yaml
