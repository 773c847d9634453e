import CiWorkflow.Proofs.Yaml.Block
import CiWorkflow.Yaml.Stream

/-!
# Texts read lawful trees

The documents of a text follow each other, and the stream that holds them spans the whole text.
-/

namespace CiWorkflow.Yaml

open ConcreteTree
open Text (byteLength)

variable {source : List Char} {fuel : Nat} {b p q e : Cursor} {ts : List ConcreteTree}

/-! ### Directives -/

lemma reaches_directiveWord {w : List Char} (hb : b.Reaches p) (h : directiveWord p = some (w, e)) : b.Reaches e := by
  unfold directiveWord at h
  dsimp only at h
  split at h
  · cases h
  · split at h
    · cases h
    · cases h
      exact reaches_skipWhile isVisible hb.ahead

lemma reaches_directiveWords (fuel : Nat) (hb : b.Reaches p) : b.Reaches (directiveWords fuel p).2 := by
  induction fuel generalizing p with
  | zero => exact hb
  | succ fuel ih =>
    unfold directiveWords
    split
    · exact hb
    · rename_i w e hw
      exact ih (reaches_directiveWord hb hw)

lemma reaches_directive (hb : b.Reaches p) (h : directive p = some e) : b.Reaches e := by
  have words := reaches_directiveWords (p.rest.length + 1) hb
  unfold directive at h
  split at h
  · cases h
  · rename_i name rest f hw
    rw [hw] at words
    extract_lets fits at h
    split at h
    · cases h
      exact words
    · cases h
  · cases h

lemma reaches_directives (hb : b.Reaches p) (h : directives fuel p = some e) :
    b.Reaches e ∧ e.rest.head? = some '-' := by
  induction fuel generalizing p with
  | zero => cases h
  | succ fuel ih =>
    unfold directives at h
    split at h
    · rename_i hmark
      cases h
      simp only [Bool.and_eq_true, beq_iff_eq] at hmark
      exact ⟨hb, hmark.2⟩
    · split at h
      · obtain ⟨f, hf, h⟩ := Option.bind_eq_some_iff.mp h
        exact ih (reaches_directive hb hf).ahead h
      · cases h

/-! ### Documents -/

lemma reads_documents {bare : Bool} (hp : p.In source) (h : documents fuel bare p = some ts) :
    ∃ e, Reads source p ts e := by
  induction fuel generalizing p ts bare with
  | zero => cases h
  | succ fuel ih =>
    unfold documents at h
    extract_lets g document at h
    have gap := reads_gap_ahead hp
    have of_document {start f : Cursor} {cs : List ConcreteTree} (v : Option ConcreteTree) (hs : g.ahead.Reaches start)
        (parts : Reads source start (cs ++ v.toList) f) (moved : start.offset < f.offset)
        (h : document start (cs, v, f) = some ts) : ∃ e, Reads source p ts e := by
      obtain ⟨us, hus, rfl⟩ := Option.map_eq_some_iff.mp h
      obtain ⟨e, rest⟩ := ih parts.stop hus
      have node := (parts.parses (k := .document) moved trivial).reads
      exact ⟨e, gap.append ((node.append rest).behind gap.stop hs)⟩
    -- a document behind its mark
    have of_mark {start : Cursor} (hs : g.ahead.Reaches start) (hd : start.rest.head? = some '-')
        (h : document start (blockValue fuel ⟨0, false, false⟩ (start.skip 3)) = some ts) : ∃ e, Reads source p ts e := by
      have mark : start.next.Reaches (start.skip 3) := (Cursor.Reaches.refl start.next).skip 2
      have moved := mark.offset_lt (Cursor.rest_ne_nil_of_head? hd)
      have here : start.In source := gap.stop.trans hs
      have there : start.Reaches (start.skip 3) := (Cursor.Reaches.refl start).skip 3
      have behind := (blockReads source fuel).value ⟨0, false, false⟩ (here.trans there)
      rcases hv : blockValue fuel ⟨0, false, false⟩ (start.skip 3) with ⟨cs, _ | v, e⟩
      · rw [hv] at behind h
        obtain ⟨rfl, rfl⟩ := behind
        exact of_document none hs (Reads.nil here there) moved h
      · rw [hv] at behind h
        have value := behind.reads
        exact of_document (some v) hs (value.behind here there) (Nat.lt_of_lt_of_le moved value.reaches.offset_le) h
    split at h
    · cases h
      exact ⟨_, gap⟩
    · split at h
      · split at h
        · rename_i hd
          exact of_mark (Cursor.Reaches.refl _) hd h
        · obtain ⟨us, hus, rfl⟩ := Option.map_eq_some_iff.mp h
          have skipped := (Cursor.Reaches.refl g.ahead).skip 3
          obtain ⟨e, rest⟩ := ih (gap.stop.trans skipped) hus
          exact ⟨e, gap.append (rest.behind gap.stop skipped)⟩
      · split at h
        · cases h
        · split at h
          · split at h
            · cases h
            · rename_i q hq
              obtain ⟨hs, hd⟩ := reaches_directives (Cursor.Reaches.refl _) hq
              exact of_mark hs hd h
          · split at h
            · cases h
            · rename_i t e ht
              have value := (blockReads source fuel).content gap.stop ht
              exact of_document (some t) (Cursor.Reaches.refl _) value.reads (value.offset_lt (by decide)) h

/-- The tree of a text is a stream over the whole text, and lawful. -/
theorem lawful_ofText? {s : List Char} {t : ConcreteTree} (h : ConcreteTree.ofText? s = some t) :
    t.kind = .stream ∧ t.span = ⟨0, byteLength s⟩ ∧ t.Everywhere (Lawful s) := by
  unfold ConcreteTree.ofText? at h
  extract_lets start at h
  split at h
  · cases h
  · obtain ⟨ts, hts, rfl⟩ := Option.map_eq_some_iff.mp h
    have here : start.In s := by
      dsimp only [start]
      split
      · rename_i hbom
        cases s with
        | nil => cases hbom
        | cons c r =>
          cases hbom
          exact ⟨['\uFEFF'], rfl, rfl⟩
      · exact Cursor.Reaches.refl _
    obtain ⟨e, read⟩ := reads_documents here hts
    have inside := read.stop.isCut.le
    refine ⟨rfl, rfl, .node ⟨⟨Text.isCut_zero s, Text.isCut_byteLength s⟩, ⟨Nat.zero_le _, fun t ht => ?_, read.placed.apart⟩,
      fun hk => absurd rfl hk, trivial⟩ read.lawful⟩
    exact ⟨Nat.zero_le _, Nat.le_trans (read.placed.within t ht).2 inside⟩

end CiWorkflow.Yaml
