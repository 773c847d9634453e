import CiWorkflow.Proofs.Tree.Forest
import CiWorkflow.Proofs.Yaml.Cursor

/-!
# Where the elements of a construct lie

In a well-placed tree the elements that a construct adds lie inside it, one behind the other, and what
is below an element lies inside the element.
-/

namespace CiWorkflow.Tree

open Text (Span IsCut)
open Yaml (ConcreteTree Kind)
open Yaml.ConcreteTree (Placed Lawful)

variable {source : List Char} {s r : Span} {e : Element} {f g : Forest}

/-- An element has a range between characters of a text, and its own text, where it has one, is the text
there. -/
structure Element.Spans (source : List Char) (e : Element) (r : Span) : Prop where
  start : e.start = r.start
  stop : e.stop = r.stop
  ordered : r.start ≤ r.stop
  cut : IsCut source r.start ∧ IsCut source r.stop
  text : ∀ x ∈ e.text, Text.slice source r.start r.stop = some x.toList

lemma Element.Spans.range? (h : e.Spans source r) : e.range? = some r := by
  unfold Element.range?
  have := h.ordered
  rw [h.start, h.stop, if_pos ⟨by omega, by omega⟩]
  rfl

/-- Elements lie in a range, one behind the other, and what is below them inside of them. -/
inductive Laid (source : List Char) : Span → Forest → Prop
  | nil {s : Span} : Laid source s .nil
  | cons {s r : Span} {e : Element} {b f : Forest} (here : e.Spans source r) (within : r.Within s)
      (below : Laid source r b) (rest : Laid source ⟨r.stop, s.stop⟩ f) : Laid source s (.cons e b f)

namespace Laid

lemma mono {s' : Span} (h : Laid source s f) (hs : s.Within s') : Laid source s' f := by
  induction h generalizing s' with
  | nil => exact nil
  | cons here within below _ _ ih => exact cons here (within.trans hs) below (ih ⟨Nat.le_refl _, hs.2⟩)

lemma single (h : e.Spans source s) : Laid source s (.single e) := cons h (Span.Within.refl s) nil nil

lemma append {n : Nat} (hf : Laid source s f) (hg : Laid source ⟨s.stop, n⟩ g) (hs : s.start ≤ s.stop) (hn : s.stop ≤ n) :
    Laid source ⟨s.start, n⟩ (f.append g) := by
  induction hf with
  | nil => exact hg.mono ⟨hs, Nat.le_refl n⟩
  | cons here within below _ _ ih =>
    exact cons here ⟨within.1, Nat.le_trans within.2 hn⟩ below (ih hg within.2 hn)

/-- What the parts of a construct add lies where the parts are. -/
lemma join {F : ConcreteTree → Forest} {ts : List ConcreteTree} (hts : Placed s ts)
    (hF : ∀ t ∈ ts, t.span.start ≤ t.span.stop ∧ Laid source t.span (F t)) : Laid source s (.join (ts.map F)) := by
  induction ts generalizing s with
  | nil => exact nil
  | cons t ts ih =>
    obtain ⟨ordered, laid⟩ := hF t List.mem_cons_self
    have within := hts.within t List.mem_cons_self
    obtain ⟨behind, apart⟩ := List.pairwise_cons.mp hts.apart
    have rest : Placed ⟨t.span.stop, s.stop⟩ ts :=
      ⟨within.2, fun u hu => ⟨behind u hu, (hts.within u (List.mem_cons_of_mem t hu)).2⟩, apart⟩
    have tail := ih rest fun u hu => hF u (List.mem_cons_of_mem t hu)
    exact (laid.append tail ordered within.2).mono ⟨within.1, Nat.le_refl _⟩

lemma bounds (h : Laid source s f) : ∀ e ∈ f.elements, ∃ r, e.Spans source r ∧ r.Within s := by
  induction h with
  | nil => nofun
  | @cons s r e b f here within _ _ ihb ihf =>
    intro x hx
    rcases List.mem_cons.mp hx with rfl | hx
    · exact ⟨r, here, within⟩
    · rcases List.mem_append.mp hx with hx | hx
      · obtain ⟨q, hq, hw⟩ := ihb x hx
        exact ⟨q, hq, hw.trans within⟩
      · obtain ⟨q, hq, hw⟩ := ihf x hx
        exact ⟨q, hq, hw.trans ⟨Nat.le_trans within.1 here.ordered, Nat.le_refl _⟩⟩

end Laid

namespace Document

variable {t : ConcreteTree} {ts : List ConcreteTree}

/-! ### The parts that count -/

/-- What an element of a flow sequence adds. -/
def flowElement (source : List Char) (t : ConcreteTree) : Forest :=
  if t.kind = .comment then .nil else elementForest source t.span t (forest source t)

lemma partsForest_eq_join (source : List Char) (ts : List ConcreteTree) :
    partsForest source ts = .join (ts.map (forest source)) := by
  induction ts with
  | nil => rfl
  | cons t ts ih => rw [partsForest, ih, List.map_cons, Forest.join_cons]

lemma elementsForest_eq_join (source : List Char) (ts : List ConcreteTree) :
    elementsForest source ts = .join (ts.map (flowElement source)) := by
  induction ts with
  | nil => rfl
  | cons t ts ih =>
    rw [elementsForest, List.map_cons, Forest.join_cons, ← ih, flowElement]
    split <;> rfl

lemma valueForest_cases (source : List Char) (ts : List ConcreteTree) :
    (∃ t ∈ ts, t.role = .value ∧ valueForest source ts = forest source t) ∨
      (∀ t ∈ ts, t.role ≠ .value) ∧ valueForest source ts = .nil := by
  induction ts with
  | nil => exact Or.inr ⟨nofun, rfl⟩
  | cons t ts ih =>
    rw [valueForest]
    split
    · rename_i hr
      exact Or.inl ⟨t, List.mem_cons_self, hr, rfl⟩
    · rename_i hr
      rcases ih with ⟨u, hu, hrole, hf⟩ | ⟨none, hf⟩
      · exact Or.inl ⟨u, List.mem_cons_of_mem t hu, hrole, hf⟩
      · exact Or.inr ⟨List.forall_mem_cons.mpr ⟨hr, none⟩, hf⟩

lemma itemForest_eq (source : List Char) (s : Span) (ts : List ConcreteTree) :
    itemForest source s ts = match ts.find? (·.kind ≠ .comment) with
      | none => .single (.container s)
      | some t => elementForest source s t (forest source t) := by
  induction ts with
  | nil => rfl
  | cons t ts ih =>
    rw [itemForest, ih]
    by_cases hk : t.kind = .comment
    · rw [if_pos hk, List.find?_cons_of_neg (by simpa using hk)]
    · rw [if_neg hk, List.find?_cons_of_pos (by simpa using hk)]

/-- The scalar that a value consists of is the value itself or one of its parts. -/
lemma bareScalar?_cases {scalar : ConcreteTree} (h : t.bareScalar? = some scalar) :
    t.kind.isScalar = true ∧ scalar = t ∨
      (t.kind = .flowNode ∨ t.kind = .blockNode) ∧ scalar ∈ t.children ∧ scalar.kind.isScalar = true := by
  unfold ConcreteTree.bareScalar? at h
  split at h
  · rename_i hk
    cases h
    exact Or.inl ⟨hk, rfl⟩
  · split at h
    · rename_i hk
      have hs := List.find?_some h
      exact Or.inr ⟨hk, (List.mem_filter.mp (List.mem_of_find?_eq_some h)).1, by simpa using hs⟩
    · cases h

end Document

/-! ### Well-placed trees -/

/-- A construct's range lies between characters and holds its parts in their order. -/
def Fits (source : List Char) (s : Span) (ts : List ConcreteTree) : Prop :=
  Placed s ts ∧ IsCut source s.start ∧ IsCut source s.stop

lemma fits_of_lawful {t : ConcreteTree} (h : t.Everywhere (Lawful source)) : t.Everywhere fun _ => Fits source :=
  h.mono fun _ _ _ hl => ⟨hl.placed, hl.cut⟩

namespace Fits

variable {t : ConcreteTree} {ts : List ConcreteTree} (h : Fits source s ts)

include h

lemma spans_container : (Element.container s).Spans source s := ⟨rfl, rfl, h.1.ordered, h.2, nofun⟩

lemma spans_keyed (key : String) : (Element.keyed s key).Spans source s := ⟨rfl, rfl, h.1.ordered, h.2, nofun⟩

lemma spans_scalar : (Element.scalar s (Document.sourceAt source s)).Spans source s := by
  obtain ⟨x, hx⟩ := Text.exists_slice h.2.1 h.2.2 h.1.ordered
  refine ⟨rfl, rfl, h.1.ordered, h.2, fun y hy => ?_⟩
  cases hy
  rw [Document.sourceAt, hx, Option.getD_some, String.toList_ofList]

end Fits

open Document

lemma laid_elementForest {t : ConcreteTree} {below : Forest} (hs : (Element.container s).Spans source s)
    (ht : t.Everywhere fun _ => Fits source) (hw : t.span.Within s) (laid : Laid source t.span below) :
    Laid source s (elementForest source s t below) := by
  unfold elementForest
  split
  · rename_i scalar hb
    have fits : Fits source scalar.span scalar.children ∧ scalar.span.Within t.span := by
      rcases bareScalar?_cases hb with ⟨-, rfl⟩ | ⟨-, hmem, -⟩
      · exact ⟨ht.own, Span.Within.refl _⟩
      · exact ⟨(ht.parts scalar hmem).own, ht.own.1.within scalar hmem⟩
    exact (Laid.single fits.1.spans_scalar).mono (fits.2.trans hw)
  · exact .cons hs (Span.Within.refl s) (laid.mono hw) .nil

/-- What a construct adds lies in the construct. -/
lemma laid_forest {t : ConcreteTree} (h : t.Everywhere fun _ => Fits source) : Laid source t.span (forest source t) := by
  induction h with
  | @node k role s ts own parts ih =>
    have ordered (u : ConcreteTree) (hu : u ∈ ts) : u.span.start ≤ u.span.stop := (parts u hu).own.1.ordered
    have value : Laid source s (valueForest source ts) := by
      rcases valueForest_cases source ts with ⟨u, hu, -, hf⟩ | ⟨-, hf⟩ <;> rw [hf]
      · exact (ih u hu).mono (own.1.within u hu)
      · exact .nil
    have wrapped : Laid source s (partsForest source ts) := by
      rw [partsForest_eq_join]
      exact Laid.join own.1 fun u hu => ⟨ordered u hu, ih u hu⟩
    have leaf : Laid source s (scalarForest source s) := Laid.single own.spans_scalar
    change Laid source s _
    unfold forest
    cases k
    case pair =>
      cases hk : pairKey? source ts with
      | none => simpa [Kind.isScalar, Kind.isDecoration, hk] using value
      | some key =>
        have keyed := Laid.cons (own.spans_keyed key) (Span.Within.refl s) value .nil
        simpa [Kind.isScalar, Kind.isDecoration, hk] using keyed
    case item =>
      change Laid source s (itemForest source s ts)
      rw [itemForest_eq]
      split
      · exact Laid.single own.spans_container
      · rename_i u hf
        have hu := List.mem_of_find?_eq_some hf
        exact laid_elementForest own.spans_container (parts u hu) (own.1.within u hu) (ih u hu)
    case flowSequence =>
      change Laid source s (elementsForest source ts)
      rw [elementsForest_eq_join]
      refine Laid.join own.1 fun u hu => ⟨ordered u hu, ?_⟩
      unfold flowElement
      split
      · exact .nil
      · exact laid_elementForest (parts u hu).own.spans_container (parts u hu) (Span.Within.refl _) (ih u hu)
    all_goals first | exact wrapped | exact leaf | exact .nil

lemma laid_flowElement {t : ConcreteTree} (h : t.Everywhere fun _ => Fits source) :
    Laid source t.span (flowElement source t) := by
  unfold flowElement
  split
  · exact .nil
  · exact laid_elementForest h.own.spans_container h (Span.Within.refl _) (laid_forest h)

end CiWorkflow.Tree
