import CiWorkflow.Proofs.Tree.Bearing

/-!
# The constructs in value position

What a document keeps of a text is told by the constructs in value position, that is outside the keys of
pairs. A scalar among them has a text node; a pair with a key has a keyed node; an element of a sequence
that is more than a scalar has a container; nothing else has a node of its own (`links_held`).
-/

namespace CiWorkflow.Tree

open Text (Span)
open Yaml (ConcreteTree Kind Role)
open Yaml.ConcreteTree (Lawful Shape Single Opened)

namespace Forest

variable {o : Element} {es : List Element} {f : Forest}

/-- A forest below elements that stand one below the other. -/
def under : List Element → Forest → Forest
  | [], f => f
  | e :: es, f => cons e (under es f) nil

lemma under_append (es es' : List Element) (f : Forest) : under (es ++ es') f = under es (under es' f) := by
  induction es with
  | nil => rfl
  | cons e es ih => rw [List.cons_append, under, under, ih]

/-- Elements that stand one below the other, each with the one above it. -/
def chain : Element → List Element → List (Element × Element)
  | _, [] => []
  | o, e :: es => (o, e) :: chain e es

lemma map_snd_chain (o : Element) (es : List Element) : (chain o es).map Prod.snd = es := by
  induction es generalizing o with
  | nil => rfl
  | cons e es ih => rw [chain, List.map_cons, ih]

lemma links_under (o : Element) (es : List Element) (f : Forest) :
    (under es f).links o = chain o es ++ f.links (es.getLastD o) := by
  induction es generalizing o with
  | nil => rfl
  | cons e es ih => rw [under, links, ih, links, List.append_nil, List.getLastD_cons, chain, List.cons_append]

end Forest

/-! ### Constructs in value position -/

/-- The parts of a construct in value position: all but the key of a pair. -/
def valueParts (k : Kind) (ts : List ConcreteTree) : List ConcreteTree :=
  if k = .pair then ts.filter (·.role ≠ .key) else ts

/-- The scalar that an element of a sequence consists of, if it is nothing more. -/
def elementScalar? (t : ConcreteTree) : Option ConcreteTree :=
  if t.kind = .item then (t.children.find? (·.kind ≠ .comment)).bind ConcreteTree.bareScalar? else t.bareScalar?

/-- Whether a part of a construct of some kind is an element of a sequence. -/
def isElement (holder : Kind) (t : ConcreteTree) : Bool :=
  t.kind == .item || holder == .flowSequence && t.kind != .comment

/-- The container of an element that is more than a scalar. -/
def container? (holder : Kind) (t : ConcreteTree) : Option Element :=
  if isElement holder t && (elementScalar? t).isNone then some (.container t.span) else none

/-- The element of a scalar, or of a pair with a key. -/
def label? (source : List Char) (t : ConcreteTree) : Option Element :=
  if t.kind.isScalar then some (.scalar t.span (Document.sourceAt source t.span))
  else if t.kind = .pair then (Document.pairKey? source t.children).map (.keyed t.span)
  else none

/-- The elements that a construct has of its own, one below the other. -/
def ownElements (source : List Char) (holder : Kind) (t : ConcreteTree) : List Element :=
  (container? holder t).toList ++ (label? source t).toList

/-- A construct in value position: the element below which it adds its own, and the kind of construct
that it is a part of. -/
structure Place where
  owner : Element
  holder : Kind
  tree : ConcreteTree

/-- The elements of a construct in value position, each with the one above it. -/
def Place.links (source : List Char) (x : Place) : List (Element × Element) :=
  Forest.chain x.owner (ownElements source x.holder x.tree)

mutual

/-- The constructs in value position from a construct down, in the order of the text. -/
def places (source : List Char) (owner : Element) (holder : Kind) : ConcreteTree → List Place
  | .node k r s ts =>
    ⟨owner, holder, .node k r s ts⟩ ::
      partPlaces source ((ownElements source holder (.node k r s ts)).getLastD owner) k ts

/-- The constructs in value position from the parts of a construct down. -/
def partPlaces (source : List Char) (owner : Element) (holder : Kind) : List ConcreteTree → List Place
  | [] => []
  | t :: ts =>
    (if holder = .pair ∧ t.role = .key then [] else places source owner holder t) ++ partPlaces source owner holder ts

end

lemma partPlaces_eq (source : List Char) (owner : Element) (holder : Kind) (ts : List ConcreteTree) :
    partPlaces source owner holder ts = (valueParts holder ts).flatMap (places source owner holder) := by
  induction ts with
  | nil =>
    rw [partPlaces, valueParts]
    split <;> rfl
  | cons t ts ih =>
    rw [partPlaces, ih]
    unfold valueParts
    by_cases hp : holder = .pair
    · by_cases hr : t.role = .key <;> simp [hp, hr]
    · simp [hp]

lemma places_node (source : List Char) (owner : Element) (holder : Kind) (t : ConcreteTree) :
    places source owner holder t = ⟨owner, holder, t⟩ :: (valueParts t.kind t.children).flatMap
      (places source ((ownElements source holder t).getLastD owner) t.kind) := by
  cases t with
  | node k r s ts =>
    rw [places, partPlaces_eq]
    rfl

/-! ### One construct -/

namespace Document

variable {source : List Char} {holder k : Kind} {r : Role} {s : Span} {ts : List ConcreteTree} {t u : ConcreteTree}
  {F : ConcreteTree → Forest}

lemma eq_singleton_of_length_filter {α : Type} {l : List α} {q : α → Bool} {a : α} (h : (l.filter q).length ≤ 1) (ha : a ∈ l)
    (hq : q a = true) : l.filter q = [a] := by
  obtain ⟨b, hb⟩ := List.length_eq_one_iff.mp (Nat.le_antisymm h (List.length_pos_of_mem (List.mem_filter.mpr ⟨ha, hq⟩)))
  have hmem := List.mem_filter.mpr ⟨ha, hq⟩
  rw [hb] at hmem ⊢
  rw [List.mem_singleton.mp hmem]

/-- Parts that add nothing may be left out. -/
lemma join_map_filter {q : ConcreteTree → Bool} (h : ∀ u ∈ ts, q u = false → F u = .nil) :
    Forest.join (ts.map F) = .join ((ts.filter q).map F) := by
  induction ts with
  | nil => rfl
  | cons t ts ih =>
    have tail := ih fun u hu => h u (List.mem_cons_of_mem t hu)
    rw [List.map_cons, Forest.join_cons, tail]
    cases hq : q t with
    | false => rw [List.filter_cons_of_neg (by simp [hq]), h t List.mem_cons_self hq, Forest.nil_append]
    | true => rw [List.filter_cons_of_pos hq, List.map_cons, Forest.join_cons]

/-- Where one part has content, the parts add what this one does. -/
lemma join_eq_of_single (single : Single ts) (ht : t ∈ ts) (hd : t.kind.isDecoration = false)
    (h : ∀ u ∈ ts, u.kind.isDecoration = true → F u = .nil) : Forest.join (ts.map F) = F t := by
  have alone := eq_singleton_of_length_filter single ht (by simp [hd])
  rw [join_map_filter (q := fun u => !u.kind.isDecoration) fun u hu hq => h u hu (by simpa using hq), alone]
  exact Forest.append_nil _

lemma forest_node_of_isScalar (hk : k.isScalar = true) : forest source (.node k r s ts) = scalarForest source s := by
  cases k <;> first | rfl | cases hk

lemma forest_of_isDecoration (hk : t.kind.isDecoration = true) : forest source t = .nil := by
  cases t with
  | node k r s ts => cases k <;> first | rfl | cases hk

/-- An element that is nothing but a scalar adds what the scalar does. -/
lemma forest_of_bareScalar? {scalar : ConcreteTree} (h : t.Everywhere (Lawful source)) (hb : t.bareScalar? = some scalar) :
    forest source t = scalarForest source scalar.span := by
  cases t with
  | node k r s ts =>
    rcases bareScalar?_cases hb with ⟨hk, rfl⟩ | ⟨hk, hmem, hs⟩
    · exact forest_node_of_isScalar hk
    · have single : Single ts := by
        have shape := h.own.shape
        rcases hk with hk | hk
        · change k = _ at hk
          subst hk
          exact shape.1
        · change k = _ at hk
          subst hk
          exact shape
      have parts : forest source (.node k r s ts) = partsForest source ts := by
        rcases hk with hk | hk <;> (change k = _ at hk; subst hk; rfl)
      have content : scalar.kind.isDecoration = false := by
        revert hs
        cases scalar.kind <;> decide
      rw [parts, partsForest_eq_join, join_eq_of_single single hmem content fun u _ => forest_of_isDecoration]
      cases scalar with
      | node k' r' s' ts' => exact forest_node_of_isScalar hs

/-- The value of a pair is the only one of its parts, besides the key, that adds anything. -/
lemma valueForest_eq_join (h : Shape s ts .pair) :
    valueForest source ts = .join ((valueParts .pair ts).map (forest source)) := by
  have comment : ∀ u ∈ valueParts .pair ts, (decide (u.role = .value)) = false → forest source u = .nil := by
    intro u hu hv
    obtain ⟨hu, hkey⟩ := List.mem_filter.mp hu
    rcases h.2.2 u hu with ⟨hc, -⟩ | hr | ⟨hr, -⟩
    · exact forest_of_isDecoration (by rw [hc]; rfl)
    · simp [hr] at hkey
    · simp [hr] at hv
  have values : (valueParts .pair ts).filter (fun u => u.role = .value) = ts.filter fun u => u.role = .value := by
    rw [valueParts, if_pos rfl, List.filter_filter]
    refine List.filter_congr fun u _ => ?_
    cases u.role <;> rfl
  rw [join_map_filter comment, values]
  rcases valueForest_cases source ts with ⟨u, hu, hr, hf⟩ | ⟨none, hf⟩ <;> rw [hf]
  · rw [eq_singleton_of_length_filter h.2.1 hu (by simpa using hr)]
    exact (Forest.append_nil _).symm
  · rw [List.filter_eq_nil_iff.mpr fun u hu => by simpa using none u hu]
    rfl

/-- What a part of a construct of some kind adds. -/
def held (source : List Char) (holder : Kind) (t : ConcreteTree) : Forest :=
  if holder = .flowSequence then flowElement source t else forest source t

lemma held_of_ne (h : holder ≠ .flowSequence) : held source holder = forest source := by
  funext t
  rw [held, if_neg h]

lemma held_flowSequence : held source .flowSequence = flowElement source := by
  funext t
  rw [held, if_pos rfl]

/-- Whatever is not an item adds its own element, if it has one, and below it what its parts add. -/
lemma forest_eq_under (h : Shape s ts k) (hk : k ≠ .item) :
    forest source (.node k r s ts) =
      .under (label? source (.node k r s ts)).toList (.join ((valueParts k ts).map (held source k))) := by
  cases k
  case item => exact absurd rfl hk
  case pair =>
    have label : label? source (.node .pair r s ts) = (pairKey? source ts).map (.keyed s) := rfl
    have made : forest source (.node .pair r s ts) =
        .under ((pairKey? source ts).map (.keyed s)).toList (valueForest source ts) := by
      unfold forest
      cases pairKey? source ts <;> rfl
    rw [held_of_ne, ← valueForest_eq_join h, made, label]
    decide
  case flowSequence =>
    rw [held_flowSequence]
    exact elementsForest_eq_join source ts
  all_goals first
    | (rw [held_of_ne]; exact partsForest_eq_join source ts; decide)
    | (change ts = [] at h; subst h; rfl)

/-- An item adds its container, if it has one, and below it what its content adds. -/
lemma forest_item_eq_under (h : (ConcreteTree.node .item r s ts).Everywhere (Lawful source)) :
    forest source (.node .item r s ts) =
      .under (container? holder (.node .item r s ts)).toList (.join (ts.map (forest source))) := by
  have shape : Shape s ts .item := h.own.shape
  obtain ⟨-, single, kinds⟩ := shape
  have made : forest source (.node .item r s ts) = itemForest source s ts := rfl
  have own : container? holder (.node .item r s ts) =
      if ((ts.find? (·.kind ≠ .comment)).bind ConcreteTree.bareScalar?).isNone then some (.container s) else none := rfl
  rw [made, own, itemForest_eq]
  cases hf : ts.find? (·.kind ≠ .comment) with
  | none =>
    have comments : ∀ u ∈ ts, forest source u = .nil := by
      intro u hu
      have hc : u.kind = .comment := by simpa using List.find?_eq_none.mp hf u hu
      exact forest_of_isDecoration (by rw [hc]; rfl)
    have nothing : Forest.join (ts.map (forest source)) = .nil := by
      rw [join_map_filter (q := fun _ => false) fun u hu _ => comments u hu]
      simp
    rw [nothing]
    rfl
  | some u =>
    have hu := List.mem_of_find?_eq_some hf
    have content : u.kind.isDecoration = false := by
      have hc : u.kind ≠ .comment := by simpa using List.find?_some hf
      have hk := kinds u hu
      revert hk hc
      cases u.kind <;> decide
    have added : Forest.join (ts.map (forest source)) = forest source u :=
      join_eq_of_single single hu content fun v _ => forest_of_isDecoration
    rw [added, Option.bind_some]
    dsimp only
    unfold elementForest
    cases hb : u.bareScalar? with
    | none => rfl
    | some scalar => exact (forest_of_bareScalar? (h.parts u hu) hb).symm

/-- An element of a flow sequence adds its container, if it has one, and below it what it is. -/
lemma flowElement_eq_under (h : t.Everywhere (Lawful source)) (hk : t.kind ∈ [.comment, .flowNode, .pair]) :
    flowElement source t = .under (container? .flowSequence t).toList (forest source t) := by
  have item : t.kind ≠ .item := by
    intro hi
    rw [hi] at hk
    revert hk
    decide
  have own : container? .flowSequence t =
      if t.kind ≠ .comment ∧ t.bareScalar? = none then some (.container t.span) else none := by
    simp [container?, isElement, elementScalar?, item]
  rw [own]
  unfold flowElement elementForest
  by_cases hc : t.kind = .comment
  · rw [if_pos hc, if_neg (fun h => h.1 hc)]
    exact (forest_of_isDecoration (by rw [hc]; rfl)).symm
  · rw [if_neg hc]
    cases hb : t.bareScalar? with
    | none =>
      rw [if_pos ⟨hc, rfl⟩]
      rfl
    | some scalar =>
      rw [if_neg (fun h => Option.some_ne_none _ h.2)]
      exact (forest_of_bareScalar? h hb).symm

/-- The kinds that the parts of a construct may have where it matters to what they add. -/
def Holds (holder : Kind) (t : ConcreteTree) : Prop := holder = .flowSequence → t.kind ∈ [.comment, .flowNode, .pair]

/-- What the parts of a construct add. -/
def inside (source : List Char) (t : ConcreteTree) : Forest :=
  .join ((valueParts t.kind t.children).map (held source t.kind))

/-- A construct adds its own elements one below the other, and below them what its parts add. -/
lemma held_eq_under (h : t.Everywhere (Lawful source)) (ht : Holds holder t) :
    held source holder t = .under (ownElements source holder t) (inside source t) := by
  rw [ownElements, Forest.under_append]
  cases t with
  | node k r s ts =>
    have below (hk : k ≠ .item) : forest source (.node k r s ts) =
        .under (label? source (.node k r s ts)).toList (inside source (.node k r s ts)) :=
      forest_eq_under h.own.shape hk
    by_cases hf : holder = .flowSequence
    · subst hf
      have hk : k ≠ .item := by
        rintro rfl
        have hk : Kind.item ∈ [Kind.comment, .flowNode, .pair] := ht rfl
        revert hk
        decide
      rw [held_flowSequence, flowElement_eq_under h (ht rfl)]
      exact congrArg _ (below hk)
    · rw [held_of_ne hf]
      by_cases hk : k = .item
      · subst hk
        exact forest_item_eq_under h
      · have none : container? holder (.node k r s ts) = none := by
          simp [container?, isElement, ConcreteTree.kind, hk, hf]
        rw [none]
        exact below hk

/-- The parts of a construct may stand in it. -/
lemma holds_parts (h : t.Everywhere (Lawful source)) : ∀ u ∈ valueParts t.kind t.children, Holds t.kind u := by
  intro u hu hk
  have shape := h.own.shape
  rw [hk] at shape hu
  exact shape.2 u hu

lemma mem_children_of_mem_valueParts (hu : u ∈ valueParts k ts) : u ∈ ts := by
  unfold valueParts at hu
  split at hu
  · exact List.mem_of_mem_filter hu
  · exact hu

/-- The elements that a construct adds are those of the constructs in value position from there down, and
each stands below its owner. -/
theorem links_held (h : t.Everywhere (Lawful source)) (ht : Holds holder t) (o : Element) :
    (held source holder t).links o = (places source o holder t).flatMap (Place.links source) := by
  induction h generalizing holder o with
  | @node k r s ts own parts ih =>
    have lawful : (ConcreteTree.node k r s ts).Everywhere (Lawful source) := .node own parts
    rw [held_eq_under lawful ht, Forest.links_under, inside, Forest.links_join, places_node, List.flatMap_cons, List.flatMap_map,
      List.flatMap_assoc]
    refine congrArg _ (List.flatMap_congr fun u hu => ?_)
    exact ih u (mem_children_of_mem_valueParts hu) (holds_parts lawful u hu) _

/-! ### No two elements are the same -/

lemma laid_held (h : t.Everywhere (Lawful source)) (holder : Kind) : Laid source t.span (held source holder t) := by
  unfold held
  split
  · exact laid_flowElement (fits_of_lawful h)
  · exact laid_forest (fits_of_lawful h)

lemma exists_part_of_mem_inside {c : Element} (h : t.Everywhere (Lawful source)) (hc : c ∈ (inside source t).elements) :
    ∃ u ∈ valueParts t.kind t.children, c ∈ (held source t.kind u).elements ∧ (u.span.start : Int) ≤ c.start := by
  rw [inside, Forest.elements_join, List.flatMap_map] at hc
  obtain ⟨u, hu, hc⟩ := List.mem_flatMap.mp hc
  obtain ⟨r, hr, hw⟩ := (laid_held (h.parts u (mem_children_of_mem_valueParts hu)) t.kind).bounds c hc
  exact ⟨u, hu, hc, by rw [hr.start]; exact Int.ofNat_le.mpr hw.1⟩

/-- What the parts of a pair, an item or a flow collection add starts behind these; a scalar has no
parts. -/
lemma lt_start_of_mem_inside {c : Element} (h : t.Everywhere (Lawful source))
    (hk : t.kind.isScalar = true ∨ t.kind ∈ [.pair, .item, .flowSequence, .flowMapping])
    (hc : c ∈ (inside source t).elements) : (t.span.start : Int) < c.start := by
  obtain ⟨u, hu, hcu, hle⟩ := exists_part_of_mem_inside h hc
  have shape := h.own.shape
  have later : t.span.start < u.span.start := by
    rcases hk with hk | hk
    · have hmem := mem_children_of_mem_valueParts hu
      rw [Yaml.ConcreteTree.eq_nil_of_isScalar shape hk] at hmem
      cases hmem
    · simp only [List.mem_cons, List.not_mem_nil, or_false] at hk
      rcases hk with hk | hk | hk | hk <;> rw [hk] at shape hu hcu
      · obtain ⟨hmem, hkey⟩ := List.mem_filter.mp hu
        rcases shape.2.2 u hmem with ⟨hcomment, -⟩ | hr | ⟨-, hlt⟩
        · rw [held_of_ne (by decide), forest_of_isDecoration (by rw [hcomment]; rfl)] at hcu
          cases hcu
        · simp [hr] at hkey
        · exact hlt
      · exact shape.1 u hu
      · exact shape.1 u hu
      · exact shape u hu
  omega

/-- What the parts of a value in flow style add starts behind the value, or is a scalar. -/
lemma lt_start_or_named {c : Element} (h : t.Everywhere (Lawful source)) (hk : t.kind = .flowNode)
    (hc : c ∈ (inside source t).elements) : (t.span.start : Int) < c.start ∨ ¬c.IsAnonymous := by
  obtain ⟨u, hu, hcu, -⟩ := exists_part_of_mem_inside h hc
  have shape := h.own.shape
  rw [hk] at shape hu hcu
  have lawful := h.parts u hu
  have within := (h.own.placed.within u hu).1
  rw [held_of_ne (by decide)] at hcu
  rcases shape.2 u hu with hd | hf
  · rw [forest_of_isDecoration hd] at hcu
    cases hcu
  · cases u with
    | node k r s ts =>
      by_cases hs : k.isScalar = true
      · rw [forest_node_of_isScalar hs] at hcu
        rw [List.mem_singleton.mp hcu]
        exact Or.inr fun h => nomatch h.2
      · have collection : k = .flowSequence ∨ k = .flowMapping := by
          simpa [Kind.isFlowContent, ConcreteTree.kind, hs] using hf
        have made : forest source (.node k r s ts) = inside source (.node k r s ts) := by
          rcases collection with rfl | rfl <;> exact forest_eq_under lawful.own.shape (by decide)
        have opened : k ∈ [.pair, .item, .flowSequence, .flowMapping] := by
          rcases collection with rfl | rfl <;> decide
        rw [made] at hcu
        have := lt_start_of_mem_inside lawful (Or.inr opened) hcu
        exact Or.inl (by omega)

lemma of_label? {l : Element} (h : label? source t = some l) :
    (l.start = t.span.start ∧ l.stop = t.span.stop ∧ ¬l.IsAnonymous) ∧ (t.kind.isScalar = true ∨ t.kind = .pair) := by
  unfold label? at h
  split at h
  · rename_i hs
    cases h
    exact ⟨⟨rfl, rfl, fun h => nomatch h.2⟩, Or.inl hs⟩
  · split at h
    · rename_i hp
      obtain ⟨key, -, rfl⟩ := Option.map_eq_some_iff.mp h
      exact ⟨⟨rfl, rfl, fun h => nomatch h.1⟩, Or.inr hp⟩
    · cases h

lemma of_container? {c : Element} (h : container? holder t = some c) :
    c = .container t.span ∧ (t.kind = .item ∨ holder = .flowSequence ∧ t.kind ≠ .comment) := by
  unfold container? at h
  obtain ⟨hif, hc⟩ := Option.ite_none_right_eq_some.mp h
  cases hc
  simp only [Bool.and_eq_true, isElement, Bool.or_eq_true, beq_iff_eq, bne_iff_ne] at hif
  exact ⟨rfl, hif.1⟩

/-- The element of a scalar or a pair is not empty, and starts in front of what the parts add. -/
lemma of_mem_label {l : Element} (h : t.Everywhere (Lawful source)) (hl : label? source t = some l) :
    l.start < l.stop ∧ ¬l.IsAnonymous ∧ ∀ c ∈ (inside source t).elements, l.start < c.start := by
  obtain ⟨⟨start, stop, named⟩, hk⟩ := of_label? hl
  have solid : t.span.start < t.span.stop := by
    refine h.own.solid fun hstream => ?_
    rw [hstream] at hk
    exact hk.elim nofun nofun
  rw [start, stop]
  exact ⟨Int.ofNat_lt.mpr solid, named,
    fun c hc => lt_start_of_mem_inside h (hk.imp id fun hp => by rw [hp]; decide) hc⟩

/-- A container is not empty, and starts in front of what the parts add, or that has a key or a text. -/
lemma of_mem_container {c : Element} (h : t.Everywhere (Lawful source)) (ht : Holds holder t)
    (hc : container? holder t = some c) :
    c.start < c.stop ∧ c.IsAnonymous ∧ ∀ x ∈ (inside source t).elements, c.start < x.start ∨ ¬x.IsAnonymous := by
  obtain ⟨rfl, hk⟩ := of_container? hc
  have kinds : t.kind ∈ [.item, .flowNode, .pair] := by
    rcases hk with hk | ⟨hf, hk⟩
    · rw [hk]
      exact List.mem_cons_self
    · exact List.mem_cons_of_mem _ ((List.mem_cons.mp (ht hf)).resolve_left hk)
  have solid : t.span.start < t.span.stop := by
    refine h.own.solid fun hstream => ?_
    rw [hstream] at kinds
    revert kinds
    decide
  refine ⟨Int.ofNat_lt.mpr solid, ⟨rfl, rfl⟩, fun x hx => ?_⟩
  by_cases hnode : t.kind = .flowNode
  · exact lt_start_or_named h hnode hx
  · refine Or.inl (lt_start_of_mem_inside h (Or.inr ?_) hx)
    revert kinds hnode
    cases t.kind <;> decide

lemma strict_held (h : t.Everywhere (Lawful source)) (ht : Holds holder t) : (held source holder t).Strict := by
  induction h generalizing holder with
  | @node k r s ts own parts ih =>
    have lawful : (ConcreteTree.node k r s ts).Everywhere (Lawful source) := .node own parts
    have rest : (inside source (.node k r s ts)).Strict := by
      refine Forest.Strict.join fun f hf => ?_
      obtain ⟨u, hu, rfl⟩ := List.mem_map.mp hf
      exact ih u (mem_children_of_mem_valueParts hu) (holds_parts lawful u hu)
    -- a label below the container, if there are both, and what the parts add below them
    have labelled {l : Element} (hl : label? source (.node k r s ts) = some l) :
        (Forest.cons l (inside source (.node k r s ts)) .nil).Strict := by
      obtain ⟨solid, -, above⟩ := of_mem_label lawful hl
      exact ⟨solid, fun c hc => Or.inl (above c hc), rest, trivial⟩
    rw [held_eq_under lawful ht, ownElements]
    cases hc : container? holder (.node k r s ts) with
    | none =>
      cases hl : label? source (.node k r s ts) with
      | none => exact rest
      | some l => exact labelled hl
    | some c =>
      obtain ⟨solid, anonymous, above⟩ := of_mem_container lawful ht hc
      have below {x : Element} (hx : x ∈ (inside source (.node k r s ts)).elements) :
          c.start < x.start ∨ c.IsAnonymous ∧ ¬x.IsAnonymous := (above x hx).imp id fun named => ⟨anonymous, named⟩
      cases hl : label? source (.node k r s ts) with
      | none => exact ⟨solid, fun x => below, rest, trivial⟩
      | some l =>
        refine ⟨solid, fun x hx => ?_, labelled hl, trivial⟩
        have hx : x ∈ l :: ((inside source (.node k r s ts)).elements ++ []) := hx
        rw [List.append_nil] at hx
        rcases List.mem_cons.mp hx with rfl | hx
        · exact Or.inr ⟨anonymous, (of_mem_label lawful hl).2.1⟩
        · exact below hx

end Document

end CiWorkflow.Tree
