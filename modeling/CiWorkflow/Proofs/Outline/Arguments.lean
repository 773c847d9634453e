import CiWorkflow.Outline.Arguments
import CiWorkflow.Proofs.Outline.Jobs
import CiWorkflow.Proofs.Resolution.Lookups
import CiWorkflow.Proofs.Tree.Pairs

/-!
# Arguments that are not declared

An argument is handed to what the owner of its block uses. The values that are used are resolved, each once,
and an argument is looked up among the inputs of the entry for the value that its owner uses. Where keys
tell the children of a node apart up to case, and `uses` is always spelled so, both ways to a value meet:
the arguments that are reported are those that the entries do not declare, each once and in the order of
the document.
-/

namespace CiWorkflow

open CiWorkflow.Tree (Document OnLine)
open CiWorkflow.Resolution (Entry Op Reply Retention ContentStore resolved)

namespace Outline

variable {d : Document} {text name value input : String} {n b owner line : Nat} {es : List Entry} {u : UnknownArgument}

/-! ### The values that are used -/

/-- No two children of a node have the same key up to case. -/
def KeysDiffer (d : Document) : Prop :=
  ∀ p, ∀ a ∈ d.children p, ∀ b ∈ d.children p, ∀ k l, d.key? a = some k → d.key? b = some l →
    Text.sameAscii k l = true → a = b

/-- A key that is `uses` up to case is `uses`. -/
def UsesSpelled (d : Document) : Prop := ∀ n k, d.key? n = some k → Text.sameAscii "uses" k = true → k = "uses"

instance : Decidable (KeysDiffer d) :=
  decidable_of_iff
    (∀ p < d.size, ∀ a ∈ d.children p, ∀ b ∈ d.children p,
      (d.key? a).any (fun k => (d.key? b).any (Text.sameAscii k)) = true → a = b) <| by
    simp only [Option.any_eq_true, KeysDiffer]
    constructor
    · intro h p a ha b hb k l hk hl same
      exact h p (Document.lt_size_of_mem_children ha) a ha b hb ⟨k, hk, l, hl, same⟩
    · rintro h p - a ha b hb ⟨k, hk, l, hl, same⟩
      exact h p a ha b hb k l hk hl same

instance : Decidable (UsesSpelled d) :=
  decidable_of_iff (∀ n < d.size, (d.key? n).all (fun k => !Text.sameAscii "uses" k || k == "uses") = true) <| by
    simp only [Option.all_eq_true, Bool.or_eq_true, Bool.not_eq_true', beq_iff_eq, UsesSpelled]
    constructor
    · intro h n k hk same
      have spelled := h n (Document.lt_size_of_key? hk) k hk
      rw [same] at spelled
      exact spelled.resolve_left Bool.noConfusion
    · intro h n _ k hk
      cases same : Text.sameAscii "uses" k with
      | true => exact Or.inr (h n k hk same)
      | false => exact Or.inl rfl

/-- A node has an entry keyed `uses` with this value. -/
def Uses (d : Document) (owner : Nat) (value : String) : Prop :=
  ∃ n c, d.parent? n = some owner ∧ d.key? n = some "uses" ∧ (d.children n).head? = some c ∧ d.value? c = some value

lemma childValue?_eq_some_iff :
    d.childValue? n = some value ↔ ∃ c, (d.children n).head? = some c ∧ d.value? c = some value :=
  Option.bind_eq_some_iff

/-- The entry that is looked up is the only one. -/
lemma child?_uses_eq_some_iff (h : d.WellFormed) (differ : KeysDiffer d) (spelled : UsesSpelled d) :
    d.child? owner "uses" = some n ↔ d.parent? n = some owner ∧ d.key? n = some "uses" := by
  have exactly {m : Nat} (hm : d.hasKey "uses" m = true) : d.key? m = some "uses" := by
    cases hk : d.key? m with
    | none => simp [Document.hasKey, hk] at hm
    | some k =>
      rw [Document.hasKey, hk] at hm
      rw [spelled m k hk hm]
  rw [← h.linked]
  constructor
  · intro hn
    exact ⟨List.mem_of_find?_eq_some hn, exactly (List.find?_some hn)⟩
  · rintro ⟨hn, hk⟩
    cases hf : d.child? owner "uses" with
    | none =>
      have := List.find?_eq_none.mp hf n hn
      rw [hasKey_of_key? hk] at this
      exact absurd rfl this
    | some m =>
      have hm := exactly (List.find?_some hf)
      rw [differ owner m (List.mem_of_find?_eq_some hf) n hn "uses" "uses" hm hk (Text.sameAscii_refl "uses")]

lemma uses?_eq_some_iff (h : d.WellFormed) (differ : KeysDiffer d) (spelled : UsesSpelled d) :
    d.uses? owner = some value ↔ Uses d owner value := by
  simp only [Document.uses?, Document.field?, Option.bind_eq_some_iff, child?_uses_eq_some_iff h differ spelled,
    childValue?_eq_some_iff, Uses]
  constructor
  · rintro ⟨n, ⟨hp, hk⟩, c, hc⟩
    exact ⟨n, c, hp, hk, hc⟩
  · rintro ⟨n, c, hp, hk, hc⟩
    exact ⟨n, ⟨hp, hk⟩, c, hc⟩

/-! ### The values of a document -/

/-- Adds a value that is not there. -/
def noteValue (values : List String) (value : String) : List String :=
  if values.contains value then values else values ++ [value]

lemma references_eq (o : Outline) :
    o.references = (o.uses.filterMap o.document.valueOrChildValue?).foldl noteValue [] := rfl

lemma mem_noteValue {values : List String} : name ∈ noteValue values value ↔ name ∈ values ∨ name = value := by
  unfold noteValue
  split
  · rename_i there
    have : value ∈ values := by simpa using there
    exact ⟨Or.inl, fun h => h.elim id fun h => h ▸ this⟩
  · simp

lemma mem_foldl_noteValue {values seen : List String} :
    value ∈ values.foldl noteValue seen ↔ value ∈ seen ∨ value ∈ values := by
  induction values generalizing seen with
  | nil => simp
  | cons v values ih => rw [List.foldl_cons, ih, mem_noteValue, List.mem_cons, or_assoc]

lemma nodup_references (o : Outline) : o.references.Nodup := by
  rw [references_eq]
  refine List.foldlRecOn _ noteValue List.nodup_nil fun values nodup value _ => ?_
  unfold noteValue
  split
  · exact nodup
  · rename_i new
    refine List.nodup_append.mpr ⟨nodup, List.nodup_singleton value, fun a ha b hb => ?_⟩
    rw [List.mem_singleton.mp hb]
    rintro rfl
    exact new (by simpa using ha)

lemma mem_uses_iff (h : d.WellFormed) : n ∈ (ofDocument d).uses ↔ d.key? n = some "uses" := by
  have all : (ofDocument d).uses = d.select Document.root (d.keyIs "uses") := rfl
  rw [all, h.mem_select_root_iff fun hn => ?_, Document.keyIs, beq_iff_eq]
  exact Document.lt_size_of_key? (beq_iff_eq.mp hn)

/-- A keyed node has no value but that of its first child. -/
lemma valueOrChildValue?_eq_some_iff (hd : Document.ofText text = .ok d) (hk : d.key? n = some name) :
    d.valueOrChildValue? n = some value ↔ ∃ c, (d.children n).head? = some c ∧ d.value? c = some value := by
  rw [Document.valueOrChildValue?, Document.value?_of_key? hd hk]
  exact childValue?_eq_some_iff

/-- The references of a document are the values that are used. -/
lemma mem_references_iff (hd : Document.ofText text = .ok d) :
    value ∈ (ofDocument d).references ↔ ∃ owner, Uses d owner value := by
  have h := Document.wellFormed_of_ofText hd
  rw [references_eq, mem_foldl_noteValue, List.mem_filterMap]
  simp only [List.not_mem_nil, false_or, mem_uses_iff h]
  constructor
  · rintro ⟨n, hk, hv⟩
    obtain ⟨c, hc, hv⟩ := (valueOrChildValue?_eq_some_iff hd hk).mp hv
    obtain ⟨owner, -, hp⟩ := h.rooted n (Document.lt_size_of_key? hk) (Document.ne_root_of_key? hd hk)
    exact ⟨owner, n, c, hp, hk, hc, hv⟩
  · rintro ⟨owner, n, c, -, hk, hc, hv⟩
    exact ⟨n, hk, (valueOrChildValue?_eq_some_iff hd hk).mpr ⟨c, hc, hv⟩⟩

/-! ### The reports -/

/-- A node is an argument, right below a `with` block, and is handed to this value, which the block's owner uses. -/
def HandedTo (d : Document) (n : Nat) (value : String) : Prop :=
  ∃ b owner, d.parent? n = some b ∧ d.key? b = some "with" ∧ d.parent? b = some owner ∧ Uses d owner value

/-- An argument is handed to a value that has an available entry, and is not among the inputs of that one. -/
structure NotDeclared (d : Document) (es : List Entry) (n : Nat) (value input : String) : Prop where
  handed : HandedTo d n value
  key : d.key? n = some input
  entry : ∃ e ∈ es, e.reference.raw = value ∧ e.available = true ∧ input ∉ e.interface.inputs.map Prod.fst

/-- The line of an argument is that on which its pair begins. The key stands on it too, unless line feeds stand
between the first byte of the pair and the key. -/
def LineOf (text : String) (d : Document) (n line : Nat) : Prop :=
  ∃ t pair key between, Yaml.ConcreteTree.ofText? text.toList = some t ∧ Document.OfPair text t d n pair key ∧
    Text.slice text.toList pair.span.start key.span.start = some between ∧
    OnLine text.toList pair.span.start line ∧ OnLine text.toList key.span.start (line + between.count '\n')

/-- What is reported of an argument that is not declared. -/
structure Reports (text : String) (d : Document) (es : List Entry) (n : Nat) (u : UnknownArgument) : Prop where
  argument : NotDeclared d es n u.uses u.input
  job : ∀ name, u.job = some name ↔ ∃ j, d.Nearest (d.parentKeyIs "jobs") n j ∧ d.key? j = some name
  line : LineOf text d n u.line

lemma mem_arguments_iff (h : d.WellFormed) : n ∈ (ofDocument d).arguments ↔
    (d.key? n).isSome = true ∧ ∃ b, d.parent? n = some b ∧ d.key? b = some "with" := by
  have all : (ofDocument d).arguments =
      d.select Document.root fun n => (d.key? n).isSome && d.parentKeyIs "with" n := rfl
  have own {n : Nat} : ((d.key? n).isSome && d.parentKeyIs "with" n) = true ↔
      (d.key? n).isSome = true ∧ ∃ b, d.parent? n = some b ∧ d.key? b = some "with" := by
    rw [Bool.and_eq_true, Document.parentKeyIs_iff]
  rw [all, h.mem_select_root_iff fun hn => ?_, own]
  obtain ⟨-, b, hb, -⟩ := own.mp hn
  exact Document.lt_size_of_parent? hb

/-- The block around an argument is the one right above it. -/
lemma argumentTarget?_eq_some_iff (h : d.WellFormed) (differ : KeysDiffer d) (spelled : UsesSpelled d)
    (hn : n ∈ (ofDocument d).arguments) : (ofDocument d).argumentTarget? n = some value ↔ HandedTo d n value := by
  obtain ⟨-, b, hb, hk⟩ := (mem_arguments_iff h).mp hn
  have block : d.withBlock? n = some b := h.enclosing?_parent hb (by simpa [Document.keyIs] using hk)
  have target : (ofDocument d).argumentTarget? n = ((d.withBlock? n).bind d.parent?).bind d.uses? := rfl
  rw [target, block, Option.bind_some, Option.bind_eq_some_iff, HandedTo]
  simp only [uses?_eq_some_iff h differ spelled, hb, Option.some.injEq, exists_eq_left', hk, true_and, exists_and_left]

lemma lineOf_argument (hd : Document.ofText text = .ok d) (hk : d.key? n = some name) :
    LineOf text d n ((ofDocument d).lineOf n) := by
  obtain ⟨t, pair, key, ht, own⟩ := Document.exists_ofPair hd hk
  obtain ⟨range, before, between, after, parts, start, keyStart⟩ := own.exists_parts ht
  have source : d.source = some text := Document.source_of_ofText hd
  have front : Text.sliceString text 0 pair.span.start = some (String.ofList before) := by
    rw [Text.sliceString, parts, ← start]
    exact congrArg (Option.map String.ofList) (Text.slice_append [] before (between ++ after))
  have line : (ofDocument d).lineOf n = before.count '\n' + 1 := by
    rw [lineOf, show (ofDocument d).document = d from rfl, range, source]
    simp [front, Text.lineFeeds]
  refine ⟨t, pair, key, between, ht, own, ?_, ?_, ?_⟩
  · rw [parts, ← start, ← keyStart]
    exact Text.slice_append before between after
  · exact ⟨before, between ++ after, parts, start, line⟩
  · refine ⟨before ++ between, after, by rw [parts, List.append_assoc], keyStart, ?_⟩
    rw [line, List.count_append]
    omega

lemma unknownArgument?_eq_some_iff {declared? : String → Option Interface} :
    (ofDocument d).unknownArgument? declared? n = some u ↔
      (ofDocument d).argumentTarget? n = some u.uses ∧ d.key? n = some u.input ∧
        (∃ i, declared? u.uses = some i ∧ u.input ∉ i.inputs.map Prod.fst) ∧
        (d.job? n).bind d.key? = u.job ∧ (ofDocument d).lineOf n = u.line := by
  unfold unknownArgument?
  simp only [Option.bind_eq_bind, Option.bind_eq_some_iff]
  constructor
  · rintro ⟨value, target, i, hi, input, key, report⟩
    split at report
    · cases report
    · rename_i unknown
      cases report
      exact ⟨target, key, ⟨i, hi, mt Text.isSome_lookup_iff.mpr unknown⟩, rfl, rfl⟩
  · rintro ⟨target, key, ⟨i, hi, unknown⟩, job, line⟩
    refine ⟨u.uses, target, i, hi, u.input, key, ?_⟩
    rw [if_neg (mt Text.isSome_lookup_iff.mp unknown)]
    change some (UnknownArgument.mk _ _ ((d.job? n).bind d.key?) _) = _
    rw [job, line]

/-- An argument is warned of exactly when it is not declared. -/
lemma unknownArgument?_interfaceFor? (h : d.WellFormed) (differ : KeysDiffer d) (spelled : UsesSpelled d)
    (nodup : (es.map (·.reference.raw)).Nodup) (hn : n ∈ (ofDocument d).arguments) :
    (ofDocument d).unknownArgument? (Entry.interfaceFor? es) n = some u ↔
      NotDeclared d es n u.uses u.input ∧ (d.job? n).bind d.key? = u.job ∧ (ofDocument d).lineOf n = u.line := by
  rw [unknownArgument?_eq_some_iff, argumentTarget?_eq_some_iff h differ spelled hn]
  simp only [Resolution.Entry.interfaceFor?_eq_some_iff nodup]
  constructor
  · rintro ⟨handed, key, ⟨i, ⟨e, he, raw, available, rfl⟩, unknown⟩, rest⟩
    exact ⟨⟨handed, key, e, he, raw, available, unknown⟩, rest⟩
  · rintro ⟨⟨handed, key, e, he, raw, available, unknown⟩, rest⟩
    exact ⟨handed, key, ⟨e.interface, ⟨e, he, raw, available, rfl⟩, unknown⟩, rest⟩

lemma reports_of_unknownArgument? (hd : Document.ofText text = .ok d) (differ : KeysDiffer d)
    (spelled : UsesSpelled d) (nodup : (es.map (·.reference.raw)).Nodup) (hn : n ∈ (ofDocument d).arguments)
    (hu : (ofDocument d).unknownArgument? (Entry.interfaceFor? es) n = some u) : Reports text d es n u := by
  have h := Document.wellFormed_of_ofText hd
  obtain ⟨argument, job, line⟩ := (unknownArgument?_interfaceFor? h differ spelled nodup hn).mp hu
  refine ⟨argument, fun name => ?_, line ▸ lineOf_argument hd argument.key⟩
  rw [← job, Option.bind_eq_some_iff]
  exact exists_congr fun j => and_congr_left fun _ => h.enclosing?_eq_some_iff

/-- The arguments that are warned of. -/
def warned (d : Document) (es : List Entry) : List Nat :=
  (ofDocument d).arguments.filter fun n => ((ofDocument d).unknownArgument? (Entry.interfaceFor? es) n).isSome

lemma mem_warned_iff (h : d.WellFormed) (differ : KeysDiffer d) (spelled : UsesSpelled d)
    (nodup : (es.map (·.reference.raw)).Nodup) : n ∈ warned d es ↔ ∃ value input, NotDeclared d es n value input := by
  rw [warned, List.mem_filter, Option.isSome_iff_exists]
  constructor
  · rintro ⟨hn, u, hu⟩
    exact ⟨u.uses, u.input, ((unknownArgument?_interfaceFor? h differ spelled nodup hn).mp hu).1⟩
  · rintro ⟨value, input, argument⟩
    obtain ⟨b, owner, hb, hk, -⟩ := argument.handed
    have hn := (mem_arguments_iff h).mpr ⟨by rw [argument.key]; rfl, b, hb, hk⟩
    let u : UnknownArgument := ⟨value, input, (d.job? n).bind d.key?, (ofDocument d).lineOf n⟩
    exact ⟨hn, u, (unknownArgument?_interfaceFor? h differ spelled nodup hn).mpr ⟨argument, rfl, rfl⟩⟩

/-- What a list is mapped to, where it is, follows the order of the list. -/
lemma forall₂_filterMap {α β : Type} {R : α → β → Prop} {f : α → Option β} {l : List α}
    (h : ∀ a ∈ l, ∀ b, f a = some b → R a b) : List.Forall₂ R (l.filter fun a => (f a).isSome) (l.filterMap f) := by
  induction l with
  | nil => exact List.Forall₂.nil
  | cons a l ih =>
    have rest := ih fun x hx => h x (List.mem_cons_of_mem a hx)
    cases ha : f a with
    | none =>
      rw [List.filter_cons_of_neg (by simp [ha]), List.filterMap_cons_none ha]
      exact rest
    | some b =>
      rw [List.filter_cons_of_pos (by simp [ha]), List.filterMap_cons_some ha]
      exact List.Forall₂.cons (h a List.mem_cons_self b ha) rest

/-- Where keys tell the children of a node apart up to case, and `uses` is always spelled so: after every
program, and whatever is answered and done meanwhile, the values that are used are resolved to one entry each;
and what is reported follows the order of the document and tells, of each argument that is not among the inputs
of the available entry for the value that its owner uses, and of nothing else, this value, its key, the key of
the nearest job around it, and the line on which its pair begins, on which the key stands too unless line feeds
stand in front of it in the pair. -/
theorem undeclared_arguments_reported (hd : Document.ofText text = .ok d) (differ : KeysDiffer d)
    (spelled : UsesSpelled d) (keep : Retention) (now : Time.Instant) (store : Option ContentStore) (ops : List Op)
    (reply : Reply) :
    let o := ofDocument d
    let es := resolved keep reply (Op.runAll keep { now, store } ops) o.references
    (es.map (·.reference.raw) = o.references ∧ o.references.Nodup ∧
        ∀ value, value ∈ o.references ↔ ∃ owner, Uses d owner value) ∧
      ∃ ns, ns.Sublist (d.descendants Document.root) ∧ (d.descendants Document.root).Nodup ∧
        (∀ n, n ∈ ns ↔ ∃ value input, NotDeclared d es n value input) ∧
        List.Forall₂ (Reports text d es) ns (o.unknownArguments (Entry.interfaceFor? es)) := by
  intro o es
  have h := Document.wellFormed_of_ofText hd
  have raws : es.map (·.reference.raw) = o.references :=
    Resolution.map_raw_resolved (Resolution.tidy_runAll now store ops) reply
  have nodup : (es.map (·.reference.raw)).Nodup := raws ▸ nodup_references o
  refine ⟨⟨raws, nodup_references o, fun value => mem_references_iff hd⟩, warned d es, ?_,
    h.nodup_descendants Document.root, fun n => mem_warned_iff h differ spelled nodup, ?_⟩
  · exact List.filter_sublist.trans List.filter_sublist
  · exact forall₂_filterMap fun n hn u hu => reports_of_unknownArgument? hd differ spelled nodup hn hu

/-! ### Two texts -/

/-- Of what is known of a value, nothing but its inputs tells what is reported. -/
lemma unknownArguments_congr {o : Outline} {f g : String → Option Interface}
    (h : ∀ value, (f value).map Interface.inputs = (g value).map Interface.inputs) :
    o.unknownArguments f = o.unknownArguments g := by
  refine List.filterMap_congr fun n _ => ?_
  unfold unknownArgument?
  cases o.argumentTarget? n with
  | none => rfl
  | some value =>
    have same := h value
    simp only [Option.bind_eq_bind, Option.bind_some]
    cases hf : f value with
    | none =>
      rw [hf, Option.map_none, eq_comm, Option.map_eq_none_iff] at same
      rw [same]
    | some i =>
      rw [hf, Option.map_some, eq_comm, Option.map_eq_some_iff] at same
      obtain ⟨j, hg, inputs⟩ := same
      rw [hg, Option.bind_some, Option.bind_some, inputs]

/-- The one action whose manifest declares these inputs. -/
def declaring (raw : String) (ps : Parameters) (value : String) : Option Interface :=
  if value = raw then some { inputs := ps } else none

lemma inputs_resolved (raw : String) {manifest : String} {ps : Parameters}
    (hr : (Reference.ofText raw).isResolvable = true)
    (action : (Reference.ofText raw).isWorkflow = false) (hb : Text.allBlank manifest.toList = false)
    (hp : Resolution.actionInputs? manifest = some ps) (value : String) :
    (Entry.interfaceFor? (resolved {} (Reply.always manifest) { now := ⟨0⟩ } [raw]) value).map Interface.inputs =
      (declaring raw ps value).map Interface.inputs := by
  obtain ⟨o, hm, inputs⟩ := Resolution.exists_manifest? hb hp
  obtain ⟨e, he, own, available, interface⟩ :=
    Resolution.exists_resolved {} (c := { now := ⟨0⟩ }) rfl rfl hr (hm _)
  rw [he, Entry.interfaceFor?, declaring, List.find?_singleton, own, available]
  by_cases hv : value = raw
  · subst hv
    simp [interface, inputs _ action]
  · simp [hv, Ne.symm hv]

/-- Of two arguments of a step that one is reported which the action does not declare. -/
theorem undeclared_argument_of_step : ∃ d,
    Document.ofText "jobs:\n  build:\n    steps:\n      - uses: ./.github/a\n        with:\n          a: 1\n          b: 2" =
      .ok d ∧ KeysDiffer d ∧ UsesSpelled d ∧
    let es := resolved {} (Reply.always "inputs:\n a:") { now := ⟨0⟩ } (ofDocument d).references
    (ofDocument d).unknownArguments (Entry.interfaceFor? es) = [⟨"./.github/a", "b", some "build", 7⟩] ∧
      ∃ n, (∀ m, m = n ↔ ∃ value input, NotDeclared d es m value input) ∧
        Reports "jobs:\n  build:\n    steps:\n      - uses: ./.github/a\n        with:\n          a: 1\n          b: 2"
          d es n ⟨"./.github/a", "b", some "build", 7⟩ := by
  obtain ⟨d, hd, tested⟩ := Document.exists_of_test
    "jobs:\n  build:\n    steps:\n      - uses: ./.github/a\n        with:\n          a: 1\n          b: 2"
    (p := fun d => decide (KeysDiffer d ∧ UsesSpelled d ∧ (ofDocument d).references = ["./.github/a"] ∧
      (ofDocument d).unknownArguments (declaring "./.github/a" [("a", "")]) = [⟨"./.github/a", "b", some "build", 7⟩]))
    (by decide +kernel)
  obtain ⟨differ, spelled, references, declared⟩ := of_decide_eq_true tested
  have reported := unknownArguments_congr (o := ofDocument d)
    (inputs_resolved "./.github/a" (by decide) (by decide) (by decide) Resolution.actionInputs?_one)
  rw [declared, ← references] at reported
  obtain ⟨-, ns, -, -, warned, reports⟩ :=
    undeclared_arguments_reported hd differ spelled {} ⟨0⟩ none [] (Reply.always "inputs:\n a:")
  rw [Op.runAll_nil] at warned reports
  rw [reported, List.forall₂_cons_right_iff] at reports
  obtain ⟨n, rest, report, nothing, rfl⟩ := reports
  obtain rfl := List.forall₂_nil_right_iff.mp nothing
  simp only [List.mem_singleton] at warned
  exact ⟨d, hd, differ, spelled, reported, n, warned, report⟩

/-- What is reported of an argument with an explicit key is not the line of the key, where that one stands on
a line of its own. -/
theorem not_line_of_explicit_key : ∃ d t pair key,
    Document.ofText "uses: ./.github/a\nwith:\n  ?\n    b\n  : c\n" = .ok d ∧ KeysDiffer d ∧ UsesSpelled d ∧
      (ofDocument d).unknownArguments (Entry.interfaceFor?
        (resolved {} (Reply.always "inputs:") { now := ⟨0⟩ } (ofDocument d).references)) =
          [⟨"./.github/a", "b", none, 3⟩] ∧
      Yaml.ConcreteTree.ofText? "uses: ./.github/a\nwith:\n  ?\n    b\n  : c\n".toList = some t ∧
      Document.OfPair "uses: ./.github/a\nwith:\n  ?\n    b\n  : c\n" t d 4 pair key ∧ d.key? 4 = some "b" ∧
      OnLine "uses: ./.github/a\nwith:\n  ?\n    b\n  : c\n".toList key.span.start 4 ∧
      ¬ OnLine "uses: ./.github/a\nwith:\n  ?\n    b\n  : c\n".toList key.span.start 3 := by
  obtain ⟨d, hd, tested⟩ := Document.exists_of_test "uses: ./.github/a\nwith:\n  ?\n    b\n  : c\n"
    (p := fun d => decide (KeysDiffer d ∧ UsesSpelled d ∧ (ofDocument d).references = ["./.github/a"] ∧
      (ofDocument d).unknownArguments (declaring "./.github/a" []) = [⟨"./.github/a", "b", none, 3⟩] ∧
      d.key? 4 = some "b" ∧ d.range? 4 = some ⟨26, 39⟩))
    (by decide +kernel)
  obtain ⟨differ, spelled, references, declared, named, range⟩ := of_decide_eq_true tested
  have reported := unknownArguments_congr (o := ofDocument d)
    (inputs_resolved "./.github/a" (by decide) (by decide) (by decide) Resolution.actionInputs?_none)
  rw [declared, ← references] at reported
  obtain ⟨t, pair, key, ht, own⟩ := Document.exists_ofPair hd named
  have pairs : (Yaml.ConcreteTree.ofText? "uses: ./.github/a\nwith:\n  ?\n    b\n  : c\n".toList).map (fun t =>
      (Document.textPlaces "uses: ./.github/a\nwith:\n  ?\n    b\n  : c\n" t).filterMap fun x =>
        Document.pairSpans? x.tree) =
      some [(⟨0, 17⟩, ⟨0, 4⟩), (⟨18, 40⟩, ⟨18, 22⟩), (⟨26, 39⟩, ⟨32, 33⟩)] := by decide +kernel
  have start : key.span.start = 32 := by
    have spans := own.mem_pairSpans
    rw [ht, Option.map_some, Option.some.injEq] at pairs
    rw [pairs] at spans
    have place := (own.exists_parts ht).1
    rw [range] at place
    rw [← Option.some.inj place] at spans
    have here : key.span = ⟨32, 33⟩ := by simpa using spans
    rw [here]
  have line : OnLine "uses: ./.github/a\nwith:\n  ?\n    b\n  : c\n".toList key.span.start 4 := by
    rw [start]
    exact ⟨"uses: ./.github/a\nwith:\n  ?\n    ".toList, "b\n  : c\n".toList, by decide, by decide, by decide⟩
  refine ⟨d, t, pair, key, hd, differ, spelled, reported, ht, own, named, line, fun other => ?_⟩
  have same := other.unique line
  omega

end Outline

end CiWorkflow
