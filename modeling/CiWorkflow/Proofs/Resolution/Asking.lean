import CiWorkflow.Proofs.Reference.Grammar
import CiWorkflow.Proofs.Resolution.Identity
import CiWorkflow.Proofs.Resolution.Outcome

/-!
# What is asked for

Whatever happens to a cache while texts are on the way, what is asked for an entry is where its
reference is: a path is asked of the project, and only what is spelled as something in a repository
is asked of repositories. Paths that start with a dot and name nothing in the control directory are
told from repositories by their spelling alone: with something behind an `@` they are spelled as one
whose owner is `.` or `..`.
-/

namespace CiWorkflow

/-! ### Addresses -/

namespace Reference

/-- A text starts as a path from where the project is. -/
def IsRelativeText (t : List Char) : Prop := "./".toList <+: t ∨ "../".toList <+: t

/-- Nothing can be looked up in the network. -/
structure HasNoAddress (r : Reference) : Prop where
  raw : r.rawUrl? = none
  browse : r.browseUrl? = none
  marketplace : r.marketplaceUrl? = none
  repository : r.repositoryUrl? = none

variable {r : Reference}

lemma hasNoAddress_iff : r.HasNoAddress ↔ r.isLocal = true ∨ r.isResolvable = false := by
  have parts : r.HasNoAddress ↔
      r.rawUrl? = none ∧ r.browseUrl? = none ∧ r.marketplaceUrl? = none ∧ r.repositoryUrl? = none :=
    ⟨fun h => ⟨h.raw, h.browse, h.marketplace, h.repository⟩, fun h => ⟨h.1, h.2.1, h.2.2.1, h.2.2.2⟩⟩
  rw [parts]
  unfold rawUrl? browseUrl? marketplaceUrl? repositoryUrl? isLocal isResolvable
  cases r.target <;> simp

lemma isLocal_iff_kind : r.isLocal = true ↔ r.kind = .inProject := by
  unfold isLocal kind
  cases r.target <;> simp

lemma isResolvable_eq_false_iff_kind : r.isResolvable = false ↔ r.kind = .unparsable := by
  unfold isResolvable kind
  cases r.target <;> simp

lemma hasNoAddress_ofText_iff (raw : String) :
    (ofText raw).HasNoAddress ↔ IsLocalText (ofText raw).text ∨ ¬ IsRemoteText (ofText raw).text := by
  obtain ⟨inProject, -, -, unparsable⟩ := kind_ofText_iff raw
  rw [hasNoAddress_iff, isLocal_iff_kind, isResolvable_eq_false_iff_kind, inProject, unparsable]
  tauto

/-- The owner in a text that starts as a path is that start. -/
lemma Spelled.owner_of_relative {t owner repository more ref : List Char} (hs : Spelled t owner repository more ref)
    (hrel : IsRelativeText t) : owner = ".".toList ∨ owner = "..".toList := by
  have front : t.takeWhile (· != '/') = owner := by
    rw [hs.whole, List.append_assoc, List.append_assoc]
    exact takeWhile_of_not_mem hs.slash.1
  rcases hrel with ⟨rest, rfl⟩ | ⟨rest, rfl⟩
  · exact Or.inl (front.symm.trans rfl)
  · exact Or.inr (front.symm.trans rfl)

/-- What is taken for something in a repository although it starts as a path has that start for its
owner. -/
lemma relative_slug {raw : String} (hrel : IsRelativeText (ofText raw).text) (ha : ¬ (ofText raw).HasNoAddress) :
    "./".toList <+: (ofText raw).slug.toList ∨ "../".toList <+: (ofText raw).slug.toList := by
  obtain ⟨hlocal, hr⟩ := not_or.mp fun h => ha ((hasNoAddress_ofText_iff raw).mpr h)
  rw [not_not] at hr
  obtain ⟨-, spelled⟩ := ofText_grammar raw
  obtain ⟨owner, repository, more, ref, hs, hfile⟩ := hr
  have remote : IsRemoteText (ofText raw).text := ⟨owner, repository, more, ref, hs, hfile⟩
  have slug_eq : (ofText raw).slug.toList = owner ++ '/' :: repository := by
    by_cases hw : MentionsWorkflow (ofText raw).text
    · exact (spelled.workflow _ _ _ _ hs (spelled.workflow_iff.mpr ⟨hlocal, remote, hw⟩)).1
    · exact (spelled.action _ _ _ _ hs (spelled.action_iff.mpr ⟨hlocal, remote, hw⟩)).1
  rw [slug_eq]
  rcases hs.owner_of_relative hrel with rfl | rfl
  · exact Or.inl ⟨repository, rfl⟩
  · exact Or.inr ⟨repository, rfl⟩

end Reference

/-! ### Requests -/

namespace Resolution

lemma origin_of_requestFor? {r : Reference} {q : Request} (hq : requestFor? r = some q) :
    q.origin = if r.isLocal then .project else .repository := by
  unfold requestFor? at hq
  cases hl : r.location? with
  | none => simp [hl] at hq
  | some l =>
    simp only [hl, Option.map_some, Option.some.injEq] at hq
    rw [← hq]

/-- Something is asked of repositories for a reference exactly when it has an address there. -/
lemma exists_repository_request_iff {r : Reference} :
    (∃ q, requestFor? r = some q ∧ q.origin = .repository) ↔ ¬ r.HasNoAddress := by
  rw [Reference.hasNoAddress_iff]
  constructor
  · rintro ⟨q, hq, ho⟩
    have hr := isResolvable_of_requestFor? hq
    rw [origin_of_requestFor? hq] at ho
    cases hl : r.isLocal with
    | true => simp [hl] at ho
    | false => simp [hr]
  · intro ha
    obtain ⟨hl, hr⟩ := not_or.mp ha
    obtain ⟨q, hq⟩ := exists_requestFor? (by simpa using hr)
    refine ⟨q, hq, ?_⟩
    rw [origin_of_requestFor? hq, if_neg hl]

namespace Cache

variable {c : Cache} {keep : Retention} {h : Nat}

/-- What is planned for an entry is to read the file of something in a repository, or to ask for what
its reference names. -/
lemma exists_reference_of_plan? {load : Load} (hp : c.plan? keep h = some load) :
    ∃ r, c.reference? h = some r ∧
      ((∃ text, load = .kept text ∧ r.isLocal = false) ∨ ∃ q, load = .fetch q ∧ requestFor? r = some q) := by
  rcases c.due_cases h with ⟨e, q, he, hn, hq⟩ | idle
  · refine ⟨e.reference, reference?_of_some he, ?_⟩
    rw [plan?_of_due he hn hq] at hp
    cases hf : c.freshText? keep e.reference with
    | none =>
      simp only [hf, Option.some.injEq] at hp
      exact Or.inr ⟨q, hp.symm, hq⟩
    | some text =>
      simp only [hf, Option.some.injEq] at hp
      obtain ⟨name, -, hname, -⟩ := freshText?_eq_some_iff.mp hf
      refine Or.inl ⟨text, hp.symm, ?_⟩
      unfold ContentStore.fileName? at hname
      split at hname
      · cases hname
      · rename_i named
        rw [Bool.or_eq_true, not_or] at named
        simpa using named.1
  · rw [plan?_of_not_due idle] at hp
    cases hp

end Cache

namespace State

/-- What is on the way for an entry is what its reference names. -/
structure Asking (s : State) : Prop where
  fetching : ∀ h q, s.stage h = some (.loading (.fetch q)) → (s.cache.reference? h).bind requestFor? = some q
  reading : ∀ h text, s.stage h = some (.loading (.kept text)) →
    ∃ r, s.cache.reference? h = some r ∧ r.isLocal = false

namespace Asking

variable {keep : Retention} {s : State} {h : Nat}

lemma idle (c : Cache) : (State.idle c).Asking := by
  constructor
  · intro h q hst
    cases hst
  · intro h text hst
    cases hst

lemma step (ha : s.Asking) (ev : Event) : (s.step keep ev).Asking := by
  have same (h : Nat) (r : Reference) (hr : s.cache.reference? h = some r) :
      (s.step keep ev).cache.reference? h = some r := reference?_step hr ev
  refine ⟨fun h q hst => ?_, fun h text hst => ?_⟩
  · rcases loading_of_step hst with before | ⟨unmoved, plan | ⟨text, l, reading, address, hq⟩⟩
    · obtain ⟨r, hr, hq⟩ := Option.bind_eq_some_iff.mp (ha.fetching h q before)
      rw [same h r hr]
      exact hq
    · obtain ⟨r, hr, ⟨text, kept, -⟩ | ⟨q', fetched, hq⟩⟩ := Cache.exists_reference_of_plan? plan
      · cases kept
      · cases fetched
        rw [unmoved, hr]
        exact hq
    · cases hq
      obtain ⟨r, hr, remote⟩ := ha.reading h text reading
      rw [hr, Option.bind_some] at address
      rw [unmoved, hr, Option.bind_some, requestFor?, address, remote]
      rfl
  · rcases loading_of_step hst with before | ⟨unmoved, plan | ⟨text', l, -, -, hq⟩⟩
    · obtain ⟨r, hr, remote⟩ := ha.reading h text before
      exact ⟨r, same h r hr, remote⟩
    · obtain ⟨r, hr, ⟨text', -, remote⟩ | ⟨q, fetched, -⟩⟩ := Cache.exists_reference_of_plan? plan
      · exact ⟨r, by rw [unmoved, hr], remote⟩
      · cases fetched
    · cases hq

lemma run (ha : s.Asking) (es : List Event) : (s.run keep es).Asking :=
  run_induction (fun _ ev h => h.step ev) ha es

end Asking

/-- No run ever asks a repository for a reference. -/
def NeverAsked (r : Reference) : Prop :=
  ∀ keep now store es h q, let s := (State.initial now store).run keep es
    s.cache.reference? h = some r → s.stage h = some (.loading (.fetch q)) → q.origin ≠ .repository

lemma neverAsked_of_hasNoAddress {r : Reference} (hr : r.HasNoAddress) : NeverAsked r := by
  intro keep now store es h q s href hst ho
  have asking : s.Asking := (Asking.idle _).run es
  have hq := asking.fetching h q hst
  rw [href] at hq
  exact exists_repository_request_iff.mp ⟨q, hq, ho⟩ hr

/-- What has an address in a repository is asked for as soon as its text is looked up for the first
time and resolved. -/
lemma exists_asked {raw : String} {q : Request} (hq : requestFor? (Reference.ofText raw) = some q)
    (keep : Retention) (now : Time.Instant) :
    let s := (State.initial now none).run keep [.act (.getOrCreate raw), .start 0]
    s.cache.reference? 0 = some (Reference.ofText raw) ∧ s.stage 0 = some (.loading (.fetch q)) := by
  intro s
  set c : Cache := { now }
  have found : c.getOrCreate raw = c.create raw := Cache.getOrCreate_of_none rfl
  have made : Cache.entry? (c.create raw).2 0 = some (Entry.fresh raw) := by
    rw [Cache.entry?_create]
    rfl
  have due : (Entry.fresh raw).needsResolution (c.create raw).2.now = true :=
    Cache.needsResolution_fresh (isResolvable_of_requestFor? hq) _
  have plan : (c.create raw).2.plan? keep 0 = some (.fetch q) := by
    rw [Cache.plan?_of_due made due hq, Cache.freshText?_eq_none (fun name _ => rfl)]
  have run : s = (State.idle (c.create raw).2).put 0 (some (.loading (.fetch q))) := by
    show (State.idle (c.getOrCreate raw).2).step keep (.start 0) = _
    rw [found]
    have idle : (State.idle (c.create raw).2).stage 0 = none := rfl
    have plan : (State.idle (c.create raw).2).cache.plan? keep 0 = some (.fetch q) := plan
    simp only [State.step, idle, plan]
  rw [run]
  exact ⟨Cache.reference?_of_some made, by rw [stage_put, if_pos rfl]⟩

lemma neverAsked_ofText_iff (raw : String) :
    NeverAsked (Reference.ofText raw) ↔ (Reference.ofText raw).HasNoAddress := by
  refine ⟨fun never => ?_, neverAsked_of_hasNoAddress⟩
  by_contra ha
  obtain ⟨q, hq, ho⟩ := exists_repository_request_iff.mpr ha
  obtain ⟨href, hst⟩ := exists_asked hq {} ⟨0⟩
  exact never {} ⟨0⟩ none _ 0 q href hst ho

end State

/-- Every program is a run, and for a text that starts as a path, with the blanks around it taken away:
it has no address in the network exactly when it names something in the control directory of the
project or is not spelled as something in a repository; exactly then no run asks a repository for it;
and where it does have an address, the owner in it is `.` or `..`. -/
theorem relative_text_unasked_iff {raw : String} (hrel : Reference.IsRelativeText (Reference.ofText raw).text) :
    let r := Reference.ofText raw
    (∀ keep now store ops,
        (State.initial now store).Yields keep (Op.sightsAll keep { now, store } ops)
        (State.idle (Op.runAll keep { now, store } ops))) ∧
      (r.HasNoAddress ↔ Reference.IsLocalText r.text ∨ ¬ Reference.IsRemoteText r.text) ∧
      (State.NeverAsked r ↔ Reference.IsLocalText r.text ∨ ¬ Reference.IsRemoteText r.text) ∧
      (¬ r.HasNoAddress → "./".toList <+: r.slug.toList ∨ "../".toList <+: r.slug.toList) := by
  intro r
  refine ⟨fun keep now store ops => State.yields_runAll _ ops, Reference.hasNoAddress_ofText_iff raw, ?_,
    Reference.relative_slug hrel⟩
  rw [State.neverAsked_ofText_iff, Reference.hasNoAddress_ofText_iff]

/-- A path in the project that is no reference is left alone. -/
theorem unasked_project_path :
    (Reference.ofText "./actions/build").HasNoAddress ∧ State.NeverAsked (Reference.ofText "./actions/build") := by
  have relative : Reference.IsRelativeText (Reference.ofText "./actions/build").text := Or.inl (by decide)
  obtain ⟨-, address, asked, -⟩ := relative_text_unasked_iff relative
  have free : (Reference.ofText "./actions/build").HasNoAddress := ⟨by decide, by decide, by decide, by decide⟩
  exact ⟨free, asked.mpr (address.mp free)⟩

/-- A path with something behind an `@` has an address, and a repository is asked for it. -/
theorem not_unasked_path_at_ref :
    Reference.IsRelativeText (Reference.ofText "../actions/build@v1").text ∧
      ¬ (Reference.ofText "../actions/build@v1").HasNoAddress ∧
      ¬ State.NeverAsked (Reference.ofText "../actions/build@v1") := by
  have addressed : ¬ (Reference.ofText "../actions/build@v1").HasNoAddress := by
    rw [Reference.hasNoAddress_iff]
    decide
  refine ⟨Or.inr (by decide), addressed, ?_⟩
  rwa [State.neverAsked_ofText_iff]

end Resolution

end CiWorkflow
