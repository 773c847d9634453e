import CiWorkflow.Proofs.Outline.Parameters

/-!
# Jobs and what they need

A job is looked up by its name up to case, and the first one counts; what a job needs is looked up by its
exact name, and the last one counts; and a dependency is known where some job has exactly its name. The
three agree exactly where these differences do not show: the first job of a name says the same as the last
one with exactly that name, a job that needs something is named by every spelling, and a dependency that
names a job up to case names one exactly.
-/

namespace CiWorkflow

/-! ### Sorted sets -/

namespace Text

lemma pairwise_insertSorted {l : List String} (h : l.Pairwise (· < ·)) (a : String) :
    (insertSorted a l).Pairwise (· < ·) := by
  induction l with
  | nil => exact List.pairwise_singleton _ _
  | cons b l ih =>
    obtain ⟨first, rest⟩ := List.pairwise_cons.mp h
    unfold insertSorted
    split
    · rename_i hlt
      refine List.pairwise_cons.mpr ⟨fun x hx => ?_, h⟩
      rcases List.mem_cons.mp hx with rfl | hx
      · exact hlt
      · exact lt_trans hlt (first x hx)
    · split
      · exact h
      · rename_i hlt hne
        refine List.pairwise_cons.mpr ⟨fun x hx => ?_, ih rest⟩
        rcases mem_insertSorted.mp hx with rfl | hx
        · exact lt_of_le_of_ne (not_lt.mp hlt) (Ne.symm hne)
        · exact first x hx

lemma pairwise_sortedSet (l : List String) : (sortedSet l).Pairwise (· < ·) :=
  List.foldlRecOn l _ List.Pairwise.nil fun _ h a _ => pairwise_insertSorted h a

end Text

open CiWorkflow.Tree (Document)

namespace Outline

variable {d : Document} {jobs : List Nat} {name dep : String} {j l : Nat} {needed : List String}

/-! ### What a job needs -/

/-- A node is the first of some that has a name up to case. -/
def NamedFirst (d : Document) (jobs : List Nat) (name : String) (j : Nat) : Prop :=
  ∃ before after, jobs = before ++ j :: after ∧ d.hasKey name j = true ∧ ∀ k ∈ before, d.hasKey name k = false

/-- A node is the last of some that has exactly this name. -/
def NamedLast (d : Document) (jobs : List Nat) (name : String) (j : Nat) : Prop :=
  ∃ before after, jobs = before ++ j :: after ∧ d.key? j = some name ∧ ∀ k ∈ after, d.key? k ≠ some name

lemma NamedLast.mem (h : NamedLast d jobs name j) : j ∈ jobs := by
  obtain ⟨before, after, rfl, -⟩ := h
  exact List.mem_append_right _ List.mem_cons_self

lemma NamedLast.key?_eq (h : NamedLast d jobs name j) : d.key? j = some name := by
  obtain ⟨-, -, -, key, -⟩ := h
  exact key

lemma nodup_needsAt (d : Document) (j : Nat) : (needsAt d j).Nodup := by
  unfold needsAt Document.dependencies
  cases d.child? j "needs" with
  | none => exact List.nodup_nil
  | some n =>
    rw [Option.map_some, Option.getD_some]
    split
    · exact (Text.pairwise_sortedSet _).imp ne_of_lt
    · exact List.nodup_nil

lemma hasKey_of_key? (hj : d.key? j = some name) : d.hasKey name j = true := by
  rw [Document.hasKey, hj]
  exact Text.sameAscii_refl name

lemma find?_reverse_iff :
    jobs.reverse.find? (d.keyIs name) = some j ↔ NamedLast d jobs name j := by
  rw [List.find?_eq_some_iff_append]
  simp only [Document.keyIs, beq_iff_eq, Bool.not_eq_true', beq_eq_false_iff_ne]
  constructor
  · rintro ⟨hj, after, before, order, others⟩
    refine ⟨before.reverse, after.reverse, ?_, hj, fun k hk => others k (List.mem_reverse.mp hk)⟩
    simpa using congrArg List.reverse order
  · rintro ⟨before, after, rfl, hj, others⟩
    exact ⟨hj, after.reverse, before.reverse, by simp, fun k hk => others k (List.mem_reverse.mp hk)⟩

/-! ### The dependencies of all jobs -/

/-- Notes what a job needs. -/
def noteNeeds (d : Document) (needs : List (String × List String)) (j : Nat) : List (String × List String) :=
  match d.key? j with
  | none => needs
  | some name => Text.bindSorted name (needsAt d j) needs

lemma needsGraph_eq (d : Document) (jobs : List Nat) : needsGraph d jobs = jobs.foldl (noteNeeds d) [] := rfl

lemma lookup_noteNeeds (needs : List (String × List String)) (j : Nat) :
    (noteNeeds d needs j).lookup name = if d.keyIs name j then some (needsAt d j) else needs.lookup name := by
  unfold noteNeeds Document.keyIs
  cases d.key? j with
  | none => simp
  | some own =>
    by_cases hown : name = own
    · subst hown
      simp [Text.lookup_bindSorted_self]
    · have other : (some own == some name) = false := by simpa using Ne.symm hown
      rw [other, Text.lookup_bindSorted_of_ne hown]
      rfl

/-- The last job with a name counts. -/
lemma lookup_foldl_noteNeeds (needs : List (String × List String)) :
    (jobs.foldl (noteNeeds d) needs).lookup name =
      ((jobs.reverse.find? (d.keyIs name)).map (needsAt d)).or (needs.lookup name) := by
  induction jobs generalizing needs with
  | nil => simp
  | cons j jobs ih =>
    rw [List.foldl_cons, ih, lookup_noteNeeds, List.reverse_cons, List.find?_append, List.find?_singleton]
    cases jobs.reverse.find? (d.keyIs name) with
    | some l => simp
    | none => cases d.keyIs name j <;> simp

lemma ascending_needsGraph (d : Document) (jobs : List Nat) : Text.Ascending (needsGraph d jobs) := by
  rw [needsGraph_eq]
  refine List.foldlRecOn jobs _ List.Pairwise.nil fun needs h j _ => ?_
  unfold noteNeeds
  split
  · exact h
  · exact Text.ascending_bindSorted h _ _

/-- A name is bound to what the last job with exactly this name needs. -/
lemma mem_needsGraph_iff :
    (name, needed) ∈ needsGraph d jobs ↔ ∃ l, NamedLast d jobs name l ∧ needsAt d l = needed := by
  rw [← (ascending_needsGraph d jobs).lookup_eq_some_iff, needsGraph_eq, lookup_foldl_noteNeeds, List.lookup_nil,
    Option.or_none, Option.map_eq_some_iff]
  exact exists_congr fun l => and_congr_left fun _ => find?_reverse_iff

lemma lookup_needsGraph_eq_none_iff :
    (needsGraph d jobs).lookup name = none ↔ ∀ k ∈ jobs, d.key? k ≠ some name := by
  rw [needsGraph_eq, lookup_foldl_noteNeeds, List.lookup_nil, Option.or_none, Option.map_eq_none_iff,
    List.find?_eq_none]
  simp only [List.mem_reverse, Document.keyIs, beq_iff_eq]

lemma exists_namedLast (hj : j ∈ jobs) (hk : d.key? j = some name) : ∃ l, NamedLast d jobs name l := by
  cases hf : jobs.reverse.find? (d.keyIs name) with
  | some l => exact ⟨l, find?_reverse_iff.mp hf⟩
  | none =>
    have := List.find?_eq_none.mp hf j (List.mem_reverse.mpr hj)
    simp [Document.keyIs, hk] at this

/-! ### The queries of an outline -/

lemma job?_eq_some_iff : (ofDocument d).job? name = some j ↔ NamedFirst d (ofDocument d).jobs name j := by
  rw [job?, List.find?_eq_some_iff_append]
  simp only [Bool.not_eq_true']
  constructor
  · rintro ⟨hj, before, after, order, others⟩
    exact ⟨before, after, order, hj, others⟩
  · rintro ⟨before, after, order, hj, others⟩
    exact ⟨hj, before, after, order, others⟩

lemma job?_eq_none_iff : (ofDocument d).job? name = none ↔ ∀ k ∈ (ofDocument d).jobs, d.hasKey name k = false := by
  rw [job?, List.find?_eq_none]
  simp only [Bool.not_eq_true]
  rfl

/-- A name by which no job is found is exactly the name of none. -/
lemma key?_ne_of_job?_eq_none (hn : (ofDocument d).job? name = none) : ∀ k ∈ (ofDocument d).jobs, d.key? k ≠ some name := by
  intro k hk hkey
  have other := job?_eq_none_iff.mp hn k hk
  rw [hasKey_of_key? hkey] at other
  cases other

lemma needs_eq (d : Document) : (ofDocument d).needs = needsGraph d (ofDocument d).jobs := rfl

lemma needsOf_of_namedLast (hl : NamedLast d (ofDocument d).jobs name l) :
    (ofDocument d).needsOf name = needsAt d l := by
  have bound := mem_needsGraph_iff.mpr ⟨l, hl, rfl⟩
  rw [← (ascending_needsGraph d _).lookup_eq_some_iff] at bound
  rw [needsOf, needs_eq, bound]
  rfl

lemma needsOf_of_unnamed (hn : ∀ k ∈ (ofDocument d).jobs, d.key? k ≠ some name) :
    (ofDocument d).needsOf name = [] := by
  rw [needsOf, needs_eq, lookup_needsGraph_eq_none_iff.mpr hn]
  rfl

lemma mem_needsOf_iff : dep ∈ (ofDocument d).needsOf name ↔
    ∃ l, NamedLast d (ofDocument d).jobs name l ∧ dep ∈ needsAt d l := by
  constructor
  · intro hdep
    by_cases hn : ∀ k ∈ (ofDocument d).jobs, d.key? k ≠ some name
    · rw [needsOf_of_unnamed hn] at hdep
      cases hdep
    · push Not at hn
      obtain ⟨k, hk, hkey⟩ := hn
      obtain ⟨l, hl⟩ := exists_namedLast hk hkey
      exact ⟨l, hl, needsOf_of_namedLast hl ▸ hdep⟩
  · rintro ⟨l, hl, hdep⟩
    rwa [needsOf_of_namedLast hl]

/-- A dependency is unknown where no job has exactly its name. -/
lemma mem_unknownNeeds_iff : (name, dep) ∈ (ofDocument d).unknownNeeds ↔
    dep ∈ (ofDocument d).needsOf name ∧ ∀ k ∈ (ofDocument d).jobs, d.key? k ≠ some dep := by
  rw [unknownNeeds, List.mem_flatMap, mem_needsOf_iff, ← lookup_needsGraph_eq_none_iff]
  constructor
  · rintro ⟨⟨own, needed⟩, bound, hmem⟩
    obtain ⟨x, hx, heq⟩ := List.mem_map.mp hmem
    obtain ⟨rfl, rfl⟩ := Prod.mk.inj heq
    obtain ⟨hx, unknown⟩ := List.mem_filter.mp hx
    obtain ⟨l, hl, rfl⟩ := mem_needsGraph_iff.mp bound
    exact ⟨⟨l, hl, hx⟩, Option.isNone_iff_eq_none.mp unknown⟩
  · rintro ⟨⟨l, hl, hdep⟩, unknown⟩
    refine ⟨(name, needsAt d l), mem_needsGraph_iff.mpr ⟨l, hl, rfl⟩, List.mem_map.mpr ⟨dep, ?_, rfl⟩⟩
    exact List.mem_filter.mpr ⟨hdep, Option.isNone_iff_eq_none.mpr unknown⟩

lemma nodup_unknownNeeds (d : Document) : (ofDocument d).unknownNeeds.Nodup := by
  have ascending := ascending_needsGraph d (ofDocument d).jobs
  rw [unknownNeeds, List.nodup_flatMap]
  refine ⟨fun ⟨own, needed⟩ bound => ?_, ?_⟩
  · obtain ⟨l, -, rfl⟩ := mem_needsGraph_iff.mp bound
    exact ((nodup_needsAt d l).filter _).map fun _ _ heq => (Prod.mk.inj heq).2
  · refine (List.pairwise_map.mp ascending).imp fun {a b} hlt x ha hb => ?_
    obtain ⟨y, -, rfl⟩ := List.mem_map.mp ha
    obtain ⟨z, -, heq⟩ := List.mem_map.mp hb
    exact hlt.ne (Prod.mk.inj heq).1.symm

/-! ### Agreement -/

/-- The queries of an outline agree: what is said to be needed by a name is what the job found by the name
needs, and nothing where no job is found; and the dependencies said to be unknown, each once, are those by
which no job is found. -/
structure Agrees (o : Outline) : Prop where
  found : ∀ name j, o.job? name = some j → o.needsOf name = needsAt o.document j
  missing : ∀ name, o.job? name = none → o.needsOf name = []
  once : o.unknownNeeds.Nodup
  unknown : ∀ name dep, (name, dep) ∈ o.unknownNeeds ↔ dep ∈ o.needsOf name ∧ o.job? dep = none

/-- Of jobs with one name up to case the first says the same as the last with each spelling, and nothing
where a spelling is no job's name. -/
def SayAlike (d : Document) (jobs : List Nat) : Prop :=
  ∀ name j, NamedFirst d jobs name j → (∀ l, NamedLast d jobs name l → needsAt d l = needsAt d j) ∧
    ((∀ k ∈ jobs, d.key? k ≠ some name) → needsAt d j = [])

/-- What is needed and names a job up to case names one exactly. -/
def SpellsExactly (d : Document) (jobs : List Nat) : Prop :=
  ∀ name l dep, NamedLast d jobs name l → dep ∈ needsAt d l → (∃ k ∈ jobs, d.hasKey dep k = true) →
    ∃ k ∈ jobs, d.key? k = some dep

lemma found_iff_sayAlike : (∀ name j, (ofDocument d).job? name = some j → (ofDocument d).needsOf name = needsAt d j) ↔
    SayAlike d (ofDocument d).jobs := by
  constructor
  · intro found name j hj
    have said := found name j (job?_eq_some_iff.mpr hj)
    exact ⟨fun l hl => (needsOf_of_namedLast hl).symm.trans said, fun hn => said.symm.trans (needsOf_of_unnamed hn)⟩
  · intro alike name j hj
    obtain ⟨same, nothing⟩ := alike name j (job?_eq_some_iff.mp hj)
    by_cases hn : ∀ k ∈ (ofDocument d).jobs, d.key? k ≠ some name
    · rw [needsOf_of_unnamed hn, nothing hn]
    · push Not at hn
      obtain ⟨k, hk, hkey⟩ := hn
      obtain ⟨l, hl⟩ := exists_namedLast hk hkey
      rw [needsOf_of_namedLast hl, same l hl]

lemma unknown_iff_spellsExactly : (∀ name dep, (name, dep) ∈ (ofDocument d).unknownNeeds ↔
      dep ∈ (ofDocument d).needsOf name ∧ (ofDocument d).job? dep = none) ↔
    SpellsExactly d (ofDocument d).jobs := by
  constructor
  · rintro unknown name l dep hl hdep ⟨k, hk, hkey⟩
    by_contra hn
    push Not at hn
    have listed := mem_unknownNeeds_iff.mpr ⟨mem_needsOf_iff.mpr ⟨l, hl, hdep⟩, hn⟩
    have missing := job?_eq_none_iff.mp ((unknown name dep).mp listed).2 k hk
    rw [hkey] at missing
    cases missing
  · intro exactly name dep
    rw [mem_unknownNeeds_iff]
    refine and_congr_right fun hdep => ⟨fun hn => ?_, key?_ne_of_job?_eq_none⟩
    refine job?_eq_none_iff.mpr fun k hk => ?_
    obtain ⟨l, hl, hdep⟩ := mem_needsOf_iff.mp hdep
    rw [← Bool.not_eq_true]
    intro hkey
    obtain ⟨m, hm, hkey⟩ := exactly name l dep hl hdep ⟨k, hk, hkey⟩
    exact hn m hm hkey

/-- In every document nothing is needed by a name that no job has, no dependency is listed twice as unknown,
and one by which no job is found is listed; and the queries agree in all else exactly where the first job of
a name says the same as the last one with each spelling of it, and what is needed is spelled like a job. -/
theorem agrees_iff (d : Document) :
    (∀ name, (ofDocument d).job? name = none → (ofDocument d).needsOf name = []) ∧
      (ofDocument d).unknownNeeds.Nodup ∧
      (∀ name dep, dep ∈ (ofDocument d).needsOf name → (ofDocument d).job? dep = none →
        (name, dep) ∈ (ofDocument d).unknownNeeds) ∧
      (Agrees (ofDocument d) ↔ SayAlike d (ofDocument d).jobs ∧ SpellsExactly d (ofDocument d).jobs) := by
  have missing (name : String) (hn : (ofDocument d).job? name = none) : (ofDocument d).needsOf name = [] :=
    needsOf_of_unnamed (key?_ne_of_job?_eq_none hn)
  refine ⟨missing, nodup_unknownNeeds d, fun name dep hdep hn => ?_, ?_⟩
  · exact mem_unknownNeeds_iff.mpr ⟨hdep, key?_ne_of_job?_eq_none hn⟩
  · rw [← found_iff_sayAlike, ← unknown_iff_spellsExactly]
    exact ⟨fun agrees => ⟨agrees.found, agrees.unknown⟩,
      fun ⟨found, unknown⟩ => ⟨found, missing, nodup_unknownNeeds d, unknown⟩⟩

/-- A job that is found by another spelling of its name is said to need nothing. -/
theorem not_agrees_other_case : ∃ d,
    Document.ofText "jobs:\n  build:\n    runs-on: x\n  test:\n    needs: build" = .ok d ∧ ¬ Agrees (ofDocument d) := by
  obtain ⟨d, hd, found⟩ := Document.exists_of_test "jobs:\n  build:\n    runs-on: x\n  test:\n    needs: build"
    (p := fun d => (ofDocument d).job? "TEST" == some 5 && (ofDocument d).needsOf "TEST" == [] &&
      needsAt d 5 == ["build"])
    (by decide +kernel)
  simp only [Bool.and_eq_true, beq_iff_eq] at found
  obtain ⟨⟨job, nothing⟩, needs⟩ := found
  refine ⟨d, hd, fun agrees => ?_⟩
  have said := agrees.found "TEST" 5 job
  rw [nothing, show needsAt (ofDocument d).document 5 = needsAt d 5 from rfl, needs] at said
  cases said

end Outline

end CiWorkflow
