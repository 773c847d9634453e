import CiWorkflow.Proofs.Resolution.Together
import CiWorkflow.Proofs.Resolution.Transparency

/-!
# Interleavings

Calls ask for entries to be resolved, all at one instant, and in between nobody else uses the cache.
Which entries get resolved does not depend on the order in which the calls come, or on the order in
which their loads begin, are answered and are written: it is those that are due at first. So the
order makes no difference to what comes of it, and no entry is fetched twice.
-/

namespace CiWorkflow.Resolution

/-! ### Moves -/

/-- The entry that a call asks for. -/
def Move.called? : Move → Option Nat
  | .call h => some h
  | _ => none

namespace Gated

variable (src : Source) (keep : Retention)

/-- Nothing is under way. -/
def idle (c : Cache) : Gated := { state := State.idle c }

@[simp] lemma cache_idle (c : Cache) : (idle c).state.cache = c := rfl

/-- What can happen while nobody else uses the cache and the clock stands still. A fetch is answered
by the source, a kept text is read from its file, and it is missed only where the file has none. -/
def Allows (g : Gated) : Move → Prop
  | .call _ | .enter _ | .other (.finish _) => True
  | .other (.answer h a) =>
    match g.state.stage h with
    | some (.loading (.fetch q)) => a = src q
    | some (.loading (.kept _)) => ∃ text, g.state.cache.textOf? h = some text ∧ a = .ok text
    | _ => False
  | .other (.miss h) => g.state.cache.textOf? h = none
  | .other _ => False

/-- Each move can happen when it comes. -/
def Follows (g : Gated) (ms : List Move) : Prop := Along (step keep) (Allows src) g ms

/-- The fetch that begins with a move, and its entry. -/
def asked? (g : Gated) (m : Move) : Option (Nat × Request) := (g.event? m).bind (g.state.asked? keep)

/-- The fetches that begin along some moves, with their entries. -/
def asks (g : Gated) (ms : List Move) : List (Nat × Request) := g.state.asks keep (g.events keep ms)

/-- Calls for the entries of a list come in some order, and all get to their end. -/
structure Interleaves (c : Cache) (hs : List Nat) (ms : List Move) : Prop where
  follows : (idle c).Follows src keep ms
  calls : (ms.filterMap Move.called?).Perm hs
  gates : ∀ h, ((idle c).run keep ms).waiting h = 0
  stages : ∀ h, ((idle c).run keep ms).state.stage h = none

/-- An entry has been resolved or is being resolved. -/
def Taken (D : Set Nat) (g : Gated) (h : Nat) : Prop := h ∈ D ∨ g.state.stage h ≠ none

/-- Nothing that was taken is given back. -/
def Onward (D : Set Nat) (g : Gated) (D' : Set Nat) (g' : Gated) : Prop := ∀ h, g.Taken D h → g'.Taken D' h

/-- A fetch is for an entry that a call has asked for and that was due at first, and asks for what its
reference needs. -/
structure Needed (c : Cache) (called : Set Nat) (x : Nat × Request) : Prop where
  called : x.1 ∈ called
  due : c.isDue x.1 = true
  request : (c.reference? x.1).bind requestFor? = some x.2

/-- Some calls have come, and some entries have been resolved. -/
structure Progress (c : Cache) (called D : Set Nat) (g : Gated) : Prop where
  resolved : c.Resolved src keep D g.state.cache
  done : ∀ h ∈ D, h ∈ called ∧ c.isDue h = true ∧ g.state.stage h = none
  inHand : ∀ h t, g.state.stage h = some t → h ∈ called ∧ c.isDue h = true ∧
    ∃ e, c.entry? h = some e ∧ c.InHand src keep D g.state.cache h e t
  waits : ∀ h, 0 < g.waiting h → h ∈ called
  asked : ∀ h ∈ called, c.isDue h = true → g.Taken D h ∨ 0 < g.waiting h

section progress

variable {src : Source} {keep : Retention} {c : Cache} {called D D' : Set Nat} {g g' : Gated} {h : Nat} {e : Entry}

lemma asks_cons (g : Gated) (m : Move) (ms : List Move) :
    g.asks keep (m :: ms) = (g.asked? keep m).toList ++ (g.step keep m).asks keep ms := by
  have parts : g.events keep (m :: ms) = (g.event? m).toList ++ (g.step keep m).events keep ms := rfl
  have after : (g.step keep m).state = g.state.run keep (g.event? m).toList := state_step keep g m
  rw [asks, asks, parts, State.asks, collect_append, after]
  refine congrArg (· ++ _) ?_
  unfold asked?
  cases g.event? m <;> simp [collect]

lemma Onward.of_stage (hs : ∀ k, g'.state.stage k = g.state.stage k) : Onward D g D g' := by
  intro k hk
  unfold Taken
  rwa [hs k]

lemma Onward.put {t : Stage} {w : Nat → Nat} : Onward D g D ⟨g.state.put h (some t), w⟩ := by
  refine fun k hk => hk.imp_right fun hst => ?_
  rw [State.stage_put]
  split
  · simp
  · exact hst

lemma Onward.note {f : Finding} : Onward D g (insert h D) ⟨g.state.note keep h f, g.waiting⟩ := by
  intro k hk
  by_cases hkh : k = h
  · exact Or.inl (Or.inl hkh)
  · refine hk.imp Or.inr fun hst => ?_
    rwa [State.stage_note, if_neg hkh]

namespace Progress

lemma start (src : Source) (keep : Retention) (c : Cache) : Progress src keep c ∅ ∅ (idle c) :=
  ⟨Cache.Resolved.refl src keep c, fun _ hk => hk.elim, fun _ _ hst => (nomatch hst),
    fun _ hw => absurd hw (by simp [idle]),
    fun _ hk => hk.elim⟩

variable (hp : Progress src keep c called D g)

include hp

lemma not_mem_of_stage {t : Stage} (hst : g.state.stage h = some t) : h ∉ D := by
  intro hD
  rw [(hp.done h hD).2.2] at hst
  cases hst

/-- The resolving of an entry comes to a stage. -/
lemma put {t : Stage} {w : Nat → Nat} (hw : ∀ k, k ≠ h → w k = g.waiting k) (hcalled : h ∈ called)
    (hdue : c.isDue h = true) (hD : h ∉ D) (he : c.entry? h = some e)
    (ht : c.InHand src keep D g.state.cache h e t) :
    Progress src keep c called D ⟨g.state.put h (some t), w⟩ := by
  refine ⟨hp.resolved, fun k hk => ?_, fun k u hu => ?_, fun k hk => ?_, fun k hk hdk => ?_⟩
  · obtain ⟨hc, hd, hst⟩ := hp.done k hk
    have apart : k ≠ h := by
      rintro rfl
      exact hD hk
    exact ⟨hc, hd, by rw [State.stage_put, if_neg apart, hst]⟩
  · rw [State.stage_put] at hu
    by_cases hkh : k = h
    · subst hkh
      rw [if_pos rfl] at hu
      cases hu
      exact ⟨hcalled, hdue, e, he, ht⟩
    · rw [if_neg hkh] at hu
      exact hp.inHand k u hu
  · by_cases hkh : k = h
    · rwa [hkh]
    · dsimp only at hk
      rw [hw k hkh] at hk
      exact hp.waits k hk
  · by_cases hkh : k = h
    · subst hkh
      exact Or.inl (Or.inr (by simp [State.stage_put]))
    · unfold Taken
      dsimp only
      rw [hw k hkh, State.stage_put, if_neg hkh]
      exact hp.asked k hk hdk

/-- The resolving of an entry comes to its end. -/
lemma note (hc : c.Grounded) {t : Stage} (hst : g.state.stage h = some t) (he : c.entry? h = some e) {f : Finding}
    (hf : c.Judged src keep D h e f) :
    Progress src keep c called (insert h D) ⟨g.state.note keep h f, g.waiting⟩ := by
  have resolved := hp.resolved.conclude hc he hf
  refine ⟨resolved, fun k hk => ?_, fun k u hu => ?_, hp.waits, fun k hk hdk => ?_⟩
  · by_cases hkh : k = h
    · subst hkh
      obtain ⟨hcalled, hdue, -⟩ := hp.inHand k t hst
      exact ⟨hcalled, hdue, by rw [State.stage_note, if_pos rfl]⟩
    · obtain ⟨hcalled, hdue, hfree⟩ := hp.done k (hk.resolve_left hkh)
      exact ⟨hcalled, hdue, by rw [State.stage_note, if_neg hkh, hfree]⟩
  · rw [State.stage_note] at hu
    split at hu
    · cases hu
    · obtain ⟨hcalled, hdue, x, hx, hand⟩ := hp.inHand k u hu
      exact ⟨hcalled, hdue, x, hx, hp.resolved.inHand_of_subset hc resolved (Set.subset_insert h D) hx hand⟩
  · have onward : Onward D g (insert h D) ⟨g.state.note keep h f, g.waiting⟩ := Onward.note
    exact (hp.asked k hk hdk).imp_left (onward k)

lemma call (h : Nat) : Progress src keep c (insert h called) D (g.step keep (.call h)) ∧
    Onward D g D (g.step keep (.call h)) := by
  have unmoved : (g.step keep (.call h)).state = g.state := by
    unfold step
    dsimp only
    split <;> rfl
  have onward : Onward D g D (g.step keep (.call h)) := Onward.of_stage fun k => by rw [unmoved]
  have taken (k : Nat) (hk : g.Taken D k ∨ 0 < g.waiting k) :
      (g.step keep (.call h)).Taken D k ∨ 0 < (g.step keep (.call h)).waiting k := by
    rcases hk with hk | hk
    · exact Or.inl (onward k hk)
    · right
      unfold step
      dsimp only
      split
      · by_cases hkh : k = h
        · subst hkh
          simp
        · simpa [hkh] using hk
      · exact hk
  refine ⟨⟨by rw [unmoved]; exact hp.resolved, fun k hk => ?_, fun k u hu => ?_, fun k hk => ?_, fun k hk hdk => ?_⟩,
    onward⟩
  · obtain ⟨hcalled, hdue, hst⟩ := hp.done k hk
    exact ⟨Or.inr hcalled, hdue, by rw [unmoved, hst]⟩
  · rw [unmoved] at hu ⊢
    obtain ⟨hcalled, rest⟩ := hp.inHand k u hu
    exact ⟨Or.inr hcalled, rest⟩
  · by_cases hkh : k = h
    · exact Or.inl hkh
    · refine Or.inr (hp.waits k ?_)
      unfold step at hk
      dsimp only at hk
      split at hk
      · simpa [hkh] using hk
      · exact hk
  · rcases hk with rfl | hk
    · by_cases hD : k ∈ D
      · exact Or.inl (Or.inl hD)
      · -- the entry is still as it was at first
        right
        have due : g.state.cache.isDue k = true := by rw [hp.resolved.isDue_of_not_mem hD, hdk]
        simp [step, due]
    · exact taken k (hp.asked k hk hdk)

/-- An entry that is due is as it was at first. -/
lemma entry?_of_not_mem (hD : h ∉ D) : g.state.cache.entry? h = c.entry? h := hp.resolved.others h hD

lemma enter (hc : c.Grounded) (h : Nat) : Progress src keep c called D (g.step keep (.enter h)) ∧
    Onward D g D (g.step keep (.enter h)) := by
  by_cases hfree : 0 < g.waiting h ∧ (g.state.stage h).isNone
  · obtain ⟨hwait, hst⟩ := hfree
    have hst' : g.state.stage h = none := Option.isNone_iff_eq_none.mp hst
    set w := Function.update g.waiting h (g.waiting h - 1) with hw
    have others (k : Nat) (hk : k ≠ h) : w k = g.waiting k := Function.update_of_ne hk _ _
    have stepped : g.step keep (.enter h) = ⟨g.state.step keep (.start h), w⟩ := by
      simp only [step]
      rw [if_pos ⟨hwait, hst⟩]
    rw [stepped]
    cases hplan : g.state.cache.plan? keep h with
    | some load =>
      have begins : g.state.step keep (.start h) = g.state.put h (some (.loading load)) := by
        simp [State.step, hst', hplan]
      rw [begins]
      obtain ⟨e, he, -⟩ := Cache.needsResolution_of_plan? hplan
      have due : g.state.cache.isDue h = true := by rw [← Cache.isSome_plan? keep, hplan]; rfl
      have hD : h ∉ D := by
        intro hD
        rw [hp.resolved.isDue_of_mem hc hD] at due
        cases due
      have hbase : c.entry? h = some e := (hp.entry?_of_not_mem hD).symm.trans he
      have hdue : c.isDue h = true := by rw [← hp.resolved.isDue_of_not_mem hD, due]
      exact ⟨hp.put others (hp.waits h hwait) hdue hD hbase (hp.resolved.inHand_of_plan? hc hbase he hplan), Onward.put⟩
    | none =>
      have rests : g.state.step keep (.start h) = g.state := by simp [State.step, hst', hplan]
      rw [rests]
      refine ⟨⟨hp.resolved, hp.done, hp.inHand, fun k hk => ?_, fun k hk hdk => ?_⟩, Onward.of_stage fun k => rfl⟩
      · by_cases hkh : k = h
        · exact hp.waits k (hkh ▸ hwait)
        · exact hp.waits k (by rwa [← others k hkh])
      · by_cases hkh : k = h
        · -- nothing is planned for an entry only when it has been resolved
          subst hkh
          by_contra hne
          have hD : k ∉ D := fun hD => hne (Or.inl (Or.inl hD))
          have due : g.state.cache.isDue k = true := by rw [hp.resolved.isDue_of_not_mem hD, hdk]
          rw [← Cache.isSome_plan? keep, hplan] at due
          cases due
        · dsimp only
          rw [others k hkh]
          exact hp.asked k hk hdk
  · have rests : g.step keep (.enter h) = g := by
      simp only [step]
      rw [if_neg hfree]
    rw [rests]
    exact ⟨hp, Onward.of_stage fun k => rfl⟩

/-- What has been judged is noted unless it has to be written before. -/
lemma judge (hc : c.Grounded) {t : Stage} (hst : g.state.stage h = some t) (he : c.entry? h = some e) {f : Finding}
    (hf : c.Judged src keep D h e f) :
    ∃ D', D ⊆ D' ∧ Progress src keep c called D' ⟨g.state.judge keep h f, g.waiting⟩ ∧
      Onward D g D' ⟨g.state.judge keep h f, g.waiting⟩ := by
  unfold State.judge
  split
  · obtain ⟨hcalled, hdue, -⟩ := hp.inHand h t hst
    exact ⟨D, subset_rfl, hp.put (fun k _ => rfl) hcalled hdue (hp.not_mem_of_stage hst) he hf, Onward.put⟩
  · exact ⟨insert h D, Set.subset_insert h D, hp.note hc hst he hf, Onward.note⟩

lemma answer (hc : c.Grounded) (h : Nat) {a : Except Failure String} (ha : g.Allows src (.other (.answer h a))) :
    ∃ D', D ⊆ D' ∧ Progress src keep c called D' (g.step keep (.other (.answer h a))) ∧
      Onward D g D' (g.step keep (.other (.answer h a))) := by
  simp only [Allows] at ha
  cases hst : g.state.stage h with
  | none =>
    rw [hst] at ha
    exact ha.elim
  | some t =>
    cases t with
    | writing f =>
      rw [hst] at ha
      exact ha.elim
    | loading load =>
      obtain ⟨-, -, e, he, hand⟩ := hp.inHand h _ hst
      have hx : g.state.cache.entry? h = some e := (hp.entry?_of_not_mem (hp.not_mem_of_stage hst)).trans he
      have answered : src.answer load = a := by
        rw [hst] at ha
        cases load with
        | fetch q => exact ha.symm
        | kept text =>
          obtain ⟨t, ht, rfl⟩ := ha
          rw [Cache.textOf?, Cache.reference?_of_some hx, Option.bind_some, hand.2.1] at ht
          cases ht
          rfl
      have isAnswer : load.isAnswer a = true := by
        rw [← answered]
        cases load <;> rfl
      have stepped : g.step keep (.other (.answer h a)) =
          ⟨g.state.judge keep h (g.state.cache.finding h load a), g.waiting⟩ := by
        simp [step, State.step, hst, isAnswer]
      rw [stepped]
      exact hp.judge hc hst he (hp.resolved.judged_finding he hx hand answered)

lemma finish (hc : c.Grounded) (h : Nat) :
    ∃ D', D ⊆ D' ∧ Progress src keep c called D' (g.step keep (.other (.finish h))) ∧
      Onward D g D' (g.step keep (.other (.finish h))) := by
  by_cases hw : ∃ f, g.state.stage h = some (.writing f)
  · obtain ⟨f, hst⟩ := hw
    obtain ⟨-, -, e, he, hand⟩ := hp.inHand h _ hst
    have stepped : g.step keep (.other (.finish h)) = ⟨g.state.note keep h f, g.waiting⟩ := by
      simp [step, State.step, hst]
    rw [stepped]
    exact ⟨insert h D, Set.subset_insert h D, hp.note hc hst he hand, Onward.note⟩
  · have rests : g.step keep (.other (.finish h)) = g := by
      simp only [step, State.step]
      split
      · rename_i f hf
        exact absurd ⟨f, hf⟩ hw
      · rfl
    rw [rests]
    exact ⟨D, subset_rfl, hp, Onward.of_stage fun k => rfl⟩

/-- No kept text is missed. -/
lemma step_miss (h : Nat) (ha : g.Allows src (.other (.miss h))) : g.step keep (.other (.miss h)) = g := by
  simp only [step, State.step]
  split
  · rename_i text l hst _
    obtain ⟨-, -, e, he, hand⟩ := hp.inHand h _ hst
    have hx : g.state.cache.entry? h = some e := (hp.entry?_of_not_mem (hp.not_mem_of_stage hst)).trans he
    have gone : g.state.cache.textOf? h = none := ha
    rw [Cache.textOf?, Cache.reference?_of_some hx, Option.bind_some, hand.2.1] at gone
    cases gone
  · rfl

/-- A fetch that begins is for an entry that was not taken before and is taken then. -/
lemma asked_enter (hc : c.Grounded) {x : Nat × Request} (hx : g.asked? keep (.enter h) = some x) :
    ¬ g.Taken D x.1 ∧ (g.step keep (.enter h)).Taken D x.1 ∧ Needed c called x := by
  have done := (hp.enter hc h).1
  obtain ⟨e, he, hx⟩ := Option.bind_eq_some_iff.mp hx
  obtain ⟨stage, began⟩ := State.stage_of_asked? hx
  rw [event?] at he
  split at he
  · rename_i hg
    cases he
    have stepped : (g.step keep (.enter h)).state = g.state.step keep (.start h) := by simp only [step, if_pos hg]
    rw [← stepped] at stage
    obtain ⟨hcalled, hdue, y, hy, hand⟩ := done.inHand x.1 _ stage
    have free : g.state.stage x.1 = none := by
      rcases began with ⟨-, free⟩ | ⟨missed, -⟩
      · exact free
      · cases missed
    refine ⟨fun ht => ht.elim (done.not_mem_of_stage stage) fun hne => hne free, Or.inr (by simp [stage]), hcalled,
      hdue, ?_⟩
    rw [Cache.reference?_of_some hy]
    exact hand.1
  · cases he

/-- A move that can happen takes the calls further. A fetch that begins with it is needed, and its entry
is taken from then on. -/
lemma step (hc : c.Grounded) (m : Move) (ha : g.Allows src m) :
    ∃ D', let called' : Set Nat := {k | k ∈ called ∨ m.called? = some k}
      Progress src keep c called' D' (g.step keep m) ∧ Onward D g D' (g.step keep m) ∧
      ∀ x, g.asked? keep m = some x → ¬ g.Taken D x.1 ∧ (g.step keep m).Taken D' x.1 ∧ Needed c called' x := by
  have same (hm : m.called? = none) : {k | k ∈ called ∨ m.called? = some k} = called := by
    ext k
    simp [hm]
  cases m with
  | call h =>
    obtain ⟨progress, onward⟩ := hp.call h
    have more : {k | k ∈ called ∨ (Move.call h).called? = some k} = insert h called := by
      ext k
      simp [Move.called?, or_comm, eq_comm]
    exact ⟨D, by rwa [more], onward, fun x hx => nomatch hx⟩
  | enter h =>
    rw [same rfl]
    obtain ⟨progress, onward⟩ := hp.enter hc h
    exact ⟨D, progress, onward, fun x hx => hp.asked_enter hc hx⟩
  | other e =>
    rw [same rfl]
    cases e with
    | act a => exact ha.elim
    | start h => exact ha.elim
    | miss h =>
      have rests := hp.step_miss h ha
      rw [rests]
      refine ⟨D, hp, Onward.of_stage fun k => rfl, fun x hx => ?_⟩
      -- what is fetched then was being read before
      have asked : g.state.asked? keep (.miss h) = some x := hx
      obtain ⟨stage, ⟨missed, -⟩ | ⟨-, text, before⟩⟩ := State.stage_of_asked? asked
      · cases missed
      · have unmoved : g.state.step keep (.miss h) = g.state := congrArg state rests
        rw [unmoved, before] at stage
        cases stage
    | answer h a =>
      obtain ⟨D', -, progress, onward⟩ := hp.answer hc h ha
      exact ⟨D', progress, onward, fun x hx => nomatch hx⟩
    | finish h =>
      obtain ⟨D', -, progress, onward⟩ := hp.finish hc h
      exact ⟨D', progress, onward, fun x hx => nomatch hx⟩

omit hp in
/-- Along a run each fetch is needed, none begins for an entry that was taken, and at most one for any
other. -/
lemma run (hc : c.Grounded) {ms : List Move} (hp : Progress src keep c called D g) (hf : g.Follows src keep ms) :
    ∃ D', let called' : Set Nat := {k | k ∈ called ∨ k ∈ ms.filterMap Move.called?}
      Progress src keep c called' D' (g.run keep ms) ∧ Onward D g D' (g.run keep ms) ∧
      ((g.asks keep ms).map Prod.fst).Nodup ∧ ∀ x ∈ g.asks keep ms, ¬ g.Taken D x.1 ∧ Needed c called' x := by
  induction ms generalizing called D g with
  | nil =>
    refine ⟨D, ?_, fun h hk => hk, List.nodup_nil, fun x hx => nomatch hx⟩
    simpa using hp
  | cons m ms ih =>
    obtain ⟨allowed, follows⟩ := hf
    obtain ⟨D₁, progress, onward, fresh⟩ := hp.step hc m allowed
    obtain ⟨D₂, done, kept, once, needed⟩ := ih progress follows
    have same : {k | k ∈ {k | k ∈ called ∨ m.called? = some k} ∨ k ∈ ms.filterMap Move.called?} =
        {k | k ∈ called ∨ k ∈ (m :: ms).filterMap Move.called?} := by
      ext k
      cases hm : m.called? <;> simp [hm, or_assoc, eq_comm]
    rw [same] at done needed
    refine ⟨D₂, done, fun h hk => kept h (onward h hk), ?_, fun x hx => ?_⟩
    · rw [asks_cons, List.map_append, List.nodup_append]
      refine ⟨?_, once, ?_⟩
      · cases g.asked? keep m <;> simp
      · -- what has begun is taken from then on
        rintro h hh h' hh' rfl
        obtain ⟨x, hx, rfl⟩ := List.mem_map.mp hh
        obtain ⟨y, hy, hyx⟩ := List.mem_map.mp hh'
        refine (needed y hy).1 ?_
        rw [hyx]
        exact (fresh x (Option.mem_toList.mp hx)).2.1
    · rw [asks_cons, List.mem_append] at hx
      rcases hx with hx | hx
      · obtain ⟨untaken, -, need⟩ := fresh x (Option.mem_toList.mp hx)
        refine ⟨untaken, ?_, need.due, need.request⟩
        rw [← same]
        exact Or.inl need.called
      · obtain ⟨untaken, need⟩ := needed x hx
        exact ⟨fun ht => untaken (onward x.1 ht), need⟩

end Progress

/-- What comes of it when all calls have come to their end. -/
lemma Interleaves.resolved (hc : c.Grounded) {hs : List Nat} {ms : List Move} (hi : Interleaves src keep c hs ms) :
    c.Resolved src keep {h | h ∈ hs ∧ c.isDue h = true} ((idle c).run keep ms).state.cache ∧
      (((idle c).asks keep ms).map Prod.fst).Nodup ∧ ∀ x ∈ (idle c).asks keep ms, Needed c {h | h ∈ hs} x := by
  obtain ⟨D, progress, -, once, needed⟩ := (Progress.start src keep c).run hc hi.follows
  refine ⟨?_, once, fun x hx => ?_⟩
  swap
  · obtain ⟨-, hcalled, due, request⟩ := needed x hx
    exact ⟨hi.calls.mem_iff.mp (hcalled.resolve_left fun h => h.elim), due, request⟩
  have all : D = {h | h ∈ hs ∧ c.isDue h = true} := by
    ext h
    constructor
    · intro hD
      obtain ⟨hcalled, hdue, -⟩ := progress.done h hD
      exact ⟨hi.calls.mem_iff.mp (hcalled.resolve_left fun h => h.elim), hdue⟩
    · rintro ⟨hh, hdue⟩
      rcases progress.asked h (Or.inr (hi.calls.mem_iff.mpr hh)) hdue with (hD | hst) | hwait
      · exact hD
      · exact absurd (hi.stages h) hst
      · rw [hi.gates h] at hwait
        exact absurd hwait (Nat.lt_irrefl 0)
  rw [← all]
  exact progress.resolved

end progress

end Gated

end CiWorkflow.Resolution
