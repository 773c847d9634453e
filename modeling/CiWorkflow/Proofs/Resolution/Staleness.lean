import CiWorkflow.Proofs.Resolution.Backing
import CiWorkflow.Proofs.Resolution.Restarts

/-!
# How old served texts are

A text is served for the success retention after it was noted, and then it may have been read from a
file that was nearly as old. A file counts as written when the writing ends, and an entry as resolved
when its text has been read and noted. So what is served was fetched within twice the retention, but
for the time that a file is in use, which may count twice.
-/

namespace CiWorkflow

namespace Time.Instant

/-- The earliest instant: the first nanosecond of the year -262143. -/
def earliest : Instant := ofDate ⟨-262143, 1, 1⟩ 0 0 0 0

/-- No two instants are as far apart as the longest duration. -/
lemma latest_sub_earliest_le : latest.nanos - earliest.nanos ≤ longestSeconds * nanosPerSecond := by decide +kernel

lemma le_after_cases {t u : Instant} {seconds : Nat} (h : t ≤ u.after seconds) :
    t.nanos - u.nanos ≤ seconds * nanosPerSecond ∨ longestSeconds < seconds ∧ t ≤ latest := by
  have le : t.nanos ≤ (u.after seconds).nanos := h
  by_cases long : longestSeconds < seconds
  · exact Or.inr ⟨long, Int.le_trans le (after_le_latest u seconds)⟩
  · left
    unfold after at le
    dsimp only at le
    split at le
    · dsimp only at le
      omega
    · rename_i cut
      have late : ¬ u.nanos + seconds * nanosPerSecond ≤ latest.nanos := by
        intro early
        exact cut ⟨Nat.le_of_not_lt long, early⟩
      omega

end Time.Instant

namespace Resolution

open Time (Instant)

/-- The success retention in nanoseconds. -/
def Retention.nanos (keep : Retention) : Int := keep.success * Instant.nanosPerSecond

lemma Retention.nanos_nonneg (keep : Retention) : 0 ≤ keep.nanos := by
  unfold nanos Instant.nanosPerSecond
  omega

/-- Where an entry is found for a text and is available, its interface is from a text that was seen to be
fetched at most some nanoseconds ago, for a reference with the same key. -/
def Cache.ServesWithin (c : Cache) (seen : List Sight) (b : Int) : Prop :=
  ∀ raw e, Cache.entry? (c.getOrCreate raw).2 (c.getOrCreate raw).1 = some e → e.available = true →
    ∃ o text r q u, manifest? e.reference text = .ok o ∧ e.interface = Interface.ofDocument o.document e.reference ∧
      r.contentKey = e.reference.contentKey ∧ requestFor? r = some q ∧ .answered q (.ok text) u ∈ seen ∧
      c.now.nanos - b ≤ u.nanos

namespace State

variable (keep : Retention) (s : State) (δ : Nat)

/-- A text was fetched at most some nanoseconds before an instant. -/
def Recent (p : List Turn) (key text : String) (v : Instant) (b : Int) : Prop :=
  ∃ u, s.Obtained keep p key text u ∧ v.nanos - u.nanos ≤ b

/-- What is known of an entry is from a text that was not too old when it was noted. -/
def Vouched (p : List Turn) (e : Entry) : Prop :=
  ∃ o text n, manifest? e.reference text = .ok o ∧ e.interface = Interface.ofDocument o.document e.reference ∧
    e.expires = some (n.after keep.success) ∧ s.Recent keep p e.reference.contentKey text n (keep.nanos + 2 * δ)

/-- A text that may be read from a file was not too old when its entry came to the file, and one that is
written has been fetched when its entry came there. -/
def Placed (p : List Turn) (h : Nat) : Stage → Prop
  | .loading (.fetch _) => True
  | .loading (.kept _) =>
    ∃ r v, (s.turns keep p).cache.reference? h = some r ∧ s.Since keep p h v ∧
      ∀ text, s.Reads keep p h text → s.Recent keep p r.contentKey text v (keep.nanos + δ)
  | .writing f =>
    ∃ r v o text, (s.turns keep p).cache.reference? h = some r ∧ s.Since keep p h v ∧ f = .timely o (some text) ∧
      manifest? r text = .ok o ∧ s.Obtained keep p r.contentKey text v

/-- No text is too old where it is. -/
structure Dated (p : List Turn) : Prop where
  files : ∀ name text w, (s.turns keep p).cache.file? name = some ⟨.text text, w⟩ →
    w ≤ (s.turns keep p).cache.now ∧
      ∀ r, ContentStore.fileName? r = some name → s.Recent keep p r.contentKey text w δ
  stages : ∀ h t, (s.turns keep p).stage h = some t → s.Placed keep δ p h t
  entries : ∀ h e, (s.turns keep p).cache.entry? h = some e → e.available = true → s.Vouched keep δ p e

variable {keep s δ} {p q ts : List Turn} {τ : Turn} {h : Nat} {e : Entry} {key text : String} {v w : Instant}
  {b : Int}

lemma Recent.mono (hr : s.Recent keep p key text v b) (hp : p <+: q) : s.Recent keep q key text v b := by
  obtain ⟨u, ho, hu⟩ := hr
  exact ⟨u, ho.mono hp, hu⟩

/-- What was recent is recent at a later time, with a greater bound. -/
lemma Recent.later {d : Int} (hr : s.Recent keep p key text v b) (hw : w.nanos - v.nanos ≤ d) :
    s.Recent keep p key text w (b + d) := by
  obtain ⟨u, ho, hu⟩ := hr
  exact ⟨u, ho, by omega⟩

/-- What wears out is from the same text. -/
lemma Vouched.worn {e' : Entry} (hv : s.Vouched keep δ p e) (hw : e.Worn e') (hp : p <+: q) :
    s.Vouched keep δ q e' := by
  obtain ⟨o, text, n, hm, hi, hx, recent⟩ := hv
  refine ⟨o, text, n, ?_, ?_, ?_, ?_⟩
  · rw [hw.reference, hm]
  · rw [hw.interface, hw.reference, hi]
  · rw [hw.expires, hx]
  · rw [hw.reference]
    exact recent.mono hp

lemma exists_ok_of_manifestIn? {r : Reference} {a : Except Failure String} {o : Outline}
    (hm : manifestIn? r a = some o) : ∃ text, a = .ok text ∧ manifest? r text = .ok o := by
  cases a with
  | error f => cases hm
  | ok text =>
    refine ⟨text, rfl, ?_⟩
    unfold manifestIn? at hm
    cases hq : manifest? r text with
    | error f => simp [hq, Except.toOption] at hm
    | ok o' =>
      simp only [hq, Except.toOption, Option.some.injEq] at hm
      rw [hm]

lemma atFile_of_kept {t : String} (hst : s.stage h = some (.loading (.kept t))) : s.AtFile h := Or.inl ⟨t, hst⟩

lemma atFile_of_writing {f : Finding} (hst : s.stage h = some (.writing f)) : s.AtFile h := Or.inr ⟨f, hst⟩

/-! ### One turn -/

namespace Dated

variable (hd : s.Dated keep δ p) (hf : Forward (p ++ [τ]))

include hd hf

/-- What holds of an entry at its file holds of it after a turn, if every file is left or holds what is
recent. -/
lemma placed {t : Stage}
    (files : ∀ name text w, (s.turns keep (p ++ [τ])).cache.file? name = some ⟨.text text, w⟩ →
      (s.turns keep p).cache.file? name = some ⟨.text text, w⟩ ∨ w = (s.turns keep p).cache.now ∧
        ∀ r, ContentStore.fileName? r = some name → s.Recent keep (p ++ [τ]) r.contentKey text w δ)
    (there : (s.turns keep (p ++ [τ])).stage h = some t) (before : (s.turns keep p).stage h = some t)
    (same : ∀ r, (s.turns keep p).cache.reference? h = some r →
      (s.turns keep (p ++ [τ])).cache.reference? h = some r) : s.Placed keep δ (p ++ [τ]) h t := by
  have grown : p <+: p ++ [τ] := List.prefix_append p [τ]
  have was := hd.stages h t before
  cases t with
  | writing f =>
    obtain ⟨r, v, o, text, hr, since, hfind, hm, ho⟩ := was
    exact ⟨r, v, o, text, same r hr, since.concat (atFile_of_writing there), hfind, hm, ho.mono grown⟩
  | loading load =>
    cases load with
    | fetch q => trivial
    | kept t =>
      obtain ⟨r, v, hr, since, recent⟩ := was
      have hr' := same r hr
      refine ⟨r, v, hr', since.concat (atFile_of_kept there), fun text reads => ?_⟩
      rcases reads.concat with ⟨-, reads⟩ | htext
      · exact (recent text reads).mono grown
      · rw [Cache.textOf?, hr', Option.bind_some] at htext
        obtain ⟨name, w, hname, hw⟩ := Cache.keptText?_eq_some_iff.mp htext
        rcases files name text w hw with left | ⟨rfl, written⟩
        · have held : (s.turns keep p).cache.textOf? h = some text := by
            rw [Cache.textOf?, hr]
            exact Cache.keptText?_eq_some_iff.mpr ⟨name, w, hname, left⟩
          exact (recent text (reads_now before held)).mono grown
        · -- written since the entry came to its file
          have since_le : v.nanos ≤ (s.turns keep p).cache.now.nanos :=
            since.le (hf.mono (List.subset_append_left p [τ]))
          have nonneg := keep.nanos_nonneg
          obtain ⟨u, ho, hu⟩ := written r hname
          refine ⟨u, ho, ?_⟩
          omega

/-- What one turn has to keep: files are left or hold what is recent, entries stay at their files or
come there rightly, and what is known of them wears out or is from a text that is not too old. -/
lemma carry
    (files : ∀ name text w, (s.turns keep (p ++ [τ])).cache.file? name = some ⟨.text text, w⟩ →
      (s.turns keep p).cache.file? name = some ⟨.text text, w⟩ ∨ w = (s.turns keep p).cache.now ∧
        ∀ r, ContentStore.fileName? r = some name → s.Recent keep (p ++ [τ]) r.contentKey text w δ)
    (stages : ∀ h t, (s.turns keep (p ++ [τ])).stage h = some t →
      ((s.turns keep p).stage h = some t ∧ ∀ r, (s.turns keep p).cache.reference? h = some r →
        (s.turns keep (p ++ [τ])).cache.reference? h = some r) ∨ s.Placed keep δ (p ++ [τ]) h t)
    (entries : ∀ h e', (s.turns keep (p ++ [τ])).cache.entry? h = some e' → e'.available = true →
      (∃ e, (s.turns keep p).cache.entry? h = some e ∧ e.available = true ∧ e.Worn e') ∨
        s.Vouched keep δ (p ++ [τ]) e') : s.Dated keep δ (p ++ [τ]) := by
  have grown : p <+: p ++ [τ] := List.prefix_append p [τ]
  have passed : (s.turns keep p).cache.now ≤ (s.turns keep (p ++ [τ])).cache.now := by
    rw [turns_concat]
    exact now_le_turn fun ms hτ => hf ms (by simp [hτ])
  refine ⟨fun name text w hw => ?_, fun h t ht => ?_, fun h e' he' hav => ?_⟩
  · rcases files name text w hw with before | ⟨rfl, recent⟩
    · obtain ⟨hle, recent⟩ := hd.files name text w before
      exact ⟨Instant.le_trans hle passed, fun r hr => (recent r hr).mono grown⟩
    · exact ⟨passed, recent⟩
  · rcases stages h t ht with ⟨before, same⟩ | placed
    · exact hd.placed hf files ht before same
    · exact placed
  · rcases entries h e' he' hav with ⟨e, he, hav₀, worn⟩ | vouched
    · exact (hd.entries h e he hav₀).worn worn grown
    · exact vouched

/-- The cache stays, and resolvings come to other stages. -/
lemma moved (hc : (s.turns keep (p ++ [τ])).cache = (s.turns keep p).cache)
    (stages : ∀ h t, (s.turns keep (p ++ [τ])).stage h = some t →
      (s.turns keep p).stage h = some t ∨ s.Placed keep δ (p ++ [τ]) h t) : s.Dated keep δ (p ++ [τ]) := by
  refine hd.carry hf (fun name text w hw => ?_) (fun h t ht => ?_) fun h e he hav => ?_
  · rw [hc] at hw
    exact Or.inl hw
  · rw [hc]
    exact (stages h t ht).imp_left fun hst => ⟨hst, fun r hr => hr⟩
  · rw [hc] at he
    exact Or.inl ⟨e, he, hav, Entry.Worn.refl e⟩

/-- One resolving comes to another stage. -/
lemma put {t : Stage} (hstep : s.turns keep (p ++ [τ]) = (s.turns keep p).put h (some t))
    (ht : s.Placed keep δ (p ++ [τ]) h t) : s.Dated keep δ (p ++ [τ]) := by
  refine hd.moved hf (by rw [hstep, cache_put]) fun k u hu => ?_
  rw [hstep, stage_put] at hu
  split at hu
  · rename_i hk
    subst hk
    cases hu
    exact Or.inr ht
  · exact Or.inl hu

/-- A finding from a text that is not too old is noted. -/
lemma note {f : Finding} (hstep : s.turns keep (p ++ [τ]) = (s.turns keep p).note keep h f)
    (he : (s.turns keep p).cache.entry? h = some e)
    (found : ∀ o, f.outline? = some o → ∃ text, manifest? e.reference text = .ok o ∧
      s.Recent keep (p ++ [τ]) e.reference.contentKey text (s.turns keep p).cache.now (keep.nanos + 2 * δ))
    (written : ∀ o text, f = .timely o (some text) →
      s.Recent keep (p ++ [τ]) e.reference.contentKey text (s.turns keep p).cache.now δ) :
    s.Dated keep δ (p ++ [τ]) := by
  refine hd.carry hf (fun name text w hw => ?_) (fun k t ht => ?_) fun k e' he' hav => ?_
  · rw [hstep, cache_note] at hw
    rcases Cache.file?_conclude_cases he hw with left | ⟨o, t, hfind, hname, hnew⟩
    · exact Or.inl left
    · cases hnew
      refine Or.inr ⟨rfl, fun r hr => ?_⟩
      rw [contentKey_eq_of_fileName? hr hname]
      exact written o text hfind
  · left
    rw [hstep, stage_note] at ht
    split at ht
    · cases ht
    · refine ⟨ht, fun r hr => ?_⟩
      rw [hstep, cache_note, Cache.reference?_conclude, hr]
  · rw [hstep, cache_note] at he'
    by_cases hk : k = h
    · subst hk
      rw [Cache.entry?_conclude keep he] at he'
      cases he'
      right
      have vouched (o : Outline) (ho : f.outline? = some o)
          (hi : (Cache.concluded (s.turns keep p).cache keep e f).interface =
            Interface.ofDocument o.document e.reference)
          (hx : (Cache.concluded (s.turns keep p).cache keep e f).expires =
            some ((s.turns keep p).cache.now.after keep.success)) :
          s.Vouched keep δ (p ++ [τ]) (Cache.concluded (s.turns keep p).cache keep e f) := by
        obtain ⟨text, hm, recent⟩ := found o ho
        refine ⟨o, text, _, ?_, ?_, hx, ?_⟩
        · rw [Cache.reference_concluded, hm]
        · rw [Cache.reference_concluded, hi]
        · rw [Cache.reference_concluded]
          exact recent
      cases f with
      | missing => cases hav
      | late o => exact vouched o rfl rfl rfl
      | timely o text => exact vouched o rfl rfl rfl
    · rw [Cache.entry?_conclude_of_ne _ _ _ _ hk] at he'
      exact Or.inl ⟨e', he', hav, Entry.Worn.refl e'⟩

lemma act {a : Action} (hτ : τ = .event (.act a)) : s.Dated keep δ (p ++ [τ]) := by
  subst hτ
  have hstep : s.turns keep (p ++ [.event (.act a)]) =
      { s.turns keep p with cache := a.apply (s.turns keep p).cache } := by
    rw [turns_concat]
    rfl
  refine hd.carry hf (fun name text w hw => ?_) (fun h t ht => ?_) fun h e' he' hav => ?_
  · rw [hstep] at hw
    exact Or.inl (Cache.file?_of_apply hw)
  · rw [hstep] at ht
    refine Or.inl ⟨ht, fun r hr => ?_⟩
    have same : ((s.turns keep p).step keep (.act a)).cache.reference? h = some r := reference?_step hr (.act a)
    rwa [turns_concat]
  · rw [hstep] at he'
    exact Or.inl (Action.available_of_apply he' hav)

lemma restart (hτ : τ = .restart) : s.Dated keep δ (p ++ [τ]) := by
  subst hτ
  have hstep : s.turns keep (p ++ [.restart]) = (s.turns keep p).restarted := by
    rw [turns_concat]
    rfl
  refine hd.carry hf (fun name text w hw => ?_) (fun h t ht => ?_) fun h e' he' hav => ?_
  · rw [hstep] at hw
    exact Or.inl hw
  · rw [hstep] at ht
    cases ht
  · rw [hstep] at he'
    simp [restarted, idle, Cache.entry?] at he'

lemma rest (hstep : s.turns keep (p ++ [τ]) = s.turns keep p) : s.Dated keep δ (p ++ [τ]) :=
  hd.moved hf (by rw [hstep]) fun h t ht => Or.inl (by rwa [hstep] at ht)

/-- An entry comes to its file when the file is fresh. -/
lemma start {load : Load} (hstep : s.turns keep (p ++ [τ]) = (s.turns keep p).put h (some (.loading load)))
    (free : (s.turns keep p).stage h = none) (plan : (s.turns keep p).cache.plan? keep h = some load) :
    s.Dated keep δ (p ++ [τ]) := by
  refine hd.put hf hstep ?_
  obtain ⟨e, q, he, -, ⟨-, rfl⟩ | ⟨text, hfresh, rfl⟩⟩ := Cache.plan?_cases plan
  · trivial
  · have there : (s.turns keep (p ++ [τ])).stage h = some (.loading (.kept text)) := by
      rw [hstep, stage_put, if_pos rfl]
    refine ⟨e.reference, _, ?_, since_now (atFile_of_kept there), fun t reads => ?_⟩
    · rw [hstep, cache_put, Cache.reference?_of_some he]
    · have same : t = text := by
        rcases reads.concat with ⟨⟨t', ht'⟩, -⟩ | ht
        · rw [free] at ht'
          cases ht'
        · rw [hstep, cache_put, Cache.textOf?, Cache.reference?_of_some he, Option.bind_some,
            Cache.keptText?_of_freshText? hfresh] at ht
          exact (Option.some.inj ht).symm
      obtain ⟨name, w, hname, hw, young⟩ := Cache.freshText?_eq_some_iff.mp hfresh
      have recent := (hd.files name text w hw).2 e.reference hname
      have age : (s.turns keep p).cache.now.nanos - w.nanos ≤ keep.nanos := by
        simp only [Instant.isYoungerThan, Bool.and_eq_true, decide_eq_true_eq] at young
        unfold Retention.nanos
        omega
      rw [same, hstep, cache_put, Int.add_comm]
      exact (recent.mono (List.prefix_append p _)).later age

/-- What has come from a fetch or from a file is judged. -/
lemma judge (he : (s.turns keep p).cache.entry? h = some e) {load : Load} {a : Except Failure String}
    (hstep : s.turns keep (p ++ [τ]) = (s.turns keep p).judge keep h ((s.turns keep p).cache.finding h load a))
    (source : ∀ text, a = .ok text → ∃ u, s.Obtained keep (p ++ [τ]) e.reference.contentKey text u ∧
      (s.turns keep p).cache.now.nanos - u.nanos ≤ keep.nanos + 2 * δ ∧
      (load.isKeepable = true → u = (s.turns keep p).cache.now)) : s.Dated keep δ (p ++ [τ]) := by
  set f := (s.turns keep p).cache.finding h load a with hfind
  have found (o : Outline) (ho : f.outline? = some o) :
      ∃ text, a = .ok text ∧ manifest? e.reference text = .ok o := by
    rw [hfind, Cache.outline?_finding he] at ho
    exact exists_ok_of_manifestIn? ho
  unfold State.judge at hstep
  split at hstep
  · rename_i hw
    obtain ⟨o, text, hf'⟩ := Finding.eq_timely_of_isWriting hw
    obtain ⟨t, ha, hkeep⟩ := Cache.exists_ok_of_finding he (hfind.symm.trans hf')
    split at hkeep
    · rename_i keepable
      cases hkeep
      simp only [Bool.and_eq_true] at keepable
      obtain ⟨u, ho, -, hu⟩ := source text ha
      obtain ⟨text', ha', hm⟩ := found o (by rw [hf']; rfl)
      rw [ha] at ha'
      cases ha'
      have there : (s.turns keep (p ++ [τ])).stage h = some (.writing f) := by rw [hstep, stage_put, if_pos rfl]
      refine hd.put hf hstep ⟨e.reference, _, o, text, ?_, since_now (atFile_of_writing there), hf', hm, ?_⟩
      · rw [hstep, cache_put, Cache.reference?_of_some he]
      · rw [hstep, cache_put, ← hu keepable.1]
        exact ho
    · cases hkeep
  · rename_i hw
    refine hd.note hf hstep he (fun o ho => ?_) fun o text hf' => ?_
    · obtain ⟨text, ha, hm⟩ := found o ho
      obtain ⟨u, ho, hu, -⟩ := source text ha
      exact ⟨text, hm, u, ho, hu⟩
    · rw [hf'] at hw
      exact absurd rfl hw

lemma answer {load : Load} {a : Except Failure String} (hs : s.Sound) (hg : s.Genuine keep ts)
    (hb : s.Brief keep δ ts) (hp : p ++ [.event (.answer h a)] <+: ts) (hτ : τ = .event (.answer h a))
    (hstep : s.turns keep (p ++ [τ]) = (s.turns keep p).judge keep h ((s.turns keep p).cache.finding h load a))
    (loading : (s.turns keep p).stage h = some (.loading load)) : s.Dated keep δ (p ++ [τ]) := by
  have earlier : p <+: ts := (List.prefix_append p _).trans hp
  obtain ⟨e, he, -⟩ := (sound_turns hs p).waiting h _ loading
  refine hd.judge hf he hstep fun text htext => ?_
  subst htext hτ
  have nonneg := keep.nanos_nonneg
  cases load with
  | fetch q =>
    refine ⟨_, obtained_answer loading (Cache.reference?_of_some he), ?_, fun _ => rfl⟩
    omega
  | kept t =>
    obtain ⟨r, v, hr, since, recent⟩ := hd.stages h _ loading
    rw [Cache.reference?_of_some he] at hr
    cases hr
    obtain ⟨u, ho, hu⟩ := recent text (hg.read p h t text hp loading)
    have short := since.brief hb earlier
    refine ⟨u, ho.mono (List.prefix_append p _), ?_, fun keepable => by cases keepable⟩
    omega

lemma finish {f : Finding} (hs : s.Sound) (hb : s.Brief keep δ ts) (earlier : p <+: ts)
    (hstep : s.turns keep (p ++ [τ]) = (s.turns keep p).note keep h f)
    (writing : (s.turns keep p).stage h = some (.writing f)) : s.Dated keep δ (p ++ [τ]) := by
  obtain ⟨e, he, -⟩ := (sound_turns hs p).waiting h _ writing
  obtain ⟨r, v, o, text, hr, since, hfind, hm, ho⟩ := hd.stages h _ writing
  rw [Cache.reference?_of_some he] at hr
  cases hr
  have nonneg := keep.nanos_nonneg
  have short := since.brief hb earlier
  have obtained := ho.mono (List.prefix_append p [τ])
  refine hd.note hf hstep he (fun o' houtline => ?_) fun o' t hf' => ?_
  · rw [hfind] at houtline
    cases houtline
    exact ⟨text, hm, v, obtained, by omega⟩
  · rw [hfind] at hf'
    cases hf'
    exact ⟨v, obtained, short⟩

omit hf in
lemma step (hs : s.Sound) (hg : s.Genuine keep ts) (hb : s.Brief keep δ ts) (hp : p ++ [τ] <+: ts) :
    s.Dated keep δ (p ++ [τ]) := by
  have hf : Forward (p ++ [τ]) := hg.forward.mono hp.subset
  cases τ with
  | restart => exact hd.restart hf rfl
  | event ev =>
    have taken := (s.turns keep p).takes_step keep ev
    have hstep : s.turns keep (p ++ [.event ev]) = (s.turns keep p).step keep ev := turns_concat p _
    generalize (s.turns keep p).step keep ev = s' at taken hstep
    cases taken with
    | act a => exact hd.act hf rfl
    | start free plan => exact hd.start hf hstep free plan
    | miss => exact hd.put hf hstep trivial
    | answer loading => exact hd.answer hf hs hg hb hp rfl hstep loading
    | finish writing => exact hd.finish hf hs hb ((List.prefix_append p _).trans hp) hstep writing
    | nothing => exact hd.rest hf hstep

end Dated

/-- In a run that is genuine and brief no text is ever too old where it is. -/
lemma dated_of_brief (hs : s.Sound) (fresh : ∀ h, s.cache.entry? h = none ∧ s.stage h = none)
    (empty : ∀ name, s.cache.file? name = none) (hg : s.Genuine keep ts) (hb : s.Brief keep δ ts) (hp : p <+: ts) :
    s.Dated keep δ p := by
  induction p using List.reverseRecOn with
  | nil =>
    refine ⟨fun name text w hw => ?_, fun h t ht => ?_, fun h e he => ?_⟩
    · rw [turns_nil, empty] at hw
      cases hw
    · rw [turns_nil, (fresh h).2] at ht
      cases ht
    · rw [turns_nil, (fresh h).1] at he
      cases he
  | append_singleton p τ ih => exact (ih ((List.prefix_append p [τ]).trans hp)).step hs hg hb hp

lemma Dated.servesWithin {c₀ : Cache} (hd : (idle c₀).Dated keep δ p) (hn : Instant.earliest ≤ c₀.now)
    (hf : Forward p) :
    Cache.ServesWithin ((idle c₀).turns keep p).cache ((idle c₀).glimpses keep p) (2 * keep.nanos + 2 * δ) := by
  intro raw e he hav
  set c := ((idle c₀).turns keep p).cache
  obtain ⟨e₀, he₀, hav₀, worn⟩ := Action.available_of_apply (a := .getOrCreate raw) he hav
  obtain ⟨o, text, n, hm, hi, hx, u, ho, hu⟩ := hd.entries _ e₀ he₀ hav₀
  obtain ⟨r, q, hkey, hq, answered⟩ := ho.answered
  refine ⟨o, text, r, q, u, by rw [worn.reference, hm], by rw [worn.interface, worn.reference, hi],
    by rw [worn.reference]; exact hkey, hq, answered, ?_⟩
  -- what is found has not expired
  have live : c.now ≤ n.after keep.success := by
    have alive := c.not_expired_getOrCreate raw
    rw [Cache.expired_iff he, Cache.now_getOrCreate, Entry.isExpired, worn.expires, hx] at alive
    simp only [Option.any_some, decide_eq_true_eq] at alive
    exact Int.not_lt.mp alive
  have begun : Instant.earliest.nanos ≤ u.nanos := Int.le_trans hn (ho.le hf)
  rcases Instant.le_after_cases live with near | ⟨long, last⟩
  · unfold Retention.nanos at hu ⊢
    omega
  · -- the retention is longer than all time there is
    have span := Instant.latest_sub_earliest_le
    have last : c.now.nanos ≤ Instant.latest.nanos := last
    have more : (Instant.longestSeconds : Int) * Instant.nanosPerSecond ≤ keep.nanos := by
      unfold Retention.nanos Instant.nanosPerSecond
      omega
    have nonneg := keep.nanos_nonneg
    omega

end State

/-- Every program that may be started again is a run with restarts. Whenever an entry that is available is
found for a text, in any run with restarts from an empty directory in which the clock never goes back and
only the program writes to the directory, its interface is from a text that was fetched within twice the
success retention, and twice the longest time for which one file is being read or written. So it is in
every program, where that time is at most what it takes to resolve several entries at once. -/
theorem served_text_recent (keep : Retention) {now : Instant} (hn : Instant.earliest ≤ now)
    {store : Option ContentStore} (empty : ∀ name, Cache.file? { now, store } name = none) :
    let c : Cache := { now, store }
    (∀ jobs, ∃ ts, State.Performs keep c (Job.sightsAll keep c jobs) (Job.runAll keep c jobs) ts) ∧
    (∀ (δ : Nat) ts, (State.idle c).Genuine keep ts → (State.idle c).Brief keep δ ts →
      Cache.ServesWithin ((State.idle c).turns keep ts).cache ((State.idle c).glimpses keep ts)
        (2 * keep.nanos + 2 * δ)) ∧
    ∀ (δ : Nat) jobs, Steady (Job.sightsAll keep c jobs) → Along (Job.run keep) (Job.IsBrief keep δ) c jobs →
      (Job.runAll keep c jobs).ServesWithin (Job.sightsAll keep c jobs) (2 * keep.nanos + 2 * δ) := by
  intro c
  have served (δ : Nat) (ts : List Turn) (hg : (State.idle c).Genuine keep ts) (hb : (State.idle c).Brief keep δ ts) :
      Cache.ServesWithin ((State.idle c).turns keep ts).cache ((State.idle c).glimpses keep ts)
        (2 * keep.nanos + 2 * δ) := by
    have dated : (State.idle c).Dated keep δ ts := by
      refine State.dated_of_brief (State.Sound.initial now store) (fun h => ⟨?_, rfl⟩) empty hg hb List.prefix_rfl
      simp [c, State.idle, Cache.entry?]
    exact dated.servesWithin hn hg.forward
  refine ⟨fun jobs => ?_, served, fun δ jobs steady short => ?_⟩
  · obtain ⟨ts, performs, -⟩ := State.exists_performs keep c jobs
    exact ⟨ts, performs⟩
  · obtain ⟨ts, performs, brief⟩ := State.exists_performs keep c jobs
    have recent := served δ ts (performs.genuine steady) (brief δ steady short)
    rwa [performs.ends, performs.seen] at recent

/-! ### A slow writing -/

/-- A text is looked up and fetched, and then it is being written for some milliseconds. -/
def slowlyWritten (raw text : String) (ms : Int) : List Turn :=
  [.event (.act (.getOrCreate raw)), .event (.start 0), .event (.answer 0 (.ok text)),
    .event (.act (.advance ms)), .event (.finish 0)]

section slow

variable {keep : Retention} {now : Instant} {raw location text : String} {o : Outline} {ms : Int}

/-- There is only one answer. -/
lemma answer_slowlyWritten {p : List Turn} {h : Nat} {a : Except Failure String}
    (hp : p ++ [.event (.answer h a)] <+: slowlyWritten raw text ms) :
    p = [.event (.act (.getOrCreate raw)), .event (.start 0)] ∧ h = 0 ∧ a = .ok text := by
  obtain ⟨q, hq⟩ := hp
  unfold slowlyWritten at hq
  rcases p with _ | ⟨τ₁, _ | ⟨τ₂, _ | ⟨τ₃, _ | ⟨τ₄, _ | ⟨τ₅, p⟩⟩⟩⟩⟩ <;> simp_all

lemma forward_slowlyWritten (hms : 0 ≤ ms) : State.Forward (slowlyWritten raw text ms) := by
  intro ms' hm
  simp only [slowlyWritten, List.mem_cons, List.not_mem_nil, or_false, Turn.event.injEq, Event.act.injEq,
    Action.advance.injEq, reduceCtorEq, false_or] at hm
  rwa [hm]

lemma now_slowlyWritten (keep : Retention) (s : State) (raw text : String) (ms : Int) :
    (s.turns keep (slowlyWritten raw text ms)).cache.now = s.cache.now.addMillis ms := by
  simp [slowlyWritten, State.turns, State.turn, State.now_step, Action.now_apply]

lemma brief_slowlyWritten {δ : Nat} (hms : 0 ≤ ms) (hδ : ms * Instant.nanosPerMilli ≤ δ) (s : State) :
    s.Brief keep δ (slowlyWritten raw text ms) := by
  refine State.brief_of_short (forward_slowlyWritten hms) ?_
  have after : (s.cache.now.addMillis ms).nanos = s.cache.now.nanos + ms * Instant.nanosPerMilli := rfl
  rw [now_slowlyWritten, after]
  omega

variable (hs : Served raw location text o)

include hs

/-- The text is on its way when its entry has been made. -/
lemma turns_fetching (keep : Retention) (now : Instant) :
    (State.initial now (some {})).turns keep [.event (.act (.getOrCreate raw)), .event (.start 0)] =
      (State.idle (Cache.create { now, store := some {} } raw).2).put 0
        (some (.loading (.fetch ⟨.repository, location⟩))) := by
  have made : Cache.getOrCreate { now, store := some {} } raw = Cache.create { now, store := some {} } raw :=
    Cache.getOrCreate_of_none rfl
  have first : (State.initial now (some {})).turn keep (.event (.act (.getOrCreate raw))) =
      State.idle (Cache.create { now, store := some {} } raw).2 := by
    rw [← made]
    rfl
  simp only [State.turns, List.foldl_cons, List.foldl_nil, first]
  exact hs.step_start rfl keep fun name _ => rfl

lemma genuine_slowlyWritten (hms : 0 ≤ ms) :
    (State.initial now (some {})).Genuine keep (slowlyWritten raw text ms) := by
  refine ⟨forward_slowlyWritten hms, fun p h t t' hp hst => ?_⟩
  obtain ⟨rfl, rfl, -⟩ := answer_slowlyWritten hp
  rw [turns_fetching hs, State.stage_put, if_pos rfl] at hst
  cases hst

lemma cache_slowlyWritten (keep : Retention) (now : Instant) (ms : Int) :
    ((State.initial now (some {})).turns keep (slowlyWritten raw text ms)).cache =
      ((Cache.create { now, store := some {} } raw).2.advance ms).conclude keep 0 (.timely o (some text)) := by
  set c := (Cache.create { now, store := some {} } raw).2 with hc
  set f : Finding := .timely o (some text)
  have parts : slowlyWritten raw text ms =
      [.event (.act (.getOrCreate raw)), .event (.start 0)] ++
        [.event (.answer 0 (.ok text)), .event (.act (.advance ms)), .event (.finish 0)] := rfl
  have slot : c.get? raw = some 0 := by
    rw [hc, Cache.get?_create, if_pos rfl]
    rfl
  have moved : ((State.idle c).put 0 (some (.writing f))).step keep (.act (.advance ms)) =
      (State.idle (c.advance ms)).put 0 (some (.writing f)) := rfl
  rw [parts, State.turns_append, turns_fetching hs, ← hc]
  simp only [State.turns, List.foldl_cons, List.foldl_nil, State.turn]
  rw [hs.step_answer rfl keep slot rfl, moved, State.step_finish]
  rfl

/-- The entry is found when the text has been written. -/
lemma found_slowlyWritten (keep : Retention) (hn : now.addMillis ms ≤ Instant.latest) :
    let c := ((State.initial now (some {})).turns keep (slowlyWritten raw text ms)).cache
    ∃ e, Cache.entry? (c.getOrCreate raw).2 (c.getOrCreate raw).1 = some e ∧ e.available = true := by
  intro c
  set d := (Cache.create { now, store := some {} } raw).2.advance ms with hd
  have hc : c = d.conclude keep 0 (.timely o (some text)) := cache_slowlyWritten hs keep now ms
  have he : c.entry? 0 = some (d.concluded keep (Entry.fresh raw) (.timely o (some text))) := by
    rw [hc]
    exact Cache.entry?_conclude keep rfl _
  have slot : c.get? raw = some 0 := by
    rw [hc, Cache.get?, Cache.slots_conclude]
    exact (Cache.get?_create _ raw raw).trans (if_pos rfl)
  rcases c.getOrCreate_cases raw with ⟨k, hk, -, eq⟩ | ⟨none, -⟩ | ⟨k, hk, expired, -⟩
  · rw [slot] at hk
    cases hk
    rw [eq]
    exact ⟨_, he, rfl⟩
  · rw [slot] at none
    cases none
  · rw [slot] at hk
    cases hk
    have worn := expired _ he
    rw [hc, Cache.now_conclude] at worn
    simp only [Cache.concluded, Entry.resolved, Entry.isExpired, Option.any_some, decide_eq_true_eq] at worn
    exact absurd worn (Instant.not_after_lt hn keep.success)

/-- Where the writing takes longer than twice the success retention, what is served is older. -/
lemma not_servesWithin_slowlyWritten (hn : now.addMillis ms ≤ Instant.latest)
    (hlong : 2 * keep.nanos < ms * Instant.nanosPerMilli) :
    let s := State.initial now (some {})
    let ts := slowlyWritten raw text ms
    ¬ Cache.ServesWithin (s.turns keep ts).cache (s.glimpses keep ts) (2 * keep.nanos) := by
  intro s ts served
  obtain ⟨e, he, hav⟩ := found_slowlyWritten hs keep hn
  obtain ⟨o', text', r, q, u, -, -, -, -, answered, hu⟩ := served raw e he hav
  obtain ⟨p, k, hp, rfl⟩ := State.exists_of_answered answered
  obtain ⟨rfl, -, -⟩ := answer_slowlyWritten hp
  rw [now_slowlyWritten, turns_fetching hs] at hu
  have late : now.nanos + ms * Instant.nanosPerMilli - 2 * keep.nanos ≤ now.nanos := hu
  omega

end slow

/-- Nobody is seen to move the clock while a text is looked up and comes at once. -/
lemma steady_resolveText_always (keep : Retention) (c : Cache) (text raw : String) :
    Steady (Op.sights keep c (.resolveText (Reply.always text) raw)) := by
  intro ms hm
  rw [Op.sights, watch_resolveText] at hm
  rcases List.mem_cons.mp hm with looked | resolved
  · cases looked
  · exfalso
    revert resolved
    cases hp : (c.getOrCreate raw).2.plan? keep (c.getOrCreate raw).1 with
    | none => simp [Op.sights, watch_resolve_of_none _ hp]
    | some load => cases load <;> simp [Op.sights, watch_resolve_of_some _ hp, Reply.seen, Reply.sights, Reply.always]

/-- An action is fetched and written within a second, in a run, and by a program that is started again
then and resolves it once more. -/
theorem served_recent_slowly_written :
    let c : Cache := { now := ⟨0⟩, store := some {} }
    let s := State.idle c
    let ts := slowlyWritten "o/a@v1" "inputs:" 1000
    let d := (s.turns {} ts).cache
    let jobs : List Job := [.op (.resolveText (Reply.always "inputs:") "o/a@v1"), .restart,
      .op (.resolveText (Reply.always "inputs:") "o/a@v1")]
    Instant.earliest ≤ ⟨0⟩ ∧ (∀ name, c.file? name = none) ∧
      s.Genuine {} ts ∧ s.Brief {} 1000000000 ts ∧
      d.ServesWithin (s.glimpses {} ts) (2 * Retention.nanos {} + 2 * (1000000000 : Nat)) ∧
      (∃ e, Cache.entry? (d.getOrCreate "o/a@v1").2 (d.getOrCreate "o/a@v1").1 = some e ∧ e.available = true) ∧
      Steady (Job.sightsAll {} c jobs) ∧ Along (Job.run {}) (Job.IsBrief {} 0) c jobs ∧
      (Job.runAll {} c jobs).ServesWithin (Job.sightsAll {} c jobs) (2 * Retention.nanos {} + 2 * (0 : Nat)) := by
  intro c s ts d jobs
  obtain ⟨o, ho, -⟩ := exists_manifest? (by decide) actionInputs?_none
  have location : (Reference.ofText "o/a@v1").location? =
      some "https://raw.githubusercontent.com/o/a/v1/action.yml" := by cbv
  have served : Served "o/a@v1" "https://raw.githubusercontent.com/o/a/v1/action.yml" "inputs:" o :=
    ⟨location, by decide, ho _⟩
  have begun : Instant.earliest ≤ ⟨0⟩ := by decide +kernel
  have empty : ∀ name, c.file? name = none := fun name => rfl
  have genuine : s.Genuine {} ts := genuine_slowlyWritten served (by decide)
  have brief : s.Brief {} 1000000000 ts := brief_slowlyWritten (by decide) (by decide) _
  have steady : Steady (Job.sightsAll {} c jobs) := by
    intro ms hm
    rcases List.mem_append.mp hm with first | later
    · exact steady_resolveText_always {} c "inputs:" "o/a@v1" ms first
    · rcases List.mem_append.mp later with again | last
      · cases List.mem_singleton.mp again
      · rcases List.mem_append.mp last with second | none
        · exact steady_resolveText_always {} _ "inputs:" "o/a@v1" ms second
        · cases none
  have short : Along (Job.run {}) (Job.IsBrief {} 0) c jobs := ⟨trivial, trivial, trivial, trivial⟩
  obtain ⟨-, inRuns, inPrograms⟩ := served_text_recent {} begun empty
  exact ⟨begun, empty, genuine, brief, inRuns _ ts genuine brief, found_slowlyWritten served {} (by decide +kernel),
    steady, short, inPrograms 0 jobs steady short⟩

/-- An action is fetched, and the writing takes two days and a millisecond. -/
theorem not_served_recent_slowly_written :
    let s := State.initial ⟨0⟩ (some {})
    let ts := slowlyWritten "o/a@v1" "inputs:" 172800001
    s.Genuine {} ts ∧ ¬ Cache.ServesWithin (s.turns {} ts).cache (s.glimpses {} ts) (2 * Retention.nanos {}) := by
  obtain ⟨o, ho, -⟩ := exists_manifest? (by decide) actionInputs?_none
  have location : (Reference.ofText "o/a@v1").location? =
      some "https://raw.githubusercontent.com/o/a/v1/action.yml" := by cbv
  have served : Served "o/a@v1" "https://raw.githubusercontent.com/o/a/v1/action.yml" "inputs:" o :=
    ⟨location, by decide, ho _⟩
  exact ⟨genuine_slowlyWritten served (by decide),
    not_servesWithin_slowlyWritten served (by decide +kernel) (by decide)⟩

end Resolution

end CiWorkflow
