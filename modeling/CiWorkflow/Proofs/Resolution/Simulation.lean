import CiWorkflow.Proofs.Resolution.Program

/-!
# Programs are runs

Every program is a run of events (`State.yields_runAll`) that ends with the same cache, and of which
the same can be seen: what callers do are the actions of the run, a fetch is asked for where the
resolving of an entry begins, and it is answered where the answer comes. So what holds along all runs
holds of all programs.
-/

namespace CiWorkflow.Resolution

namespace State

/-! ### Runs of which something can be seen -/

/-- A kept text is read as it was when its entry came to the file. -/
def Plain (s : State) (e : Event) : Prop :=
  ∀ h a text, e = .answer h a → s.stage h = some (.loading (.kept text)) → a = .ok text

/-- Some run whose events meet a condition leads from one state to the other, and this can be seen
of it. -/
def YieldsBy (P : State → Event → Prop) (keep : Retention) (s : State) (seen : List Sight) (s' : State) : Prop :=
  ∃ es, Along (step keep) P s es ∧ s.sights keep es = seen ∧ s.run keep es = s'

/-- Some run in which kept texts are read as they are leads from one state to the other, and this can
be seen of it. -/
abbrev Yields (keep : Retention) (s : State) (seen : List Sight) (s' : State) : Prop := s.YieldsBy Plain keep seen s'

/-- A condition is met by all that happens to one entry that is resolved. -/
structure Usual (P : State → Event → Prop) : Prop where
  start : ∀ s h, P s (.start h)
  answer : ∀ s h load (reply : Reply), s.stage h = some (.loading load) → P s (.answer h (reply.answer load))
  finish : ∀ s h, P s (.finish h)

lemma Plain.act (s : State) (a : Action) : s.Plain (.act a) := fun _ _ _ he => nomatch he

lemma Plain.usual : Usual Plain := by
  constructor
  case start =>
    intro s h k a text he
    cases he
  case answer =>
    intro s h load reply hst k a text he hk
    cases he
    rw [hst] at hk
    cases hk
    rfl
  case finish =>
    intro s h k a text he
    cases he

variable {keep : Retention} {P : State → Event → Prop} {s s' s'' : State} {seen seen' : List Sight} {h : Nat}

lemma along_acts (hP : ∀ d a, P { s with cache := d } (.act a)) (as : List Action) :
    Along (step keep) P s (as.map .act) := by
  induction as generalizing s with
  | nil => trivial
  | cons a as ih => exact ⟨hP s.cache a, ih (s := { s with cache := a.apply s.cache }) hP⟩

namespace YieldsBy

lemma refl (s : State) : s.YieldsBy P keep [] s := ⟨[], trivial, rfl, rfl⟩

lemma trans (hy : s.YieldsBy P keep seen s') (hy' : s'.YieldsBy P keep seen' s'') :
    s.YieldsBy P keep (seen ++ seen') s'' := by
  obtain ⟨es, he, rfl, rfl⟩ := hy
  obtain ⟨fs, hf, rfl, rfl⟩ := hy'
  exact ⟨es ++ fs, he.append hf, collect_append _ s es fs, run_append keep s es fs⟩

lemma single {e : Event} (hP : P s e) : s.YieldsBy P keep (s.sight keep e) (s.step keep e) :=
  ⟨[e], ⟨hP, trivial⟩, List.append_nil _, rfl⟩

variable (keep) in
lemma acts (hP : ∀ d a, P { s with cache := d } (.act a)) (as : List Action) :
    s.YieldsBy P keep (as.map .did) { s with cache := Action.applyAll s.cache as } :=
  ⟨as.map .act, along_acts hP as, sights_acts keep s as, run_acts keep s as⟩

/-- What a step keeps holds in every state that is reached. -/
lemma induction {Q : State → Prop} (step : ∀ s e, Q s → Q (s.step keep e)) (hy : s.YieldsBy P keep seen s')
    (hs : Q s) : Q s' := by
  obtain ⟨es, -, -, rfl⟩ := hy
  exact run_induction step hs es

end YieldsBy

/-! ### One entry -/

lemma put_put (s : State) (t u : Option Stage) : (s.put h t).put h u = s.put h u := by
  unfold put
  congr 1
  funext k
  split <;> simp_all

lemma note_put (s : State) (t : Option Stage) (f : Finding) : (s.put h t).note keep h f = s.note keep h f := by
  unfold note
  rw [put_put]
  rfl

lemma note_idle (c : Cache) (f : Finding) : (idle c).note keep h f = idle (c.conclude keep h f) := by
  simp [idle, note, put]

/-- What is judged is noted in the end, and nothing is seen of it. -/
lemma yields_note (hP : Usual P) (s : State) (f : Finding) :
    (s.judge keep h f).YieldsBy P keep [] (s.note keep h f) := by
  unfold judge
  split
  · have st : (s.put h (some (.writing f))).stage h = some (.writing f) := by simp [stage_put]
    have ends : (s.put h (some (.writing f))).step keep (.finish h) = s.note keep h f := by
      simp only [step, st]
      exact note_put s _ f
    rw [← ends]
    exact YieldsBy.single (hP.finish _ h)
  · exact YieldsBy.refl _

/-- A load that is planned begins. -/
lemma yields_start (hP : Usual P) (hs : s.stage h = none) {load : Load} (hp : s.cache.plan? keep h = some load) :
    s.YieldsBy P keep (s.sight keep (.start h)) (s.put h (some (.loading load))) := by
  have start : s.step keep (.start h) = s.put h (some (.loading load)) := by simp [step, hs, hp]
  rw [← start]
  exact YieldsBy.single (hP.start s h)

variable (keep) in
/-- A load that is under way is answered and judged. -/
lemma yields_answer (hP : Usual P) {load : Load} (hs : s.stage h = some (.loading load)) (reply : Reply) :
    s.YieldsBy P keep (s.sight keep (.answer h (reply.answer load)))
      (s.judge keep h (s.cache.finding h load (reply.answer load))) := by
  have answered : s.step keep (.answer h (reply.answer load)) =
      s.judge keep h (s.cache.finding h load (reply.answer load)) := by
    simp only [step, hs, reply.isAnswer_answer, if_true]
  rw [← answered]
  exact YieldsBy.single (hP.answer s h load reply hs)

lemma judge_put (s : State) (t : Option Stage) (f : Finding) : (s.put h t).judge keep h f = s.judge keep h f := by
  unfold judge
  rw [put_put, note_put]

/-- A load that is planned is answered, in the cache as callers have left it by then. -/
lemma yields_judge (hP : Usual P) (hs : s.stage h = none) {load : Load} (hp : s.cache.plan? keep h = some load)
    (quiet : ∀ q, load = .fetch q → ∀ d a, P { s.put h (some (.loading load)) with cache := d } (.act a))
    (reply : Reply) :
    let mid := Action.applyAll s.cache (reply.acts load)
    s.YieldsBy P keep (reply.seen s.cache load)
      (State.judge keep { s with cache := mid } h (mid.finding h load (reply.answer load))) := by
  intro mid
  have begins := yields_start hP hs hp
  set t := s.put h (some (.loading load)) with ht
  have there : t.stage h = some (.loading load) := by simp [ht, stage_put]
  have same (d : Cache) (f : Finding) : State.judge keep { t with cache := d } h f =
      State.judge keep { s with cache := d } h f := judge_put { s with cache := d } _ f
  cases load with
  | kept text =>
    have answers := yields_answer keep hP there reply
    have unseen : s.sight keep (.start h) ++ t.sight keep (.answer h (reply.answer (.kept text))) = [] := by
      simp [sight, asked?, hs, hp, there]
    have whole := begins.trans answers
    rw [unseen] at whole
    rwa [ht, judge_put] at whole
  | fetch q =>
    have acts := YieldsBy.acts keep (quiet q rfl) (reply q).1
    have answers := yields_answer (s := { t with cache := mid }) keep hP there reply
    have seen : s.sight keep (.start h) ++ ((reply q).1.map .did ++
        sight keep { t with cache := mid } (.answer h (reply.answer (.fetch q)))) = reply.seen s.cache (.fetch q) := by
      have begun : s.sight keep (.start h) = [.asked q s.cache.now] := by simp [sight, asked?, hs, hp]
      have ended : sight keep { t with cache := mid } (.answer h (reply.answer (.fetch q))) =
          [.answered q (reply q).2 mid.now] := by simp only [sight, there]; rfl
      rw [begun, ended]
      rfl
    rw [← seen]
    have whole := begins.trans (acts.trans answers)
    rwa [same] at whole

end State

/-! ### Several entries at once -/

/-- The stage of a resolving of which something is left. -/
def Rest.stage : Rest → Stage
  | .reading text => .loading (.kept text)
  | .writing f => .writing f

namespace State

variable {keep : Retention} {c : Cache} {h : Nat} {rest : List (Nat × Rest)}

/-- Some resolvings are under way, and this is left of them. -/
def pending (c : Cache) (rest : List (Nat × Rest)) : State :=
  { cache := c, stage := fun k => (rest.lookup k).map Rest.stage }

lemma put_pending (hn : rest.lookup h = none) (r : Rest) :
    (pending c rest).put h (some r.stage) = pending c (rest ++ [(h, r)]) := by
  unfold pending put
  congr 1
  funext k
  rw [List.lookup_append]
  by_cases hk : k = h
  · subst hk
    simp [hn]
  · have hb : (k == h) = false := by simpa using hk
    simp [hk, List.lookup_cons, hb]

lemma put_none_pending (hn : rest.lookup h = none) : (pending c rest).put h none = pending c rest := by
  unfold pending put
  congr 1
  funext k
  by_cases hk : k = h
  · subst hk
    rw [if_pos rfl, hn]
    rfl
  · rw [if_neg hk]

lemma put_none_pending_cons (hn : rest.lookup h = none) (r : Rest) :
    (pending c ((h, r) :: rest)).put h none = pending c rest := by
  unfold pending put
  congr 1
  funext k
  by_cases hk : k = h
  · subst hk
    simp [hn]
  · have hb : (k == h) = false := by simpa using hk
    simp [hk, List.lookup_cons, hb]

/-- What is judged is left to be written, or is noted. -/
lemma judge_pending (hn : rest.lookup h = none) (f : Finding) :
    (pending c rest).judge keep h f =
      if f.isWriting then pending c (rest ++ [(h, .writing f)]) else pending (c.conclude keep h f) rest := by
  unfold judge
  split
  · rw [← put_pending hn]
    rfl
  · rw [note, put_none_pending hn]
    rfl

lemma note_pending_cons (hn : rest.lookup h = none) (r : Rest) (f : Finding) :
    (pending c ((h, r) :: rest)).note keep h f = pending (c.conclude keep h f) rest := by
  rw [note, put_none_pending_cons hn]
  rfl

lemma lookup_eq_none_of_nodup {r : Rest} (hd : (((h, r) :: rest).map Prod.fst).Nodup) :
    rest.lookup h = none := by
  rw [List.lookup_eq_none_iff]
  rintro ⟨k, u⟩ hk
  rw [List.map_cons, List.nodup_cons] at hd
  have hne : h ≠ k := by
    rintro rfl
    exact hd.1 (List.mem_map.mpr ⟨_, hk, rfl⟩)
  simpa using hne

lemma nodup_append (hd : (rest.map Prod.fst).Nodup) (hn : rest.lookup h = none) (r : Rest) :
    ((rest ++ [(h, r)]).map Prod.fst).Nodup := by
  rw [List.map_append, List.nodup_append]
  refine ⟨hd, by simp, ?_⟩
  intro k hk k' hk' he
  obtain ⟨⟨k, u⟩, hm, rfl⟩ := List.mem_map.mp hk
  have hb := List.lookup_eq_none_iff.mp hn _ hm
  simp_all

end State

section resolveAll

variable (keep : Retention) (reply : Reply) {h : Nat} {rest : List (Nat × Rest)} {c : Cache}

/-- A resolving whose text was kept is left to read it. -/
lemma yields_begin_kept (hl : rest.lookup h = none) {text : String} (hp : c.plan? keep h = some (.kept text)) :
    (State.pending c rest).Yields keep [] (State.pending c (rest ++ [(h, .reading text)])) := by
  have free : (State.pending c rest).stage h = none := by simp [State.pending, hl]
  have plan : (State.pending c rest).cache.plan? keep h = some (.kept text) := hp
  have unseen : (State.pending c rest).sight keep (.start h) = [] := by simp [State.sight, State.asked?, free, plan]
  have begins := State.yields_start State.Plain.usual free plan
  rw [unseen] at begins
  rw [← State.put_pending hl]
  exact begins

/-- What is left of a resolving whose text had to be fetched, and the cache. -/
lemma yields_begin_fetch (hl : rest.lookup h = none) {q : Request} (hp : c.plan? keep h = some (.fetch q)) :
    let mid := Action.applyAll c (reply q).1
    let f := mid.finding h (.fetch q) (reply q).2
    (State.pending c rest).Yields keep (reply.sights c q)
      (if f.isWriting then State.pending mid (rest ++ [(h, .writing f)])
        else State.pending (mid.conclude keep h f) rest) := by
  intro mid f
  have free : (State.pending c rest).stage h = none := by simp [State.pending, hl]
  have judged : (State.pending c rest).Yields keep (reply.sights c q) ((State.pending mid rest).judge keep h f) :=
    State.yields_judge State.Plain.usual free hp (fun _ _ _ a => State.Plain.act _ a) reply
  rwa [State.judge_pending hl] at judged

/-- Beginning with several entries is a run, and of each entry at most one resolving is left. -/
lemma yields_begun (hs : List Nat) (rest : List (Nat × Rest)) (x : Recorded (List Sight))
    (hd : (rest.map Prod.fst).Nodup) :
    ∃ rest' d seen, x.run (beginAll keep reply.watched hs rest) = (rest', d, x.2 ++ seen) ∧
      (State.pending x.1 rest).Yields keep seen (State.pending d rest') ∧ (rest'.map Prod.fst).Nodup := by
  induction hs generalizing rest x with
  | nil => exact ⟨rest, x.1, [], by rw [List.append_nil]; rfl, State.YieldsBy.refl _, hd⟩
  | cons h hs ih =>
    cases hl : rest.lookup h with
    | some r =>
      rw [Recorded.run_beginAll_of_left hs (by rw [hl]; rfl)]
      exact ih rest x hd
    | none =>
      cases hp : x.1.plan? keep h with
      | none =>
        rw [Recorded.run_beginAll_of_none hs hl hp]
        exact ih rest x hd
      | some load =>
        cases load with
        | kept text =>
          obtain ⟨rest', d, seen, hx, hy, hd'⟩ := ih (rest ++ [(h, .reading text)]) x (State.nodup_append hd hl _)
          rw [Recorded.run_beginAll_of_kept hs hl hp]
          exact ⟨rest', d, seen, hx, (yields_begin_kept keep hl hp).trans hy, hd'⟩
        | fetch q =>
          have one := yields_begin_fetch keep reply hl hp
          rw [Recorded.run_beginAll_of_fetch hs hl hp (reply.run_watched x q)]
          dsimp only at one ⊢
          set mid := Action.applyAll x.1 (reply q).1
          split
          · rename_i hw
            rw [if_pos hw] at one
            obtain ⟨rest', d, seen, hx, hy, hd'⟩ :=
              ih (rest ++ [(h, .writing _)]) (mid, x.2 ++ reply.sights x.1 q) (State.nodup_append hd hl _)
            exact ⟨rest', d, _, by rw [hx, List.append_assoc], one.trans hy, hd'⟩
          · rename_i hw
            rw [if_neg hw] at one
            obtain ⟨rest', d, seen, hx, hy, hd'⟩ := ih rest (mid.conclude keep h _, x.2 ++ reply.sights x.1 q) hd
            exact ⟨rest', d, _, by rw [hx, List.append_assoc], one.trans hy, hd'⟩

/-- What is left of one resolving is done, and nothing is seen of it. -/
lemma yields_finish (hn : rest.lookup h = none) (r : Rest) :
    (State.pending c ((h, r) :: rest)).Yields keep [] (State.pending (c.finish keep h r) rest) := by
  set s := State.pending c ((h, r) :: rest) with hs
  have ends (f : Finding) : s.note keep h f = State.pending (c.conclude keep h f) rest :=
    State.note_pending_cons hn r f
  cases r with
  | reading text =>
    have st : s.stage h = some (.loading (.kept text)) := by simp [hs, State.pending, Rest.stage]
    have judged : s.Yields keep [] (s.judge keep h (c.finding h (.kept text) (.ok text))) := by
      have answers := State.yields_answer keep State.Plain.usual st (Reply.always text)
      have unseen : s.sight keep (.answer h ((Reply.always text).answer (.kept text))) = [] := by
        simp [State.sight, st]
      rw [unseen] at answers
      exact answers
    have noted := judged.trans (State.yields_note State.Plain.usual s _)
    rwa [ends] at noted
  | writing f =>
    have st : s.stage h = some (.writing f) := by simp [hs, State.pending, Rest.stage]
    have ends : s.step keep (.finish h) = State.pending (c.finish keep h (.writing f)) rest := by
      simp only [State.step, st]
      exact ends f
    rw [← ends]
    exact State.YieldsBy.single (State.Plain.usual.finish s h)

/-- What is left is done in a run of which nothing is seen. -/
lemma yields_finished (rest : List (Nat × Rest)) (c : Cache) (hd : (rest.map Prod.fst).Nodup) :
    (State.pending c rest).Yields keep [] (State.idle (rest.foldl (fun c (h, r) => c.finish keep h r) c)) := by
  induction rest generalizing c with
  | nil => exact State.YieldsBy.refl _
  | cons x rest ih =>
    obtain ⟨h, r⟩ := x
    have hn : rest.lookup h = none := State.lookup_eq_none_of_nodup hd
    rw [List.map_cons, List.nodup_cons] at hd
    exact (yields_finish keep hn r).trans (ih (c.finish keep h r) hd.2)

end resolveAll

/-! ### Programs -/

namespace State

variable {keep : Retention} {P : State → Event → Prop}

lemma yields_resolve (hP : Usual P) (quiet : ∀ c h q a, P ((idle c).put h (some (.loading (.fetch q)))) (.act a))
    (c : Cache) (reply : Reply) (h : Nat) :
    (idle c).YieldsBy P keep (Op.sights keep c (.resolve reply h)) (idle (Op.run keep c (.resolve reply h))) := by
  rw [Op.sights, Op.run]
  cases hp : c.plan? keep h with
  | none =>
    rw [watch_resolve_of_none reply hp]
    exact YieldsBy.refl _
  | some load =>
    rw [watch_resolve_of_some reply hp]
    have still (q : Request) (hq : load = .fetch q) (d : Cache) (a : Action) :
        P { (idle c).put h (some (.loading load)) with cache := d } (.act a) := by
      subst hq
      exact quiet d h q a
    have judged := yields_judge (s := idle c) hP rfl hp still reply
    have noted := judged.trans (yields_note hP _ _)
    rw [List.append_nil] at noted
    have ends (d : Cache) (f : Finding) : (idle d).note keep h f = idle (d.conclude keep h f) := note_idle d f
    exact (ends _ _) ▸ noted

/-- Every operation is a run that ends with the same cache, and of which the same is seen. -/
lemma yields_op (c : Cache) (op : Op) : (idle c).Yields keep (op.sights keep c) (idle (op.run keep c)) := by
  have still (c : Cache) (h : Nat) (q : Request) (a : Action) :
      Plain ((idle c).put h (some (.loading (.fetch q)))) (.act a) := Plain.act _ a
  cases op with
  | act a => exact YieldsBy.single (Plain.act _ a)
  | resolve reply h => exact yields_resolve Plain.usual still c reply h
  | resolveText reply raw =>
    rw [Op.sights, Op.run, watch_resolveText]
    have looked : (idle c).Yields keep [.did (.getOrCreate raw)] (idle (c.getOrCreate raw).2) :=
      YieldsBy.single (Plain.act _ _)
    exact looked.trans (yields_resolve Plain.usual still _ reply _)
  | resolveAll reply hs =>
    obtain ⟨rest, d, seen, hx, begins, hd⟩ := yields_begun keep reply hs [] (c, []) (by simp)
    have whole := begins.trans (yields_finished keep rest d hd)
    rw [Op.sights, Op.run, Op.watch, Recorded.run_resolveAll, hx]
    rwa [List.append_nil] at whole

/-- Every program is a run that ends with the same cache, and of which the same is seen. -/
theorem yields_runAll (c : Cache) (ops : List Op) :
    (idle c).Yields keep (Op.sightsAll keep c ops) (idle (Op.runAll keep c ops)) := by
  induction ops generalizing c with
  | nil => exact YieldsBy.refl _
  | cons op ops ih => exact (yields_op c op).trans (ih (op.run keep c))

end State

end CiWorkflow.Resolution
