import CiWorkflow.Proofs.Resolution.Backing
import CiWorkflow.Proofs.Resolution.Interleaving

/-!
# The order of resolving

To resolve entries one after another, and to resolve them at once, are two ways in which the calls
for them can interleave. So it comes to the same, in whichever order the entries are named.
-/

namespace CiWorkflow.Resolution

namespace Gated

variable (src : Source) (keep : Retention)

/-- Moves that can happen lead from one state to another, and meanwhile calls come for the entries of a
list, and these requests are made. -/
def Leads (g : Gated) (hs : List Nat) (asked : List Request) (g' : Gated) : Prop :=
  ∃ ms, g.Follows src keep ms ∧ ms.filterMap Move.called? = hs ∧ (g.asks keep ms).map Prod.snd = asked ∧
    g.run keep ms = g'

/-- What a load asks for. -/
def requests : Load → List Request
  | .kept _ => []
  | .fetch q => [q]

variable {src : Source} {keep : Retention} {g g' g'' : Gated} {s : State} {w : Nat → Nat} {hs hs' : List Nat}
  {h : Nat} {asked asked' : List Request}

@[simp] lemma asks_nil (g : Gated) : g.asks keep [] = [] := rfl

lemma asks_append (g : Gated) (ms ns : List Move) :
    g.asks keep (ms ++ ns) = g.asks keep ms ++ (g.run keep ms).asks keep ns := by
  induction ms generalizing g with
  | nil => rfl
  | cons m ms ih => rw [List.cons_append, asks_cons, asks_cons, ih, List.append_assoc, run_cons]

namespace Leads

lemma refl (g : Gated) : Leads src keep g [] [] g := ⟨[], trivial, rfl, rfl, rfl⟩

lemma trans (hl : Leads src keep g hs asked g') (hl' : Leads src keep g' hs' asked' g'') :
    Leads src keep g (hs ++ hs') (asked ++ asked') g'' := by
  obtain ⟨ms, hm, rfl, rfl, rfl⟩ := hl
  obtain ⟨ns, hn, rfl, rfl, rfl⟩ := hl'
  refine ⟨ms ++ ns, hm.append hn, List.filterMap_append, ?_, run_append keep g ms ns⟩
  rw [asks_append, List.map_append]

/-- What happens to the calls happens to what has come of them. -/
lemma progress {c : Cache} (hc : c.Grounded) {called D : Set Nat} (hl : Leads src keep g hs asked g')
    (hp : Progress src keep c called D g) :
    ∃ D', Progress src keep c {k | k ∈ called ∨ k ∈ hs} D' g' ∧ Onward D g D' g' := by
  obtain ⟨ms, hm, rfl, -, rfl⟩ := hl
  obtain ⟨D', done, onward, -⟩ := hp.run hc hm
  exact ⟨D', done, onward⟩

/-- A call for an entry that is due begins with it at once where nobody else is inside. -/
lemma begins (hst : s.stage h = none) {load : Load} (hp : s.cache.plan? keep h = some load) :
    Leads src keep ⟨s, w⟩ [h] (requests load) ⟨s.put h (some (.loading load)), w⟩ := by
  have due : s.cache.isDue h = true := by rw [← Cache.isSome_plan? keep, hp]; rfl
  refine ⟨[.call h, .enter h], ⟨trivial, trivial, trivial⟩, rfl, ?_, ?_⟩
  · cases load <;> simp [asks_cons, asked?, event?, step, due, hst, State.asked?, hp, requests]
  · simp [step, due, hst, State.step, hp]

/-- A call for an entry that is not due does nothing. -/
lemma ignored (hp : s.cache.plan? keep h = none) : Leads src keep ⟨s, w⟩ [h] [] ⟨s, w⟩ := by
  have due : s.cache.isDue h = false := by rw [← Cache.isSome_plan? keep, hp]; rfl
  refine ⟨[.call h], ⟨trivial, trivial⟩, rfl, rfl, ?_⟩
  simp [step, due]

variable (src keep) in
lemma waits (s : State) (w : Nat → Nat) (h : Nat) :
    ∃ w', Leads src keep ⟨s, w⟩ [h] [] ⟨s, w'⟩ ∧ ∀ k, w k < w' k → k = h := by
  by_cases due : s.cache.isDue h = true
  · refine ⟨Function.update w h (w h + 1), ⟨[.call h], ⟨trivial, trivial⟩, rfl, rfl, by simp [step, due]⟩, ?_⟩
    intro k hk
    by_contra hkh
    rw [Function.update_of_ne hkh] at hk
    exact absurd hk (Nat.lt_irrefl _)
  · refine ⟨w, ⟨[.call h], ⟨trivial, trivial⟩, rfl, rfl, by simp [step, due]⟩, ?_⟩
    exact fun k hk => absurd hk (Nat.lt_irrefl _)

/-- What is judged is noted in the end. -/
lemma notes (f : Finding) : Leads src keep ⟨s.judge keep h f, w⟩ [] [] ⟨s.note keep h f, w⟩ := by
  unfold State.judge
  split
  · refine ⟨[.other (.finish h)], ⟨trivial, trivial⟩, rfl, rfl, ?_⟩
    have hst : (s.put h (some (.writing f))).stage h = some (.writing f) := by simp [State.stage_put]
    simp only [run_cons, run_nil, step, State.step, hst]
    rw [State.note_put]
  · exact refl _

lemma answers {load : Load} (hst : s.stage h = some (.loading load)) {a : Except Failure String}
    (ha : load.isAnswer a = true) (hal : Gated.Allows src ⟨s, w⟩ (.other (.answer h a))) :
    Leads src keep ⟨s, w⟩ [] [] ⟨s.judge keep h (s.cache.finding h load a), w⟩ := by
  refine ⟨[.other (.answer h a)], ⟨hal, trivial⟩, rfl, rfl, ?_⟩
  simp [step, State.step, hst, ha]

/-- What is fetched is judged. -/
lemma fetches (hst : s.stage h = none) {q : Request} (hp : s.cache.plan? keep h = some (.fetch q)) :
    Leads src keep ⟨s, w⟩ [h] [q] ⟨s.judge keep h (s.cache.finding h (.fetch q) (src q)), w⟩ := by
  set t := s.put h (some (.loading (.fetch q))) with ht
  have there : t.stage h = some (.loading (.fetch q)) := by simp [ht, State.stage_put]
  have allowed : Gated.Allows src ⟨t, w⟩ (.other (.answer h (src q))) := by simp [Allows, there]
  have answered : Leads src keep ⟨t, w⟩ [] [] ⟨t.judge keep h (t.cache.finding h (.fetch q) (src q)), w⟩ :=
    answers there rfl allowed
  have same : t.judge keep h (t.cache.finding h (.fetch q) (src q)) =
      s.judge keep h (s.cache.finding h (.fetch q) (src q)) := by
    rw [ht, State.cache_put]
    unfold State.judge
    rw [State.put_put, State.note_put]
  rw [same] at answered
  exact (begins hst hp).trans answered

/-- Those who wait for entries that are not due pass one by one. -/
lemma passes {d : Cache} (hd : d.isDue h = false) (n : Nat) (hn : w h = n) :
    Leads src keep ⟨State.idle d, w⟩ [] [] ⟨State.idle d, Function.update w h 0⟩ := by
  induction n generalizing w with
  | zero =>
    rw [← hn, Function.update_eq_self]
    exact refl _
  | succ n ih =>
    have plan : (State.idle d).cache.plan? keep h = none := by
      rw [← Option.isNone_iff_eq_none, ← Option.not_isSome, Cache.isSome_plan?]
      simpa [State.idle] using hd
    have unasked : (State.idle d).asked? keep (.start h) = none := by
      simp only [State.asked?, plan]
      rfl
    have one : Leads src keep ⟨State.idle d, w⟩ [] [] ⟨State.idle d, Function.update w h n⟩ := by
      have rests : (State.idle d).step keep (.start h) = State.idle d := by
        simp only [State.step, plan]
        split <;> simp_all
      refine ⟨[.enter h], ⟨trivial, trivial⟩, rfl, ?_, ?_⟩
      · have free : (State.idle d).stage h = none := rfl
        simp [asks_cons, asked?, event?, hn, free, unasked]
      · simp only [run_cons, run_nil, step, rests, hn]
        simp [State.idle]
    have rest := ih (w := Function.update w h n) (by simp)
    rw [Function.update_idem] at rest
    exact one.trans rest

lemma drains {d : Cache} (L : List Nat) (hL : ∀ k, 0 < w k → k ∈ L) (hd : ∀ k, 0 < w k → d.isDue k = false) :
    Leads src keep ⟨State.idle d, w⟩ [] [] (idle d) := by
  induction L generalizing w with
  | nil =>
    have nobody : w = fun _ => 0 := by
      funext k
      have := hL k
      by_contra hne
      exact absurd (this (Nat.pos_of_ne_zero hne)) List.not_mem_nil
    rw [nobody]
    exact refl _
  | cons h L ih =>
    have fewer (k : Nat) (hk : 0 < Function.update w h 0 k) : k ≠ h ∧ 0 < w k := by
      by_cases hkh : k = h
      · subst hkh
        simp at hk
      · rw [Function.update_of_ne hkh] at hk
        exact ⟨hkh, hk⟩
    have first : Leads src keep ⟨State.idle d, w⟩ [] [] ⟨State.idle d, Function.update w h 0⟩ := by
      by_cases hw : 0 < w h
      · exact passes (hd h hw) _ rfl
      · have same : Function.update w h 0 = w := by
          have zero : 0 = w h := by omega
          rw [zero, Function.update_eq_self]
        rw [same]
        exact refl _
    refine first.trans (ih (fun k hk => ?_) fun k hk => hd k (fewer k hk).2)
    exact (List.mem_cons.mp (hL k (fewer k hk).2)).resolve_left (fewer k hk).1

/-! ### Several entries at once -/

section batch

variable {rest : List (Nat × Rest)}

variable (src keep) in
/-- Beginning with several entries is calling for each of them. Of what was left before something is left
afterwards, and who waits does so for an entry of which something is left. -/
def Begun (hs : List Nat) (rest : List (Nat × Rest)) (x : Recorded (List Request)) (w : Nat → Nat) : Prop :=
  ∃ rest' d w' asked, x.run (beginAll keep src.fetch hs rest) = (rest', d, x.2 ++ asked) ∧
    Leads src keep ⟨State.pending x.1 rest, w⟩ hs asked ⟨State.pending d rest', w'⟩ ∧ (rest'.map Prod.fst).Nodup ∧
    (∀ k, (rest.lookup k).isSome = true → (rest'.lookup k).isSome = true) ∧
    ∀ k, w k < w' k → (rest'.lookup k).isSome = true

/-- The first call, and then the others. -/
lemma Begun.cons {rest₁ : List (Nat × Rest)} {x y : Recorded (List Request)} {w₁ : Nat → Nat} {asked₁ : List Request}
    (hb : Begun src keep hs rest₁ y w₁)
    (ran : x.run (beginAll keep src.fetch (h :: hs) rest) = y.run (beginAll keep src.fetch hs rest₁))
    (recorded : y.2 = x.2 ++ asked₁)
    (first : Leads src keep ⟨State.pending x.1 rest, w⟩ [h] asked₁ ⟨State.pending y.1 rest₁, w₁⟩)
    (grown : ∀ k, (rest.lookup k).isSome = true → (rest₁.lookup k).isSome = true)
    (more : ∀ k, w k < w₁ k → (rest₁.lookup k).isSome = true) : Begun src keep (h :: hs) rest x w := by
  obtain ⟨rest', d, w', asked, others, then_, nodup, kept, fresh⟩ := hb
  refine ⟨rest', d, w', asked₁ ++ asked, ?_, first.trans then_, nodup, fun k hk => kept k (grown k hk), fun k hk => ?_⟩
  · rw [ran, others, recorded, List.append_assoc]
  · by_cases hk₁ : w k < w₁ k
    · exact kept k (more k hk₁)
    · exact fresh k (by omega)

lemma begun (hs : List Nat) (rest : List (Nat × Rest)) (x : Recorded (List Request)) (w : Nat → Nat)
    (hd : (rest.map Prod.fst).Nodup) : Begun src keep hs rest x w := by
  induction hs generalizing rest x w with
  | nil =>
    refine ⟨rest, x.1, w, [], ?_, refl _, hd, fun k hk => hk, fun k hk => absurd hk (Nat.lt_irrefl _)⟩
    rw [List.append_nil]
    rfl
  | cons h hs ih =>
    have nobody (k : Nat) (rest : List (Nat × Rest)) (hk : w k < w k) : (rest.lookup k).isSome = true :=
      absurd hk (Nat.lt_irrefl _)
    have grown (r : Rest) (k : Nat) (hk : (rest.lookup k).isSome = true) :
        ((rest ++ [(h, r)]).lookup k).isSome = true := by
      rw [List.lookup_append]
      simp [hk]
    cases hl : rest.lookup h with
    | some r =>
      have left : (rest.lookup h).isSome = true := by rw [hl]; rfl
      obtain ⟨w₁, first, more⟩ := waits src keep (State.pending x.1 rest) w h
      exact (ih rest x w₁ hd).cons (Recorded.run_beginAll_of_left hs left) (List.append_nil _).symm first
        (fun k hk => hk) fun k hk => more k hk ▸ left
    | none =>
      have free : (State.pending x.1 rest).stage h = none := by simp [State.pending, hl]
      cases hp : x.1.plan? keep h with
      | none =>
        exact (ih rest x w hd).cons (Recorded.run_beginAll_of_none hs hl hp) (List.append_nil _).symm (ignored hp)
          (fun k hk => hk) fun k => nobody k rest
      | some load =>
        cases load with
        | kept text =>
          have first : Leads src keep ⟨State.pending x.1 rest, w⟩ [h] []
              ⟨State.pending x.1 (rest ++ [(h, .reading text)]), w⟩ := by
            rw [← State.put_pending hl]
            exact begins free hp
          exact (ih _ x w (State.nodup_append hd hl _)).cons (Recorded.run_beginAll_of_kept hs hl hp)
            (List.append_nil _).symm first (grown _) fun k => nobody k _
        | fetch q =>
          set f := x.1.finding h (.fetch q) (src q) with hf
          have ran := Recorded.run_beginAll_of_fetch hs hl hp (src.run_fetch x q)
          have first : Leads src keep ⟨State.pending x.1 rest, w⟩ [h] [q]
              ⟨(State.pending x.1 rest).judge keep h f, w⟩ := fetches free hp
          rw [State.judge_pending hl] at first
          by_cases hw : f.isWriting = true
          · rw [if_pos hw] at first
            exact (ih _ (x.1, x.2 ++ [q]) w (State.nodup_append hd hl _)).cons (ran.trans (if_pos hw)) rfl first
              (grown _) fun k => nobody k _
          · rw [if_neg hw] at first
            exact (ih rest (x.1.conclude keep h f, x.2 ++ [q]) w hd).cons (ran.trans (if_neg hw)) rfl first
              (fun k hk => hk) fun k => nobody k rest

/-- What is left of one entry is done. -/
lemma finishes {c d : Cache} {r : Rest} {called D : Set Nat} (hn : rest.lookup h = none)
    (hp : Progress src keep c called D ⟨State.pending d ((h, r) :: rest), w⟩) :
    Leads src keep ⟨State.pending d ((h, r) :: rest), w⟩ [] [] ⟨State.pending (d.finish keep h r) rest, w⟩ := by
  cases r with
  | reading text =>
    have hst : (State.pending d ((h, .reading text) :: rest)).stage h = some (.loading (.kept text)) := by
      simp [State.pending, Rest.stage]
    -- the text is still in the file
    obtain ⟨-, -, e, he, -, kept, -⟩ := hp.inHand h _ hst
    have hx := (hp.entry?_of_not_mem (hp.not_mem_of_stage hst)).trans he
    have there : (State.pending d ((h, .reading text) :: rest)).cache.textOf? h = some text := by
      rw [Cache.textOf?, Cache.reference?_of_some hx]
      exact kept
    have allowed : Gated.Allows src ⟨State.pending d ((h, .reading text) :: rest), w⟩
        (.other (.answer h (.ok text))) := by
      simp only [Allows, hst]
      exact ⟨text, there, rfl⟩
    have judged : Leads src keep _ [] [] ⟨(State.pending d ((h, .reading text) :: rest)).note keep h _, w⟩ :=
      (answers hst rfl allowed).trans (notes _)
    rw [State.note_pending_cons hn] at judged
    exact judged
  | writing f =>
    have hst : (State.pending d ((h, .writing f) :: rest)).stage h = some (.writing f) := by
      simp [State.pending, Rest.stage]
    refine ⟨[.other (.finish h)], ⟨trivial, trivial⟩, rfl, rfl, ?_⟩
    simp only [run_cons, run_nil, step, State.step, hst]
    rw [State.note_pending_cons hn]
    rfl

/-- What is left is done. -/
lemma finished {c d : Cache} (hc : c.Grounded) {called D : Set Nat} (hd : (rest.map Prod.fst).Nodup)
    (hp : Progress src keep c called D ⟨State.pending d rest, w⟩) :
    Leads src keep ⟨State.pending d rest, w⟩ [] []
      ⟨State.idle (rest.foldl (fun c (h, r) => c.finish keep h r) d), w⟩ := by
  induction rest generalizing d D called with
  | nil => exact refl _
  | cons p rest ih =>
    have first := finishes (State.lookup_eq_none_of_nodup hd) hp
    obtain ⟨D', done, -⟩ := first.progress hc hp
    rw [List.map_cons, List.nodup_cons] at hd
    exact first.trans (ih hd.2 done)

/-- To resolve several entries at once is to call for each of them, and to wait until all calls have
come to their end. -/
lemma resolveAll {c : Cache} (hc : c.Grounded) {x : Recorded (List Request)} {called D : Set Nat}
    (hp : Progress src keep c called D (idle x.1)) (hs : List Nat) :
    ∃ d asked, Call.run keep src x (.resolveAll hs) = (d, x.2 ++ asked) ∧
      Leads src keep (idle x.1) hs asked (idle d) := by
  obtain ⟨rest, d, w, asked, hb, begins, nodup, -, fresh⟩ : Begun src keep hs [] x fun _ => 0 :=
    begun hs [] x _ List.nodup_nil
  have first : Leads src keep (idle x.1) hs asked ⟨State.pending d rest, w⟩ := begins
  obtain ⟨D₁, progress₁, -⟩ := first.progress hc hp
  set d' := rest.foldl (fun c (h, r) => c.finish keep h r) d with hd'
  have second : Leads src keep ⟨State.pending d rest, w⟩ [] [] ⟨State.idle d', w⟩ := finished hc nodup progress₁
  obtain ⟨D₂, progress₂, taken⟩ := second.progress hc progress₁
  -- who waits does so at the gate of an entry that is resolved by now
  have third : Leads src keep ⟨State.idle d', w⟩ [] [] (idle d') := by
    refine drains (rest.map Prod.fst) (fun k hk => ?_) fun k hk => ?_
    · obtain ⟨r, hr⟩ := Option.isSome_iff_exists.mp (fresh k hk)
      obtain ⟨before, after, rfl, -⟩ := List.lookup_eq_some_iff.mp hr
      simp
    · have inside : (State.pending d rest).stage k ≠ none := by
        obtain ⟨r, hr⟩ := Option.isSome_iff_exists.mp (fresh k hk)
        simp [State.pending, hr]
      have done : k ∈ D₂ := (taken k (Or.inr inside)).resolve_right fun hne => hne rfl
      exact progress₂.resolved.isDue_of_mem hc done
  have whole := (first.trans second).trans third
  simp only [List.append_nil] at whole
  refine ⟨d', asked, ?_, whole⟩
  rw [Call.run, Recorded.run_resolveAll, hb]

end batch

/-! ### One entry after another -/

/-- To resolve an entry is to resolve it and no other at once. -/
lemma resolve_eq_resolveAll (x : Recorded (List Request)) (h : Nat) :
    Call.run keep src x (.resolve h) = Call.run keep src x (.resolveAll [h]) := by
  rw [Call.run, Call.run, Recorded.run_resolveAll]
  cases hp : x.1.plan? keep h with
  | none =>
    rw [Recorded.run_resolve_of_none hp, Recorded.run_beginAll_of_none [] rfl hp]
    rfl
  | some load =>
    cases load with
    | kept text =>
      rw [Recorded.run_resolve_of_kept hp, Recorded.run_beginAll_of_kept [] rfl hp]
      rfl
    | fetch q =>
      have fetched := src.run_fetch x q
      rw [Recorded.run_resolve_of_fetch hp fetched, Recorded.run_beginAll_of_fetch [] rfl hp fetched]
      dsimp only
      split <;> rfl

/-- To resolve entries one after another is to call for each of them when the call before has come to
its end. -/
lemma inTurn {c : Cache} (hc : c.Grounded) {x : Recorded (List Request)} {called D : Set Nat}
    (hp : Progress src keep c called D (idle x.1)) (hs : List Nat) :
    ∃ d asked, Call.runAll keep src x (hs.map .resolve) = (d, x.2 ++ asked) ∧
      Leads src keep (idle x.1) hs asked (idle d) := by
  induction hs generalizing called D x with
  | nil => exact ⟨x.1, [], by rw [List.append_nil]; rfl, refl _⟩
  | cons h hs ih =>
    obtain ⟨d₁, asked₁, ran, first⟩ := resolveAll hc hp [h]
    obtain ⟨D', done, -⟩ := first.progress hc hp
    obtain ⟨d, asked, rest, then_⟩ := ih (x := (d₁, x.2 ++ asked₁)) done
    refine ⟨d, asked₁ ++ asked, ?_, first.trans then_⟩
    rw [List.map_cons, Call.runAll, List.foldl_cons, resolve_eq_resolveAll, ran, ← List.append_assoc]
    exact rest

/-- What leads from nothing under way to nothing under way is an interleaving. -/
lemma interleaves {c d : Cache} (hl : Leads src keep (idle c) hs asked (idle d)) (hp : hs.Perm hs') :
    ∃ ms, Interleaves src keep c hs' ms ∧ (idle c).run keep ms = idle d ∧
      ((idle c).asks keep ms).map Prod.snd = asked := by
  obtain ⟨ms, hm, rfl, rfl, hr⟩ := hl
  refine ⟨ms, ⟨hm, hp, fun h => ?_, fun h => ?_⟩, hr, rfl⟩
  · rw [hr]
    rfl
  · rw [hr]
    rfl

end Leads

end Gated

/-- Some run leads to the cache, except for its directory, where anything may be. -/
def Cache.Reachable (c : Cache) : Prop :=
  ∃ keep now store es content, c = { ((State.initial now store).run keep es).cache with store := content }

lemma Cache.Reachable.tidy {c : Cache} (hr : c.Reachable) : c.Tidy := by
  obtain ⟨keep, now, store, es, content, rfl⟩ := hr
  have sound : ((State.initial now store).run keep es).Sound :=
    State.run_induction (fun _ ev hs => hs.step ev) (State.Sound.initial now store) es
  exact ⟨sound.tidy.stored, sound.tidy.read, sound.tidy.resolvable⟩

open Gated in
/-- Whichever calls for the entries of a list come first, and however their loads interleave, the same
comes of it as of resolving the entries one after another; no entry is fetched twice, and each fetch is
for an entry of the list that was due. One after another they can be resolved, and at once, in whichever
order they are named, and then what is asked for is what such an interleaving fetches. -/
theorem resolving_order_unseen (keep : Retention) (src : Source) {c : Cache} (hr : c.Reachable)
    (hR : Reference.NoCollision c.texts) (hn : c.now ≤ Time.Instant.latest) (hs : List Nat) :
    let x := Call.runAll keep src (c, []) (hs.map .resolve)
    (∀ ms, Interleaves src keep c hs ms →
      let d := ((idle c).run keep ms).state.cache
      x.1.Alike d ∧ (∀ name, d.file? name = x.1.file? name) ∧
        (((idle c).asks keep ms).map Prod.fst).Nodup ∧ ∀ y ∈ (idle c).asks keep ms, Needed c {h | h ∈ hs} y) ∧
    (∃ ms, Interleaves src keep c hs ms ∧ (idle c).run keep ms = idle x.1 ∧
      ((idle c).asks keep ms).map Prod.snd = x.2) ∧
    ∀ hs', hs'.Perm hs → let x' := Call.run keep src (c, []) (.resolveAll hs')
      ∃ ms, Interleaves src keep c hs ms ∧ (idle c).run keep ms = idle x'.1 ∧
        ((idle c).asks keep ms).map Prod.snd = x'.2 := by
  have hc : c.Grounded := ⟨hr.tidy, hR, hn⟩
  have start : Progress src keep c ∅ ∅ (idle (c, ([] : List Request)).1) := Progress.start src keep c
  intro x
  obtain ⟨d, asked, ran, leads⟩ := Leads.inTurn hc start hs
  have hx : x = (d, asked) := ran
  obtain ⟨ns, inTurn, hd, hasked⟩ := leads.interleaves (List.Perm.refl hs)
  refine ⟨fun ms hi => ?_, ⟨ns, inTurn, by rw [hx]; exact hd, by rw [hx]; exact hasked⟩, fun hs' hp => ?_⟩
  · have resolved : c.Resolved src keep {h | h ∈ hs ∧ c.isDue h = true} d := by
      have := (inTurn.resolved hc).1
      rwa [hd] at this
    obtain ⟨resolved', once, needed⟩ := hi.resolved hc
    rw [hx]
    obtain ⟨alike, files⟩ := resolved.unique resolved'
    exact ⟨alike, files, once, needed⟩
  · obtain ⟨d', asked', ran', leads'⟩ := Leads.resolveAll hc start hs'
    intro x'
    have hx' : x' = (d', asked') := ran'
    rw [hx']
    exact leads'.interleaves hp

lemma reachable_lookedUp (now : Time.Instant) {a b : String} (hab : a ≠ b) : (lookedUp now a b).Reachable := by
  refine ⟨{}, now, some {}, [.act (.getOrCreate a), .act (.getOrCreate b)], some {}, ?_⟩
  simp only [State.run_cons, State.run_nil, State.step, State.initial, State.idle, Action.apply]
  rw [getOrCreate_lookedUp now hab]
  rfl

lemma texts_lookedUp (now : Time.Instant) (a b : String) : (lookedUp now a b).texts ⊆ {a, b} := by
  rintro raw ⟨h, e, he, rfl⟩
  rw [lookedUp, Cache.entry?_create] at he
  split at he
  · cases he
    exact Or.inr rfl
  · rw [Cache.entry?_create] at he
    split at he
    · cases he
      exact Or.inl rfl
    · simp [Cache.entry?] at he

/-- Two actions of one name are resolved, one of them asked for twice, with at most two requests. -/
theorem checkouts_in_any_order :
    let c := lookedUp ⟨0⟩ "a/checkout@v4" "b/checkout@v4"
    let x := Call.runAll {} (fun _ => .ok "inputs:") (c, []) ([1, 0, 1].map .resolve)
    let x' := Call.run {} (fun _ => .ok "inputs:") (c, []) (.resolveAll [0, 1, 1])
    c.Reachable ∧ Reference.NoCollision c.texts ∧ c.now ≤ Time.Instant.latest ∧
      x.1.Alike x'.1 ∧ (∀ name, x'.1.file? name = x.1.file? name) ∧ x'.2.length ≤ 2 := by
  have reachable := reachable_lookedUp ⟨0⟩ (a := "a/checkout@v4") (b := "b/checkout@v4") (by decide)
  have apart : Reference.NoCollision (lookedUp ⟨0⟩ "a/checkout@v4" "b/checkout@v4").texts := by
    have two := texts_lookedUp ⟨0⟩ "a/checkout@v4" "b/checkout@v4"
    exact fun a ha b hb => noCollision_checkouts a (two ha) b (two hb)
  have now : (lookedUp ⟨0⟩ "a/checkout@v4" "b/checkout@v4").now ≤ Time.Instant.latest := by
    show (⟨0⟩ : Time.Instant) ≤ Time.Instant.latest
    decide +kernel
  obtain ⟨same, -, batch⟩ := resolving_order_unseen {} (fun _ => .ok "inputs:") reachable apart now [1, 0, 1]
  obtain ⟨ms, hi, hd, asked⟩ := batch [0, 1, 1] (by decide)
  obtain ⟨alike, files, once, needed⟩ := same ms hi
  simp only [hd, Gated.cache_idle] at alike files
  refine ⟨reachable, apart, now, alike, files, ?_⟩
  -- each request is for one of the two entries, and for each there is one at most
  generalize Gated.asks {} (Gated.idle (lookedUp ⟨0⟩ "a/checkout@v4" "b/checkout@v4")) ms = asks at once needed asked
  have two : asks.map Prod.fst ⊆ [0, 1] := by
    intro h hh
    obtain ⟨y, hy, rfl⟩ := List.mem_map.mp hh
    have called : y.1 ∈ [1, 0, 1] := (needed y hy).called
    simp only [List.mem_cons, List.not_mem_nil, or_false] at called ⊢
    omega
  have few : (asks.map Prod.fst).length ≤ 2 := (List.subperm_of_subset once two).length_le
  rw [← asked]
  simpa using few

end CiWorkflow.Resolution
