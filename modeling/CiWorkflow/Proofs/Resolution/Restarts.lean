import CiWorkflow.Proofs.Resolution.Asking
import CiWorkflow.Proofs.Resolution.Provenance

/-!
# Programs that are started again

Between two of its operations a program may be started again, with a new cache over the directory that
it has left. Such a program is a run with restarts, and the same can be seen of both. In that run a kept
text is read as it was when its entry came to the file, and nobody acts while an entry is at its file,
except where several entries are resolved at once.
-/

namespace CiWorkflow.Resolution

open Time (Instant)

/-- What a program does next that may be started again. -/
inductive Job where
  | op (o : Op)
  /-- a new cache takes the place of the old one, over the same directory -/
  | restart

namespace Job

variable (keep : Retention) (δ : Nat) (c : Cache)

def run : Job → Cache
  | op o => o.run keep c
  | restart => { now := c.now, store := c.store }

def sights : Job → List Sight
  | op o => o.sights keep c
  | restart => [.restarted]

def runAll (jobs : List Job) : Cache := jobs.foldl (run keep) c

def sightsAll (jobs : List Job) : List Sight := collect (run keep) (sights keep) c jobs

/-- Where several entries are resolved at once, it takes no longer than some nanoseconds. -/
def IsBrief : Job → Prop
  | op (.resolveAll reply hs) => (Op.run keep c (.resolveAll reply hs)).now.nanos - c.now.nanos ≤ δ
  | _ => True

end Job

/-- Nobody is seen to set the clock back. -/
def Steady (seen : List Sight) : Prop := ∀ ms, .did (.advance ms) ∈ seen → 0 ≤ ms

namespace State

/-- The event of a turn meets a condition. -/
def Meets (P : State → Event → Prop) (s : State) : Turn → Prop
  | .event e => P s e
  | .restart => True

/-- Nobody acts while an entry is at its file. -/
def Calm (s : State) (e : Event) : Prop := ∀ a, e = .act a → ∀ h, ¬ s.AtFile h

/-- A kept text is read as it was, and nobody acts while an entry is at its file. -/
def Undisturbed (s : State) (e : Event) : Prop := s.Plain e ∧ s.Calm e

/-- From nothing under way to nothing under way some turns make of a cache what a program makes of it,
and the same is seen of them. What they read from a file is as it was. -/
structure Performs (keep : Retention) (c : Cache) (seen : List Sight) (c' : Cache) (ts : List Turn) : Prop where
  plain : Along (turn keep) (Meets Plain) (idle c) ts
  seen : (idle c).glimpses keep ts = seen
  ends : (idle c).turns keep ts = idle c'

variable {keep : Retention} {P Q : State → Event → Prop} {s : State} {c c' c'' : Cache} {seen seen' : List Sight}
  {es : List Event} {p q ts ts' : List Turn} {h : Nat} {δ : Nat}

/-! ### Turns that are events -/

lemma turns_events (s : State) (es : List Event) : s.turns keep (es.map .event) = s.run keep es := List.foldl_map

lemma glimpses_events (s : State) (es : List Event) : s.glimpses keep (es.map .event) = s.sights keep es := by
  induction es generalizing s with
  | nil => rfl
  | cons e es ih => exact congrArg (s.sight keep e ++ ·) (ih (s.step keep e))

lemma Meets.events (ha : Along (step keep) P s es) : Along (turn keep) (Meets P) s (es.map .event) := by
  induction es generalizing s with
  | nil => trivial
  | cons e es ih => exact ⟨ha.1, ih ha.2⟩

/-! ### Kept texts -/

/-- What is being read as it was when its entry came to the file was in the file meanwhile. -/
lemma reads_of_kept {text : String} (hst : ((idle c).turns keep p).stage h = some (.loading (.kept text))) :
    (idle c).Reads keep p h text := by
  induction p using List.reverseRecOn with
  | nil => cases hst
  | append_singleton p τ ih =>
    have there := hst
    rw [turns_concat] at there
    cases τ with
    | restart => cases there
    | event e =>
      rcases loading_of_step there with before | ⟨same, plan | ⟨-, l, -, -, fetched⟩⟩
      · obtain ⟨p₀, q, rfl, reading, held⟩ := ih before
        refine ⟨p₀, q ++ [.event e], List.append_assoc _ _ _, fun r hr => ?_, held⟩
        rcases List.prefix_concat_iff.mp hr with rfl | hr
        · rw [← List.append_assoc]
          exact ⟨text, hst⟩
        · exact reading r hr
      · refine reads_now hst ?_
        obtain ⟨d, q, hd, -, ⟨-, fetched⟩ | ⟨text', fresh, kept⟩⟩ := Cache.plan?_cases plan
        · cases fetched
        · cases kept
          have unmoved : ((idle c).turns keep (p ++ [.event e])).cache = ((idle c).turns keep p).cache := by
            rw [turns_concat]
            exact same
          rw [unmoved, Cache.textOf?, Cache.reference?_of_some hd, Option.bind_some]
          exact Cache.keptText?_of_freshText? fresh
      · cases fetched

/-! ### How long files are in use -/

lemma not_atFile_idle (c : Cache) (h : Nat) : ¬ (idle c).AtFile h := by
  rintro (⟨text, hst⟩ | ⟨f, hst⟩) <;> cases hst

/-- Where nobody acts while an entry is at its file, no time passes meanwhile. -/
lemma brief_of_calm (hc : Along (turn keep) (Meets Calm) s ts) : s.Brief keep δ ts := by
  intro p q h hpq busy
  have still : (s.turns keep (p ++ q)).cache.now = (s.turns keep p).cache.now := by
    induction q using List.reverseRecOn with
    | nil => rw [List.append_nil]
    | append_singleton q τ ih =>
      rw [← List.append_assoc] at hpq ⊢
      have earlier : s.Busy keep p q h := fun r hr => busy r (hr.trans (List.prefix_append q [τ]))
      rw [← ih ((List.prefix_append _ _).trans hpq) earlier, turns_concat]
      cases τ with
      | restart => rfl
      | event e =>
        have calm : Calm (s.turns keep (p ++ q)) e := hc.of_prefix hpq
        cases e with
        | act a => exact absurd (earlier q List.prefix_rfl) (calm a rfl h)
        | _ => exact now_step keep _ _
  rw [still]
  omega

/-- No entry is at its file for longer than all turns take. -/
lemma brief_of_short (hf : Forward ts) (hδ : (s.turns keep ts).cache.now.nanos - s.cache.now.nanos ≤ δ) :
    s.Brief keep δ ts := by
  rintro p q h ⟨r, rfl⟩ -
  have first : s.cache.now.nanos ≤ (s.turns keep p).cache.now.nanos := now_le_turns (hf.mono (by simp)) s
  have last : (s.turns keep (p ++ q)).cache.now.nanos ≤ (s.turns keep (p ++ q ++ r)).cache.now.nanos := by
    rw [turns_append (p ++ q)]
    exact now_le_turns (hf.mono (by simp)) _
  omega

/-- Where no entry is at its file between some turns and some more, each part tells how long one is
there. -/
lemma Brief.append (hb : s.Brief keep δ ts) (hn : ∀ h, ¬ (s.turns keep ts).AtFile h)
    (hb' : (s.turns keep ts).Brief keep δ ts') : s.Brief keep δ (ts ++ ts') := by
  intro p q h hpq busy
  rcases List.prefix_or_prefix_of_prefix hpq (List.prefix_append ts ts') with inside | beyond
  · exact hb p q h inside busy
  · rcases List.prefix_or_prefix_of_prefix (List.prefix_append p q) beyond with ⟨r, rfl⟩ | ⟨p', rfl⟩
    · exact absurd (busy r ((List.prefix_append_right_inj p).mp beyond)) (hn h)
    · rw [List.append_assoc, List.prefix_append_right_inj] at hpq
      rw [List.append_assoc, turns_append, turns_append (p := ts)]
      refine hb' p' q h hpq fun r hr => ?_
      rw [← turns_append, ← List.append_assoc]
      exact busy r hr

/-! ### Programs -/

namespace Performs

lemma refl (c : Cache) : Performs keep c [] c [] := ⟨trivial, rfl, rfl⟩

lemma append (hp : Performs keep c seen c' ts) (hp' : Performs keep c' seen' c'' ts') :
    Performs keep c (seen ++ seen') c'' (ts ++ ts') := by
  refine ⟨hp.plain.append ?_, ?_, ?_⟩
  · have ends : List.foldl (turn keep) (idle c) ts = idle c' := hp.ends
    rw [ends]
    exact hp'.plain
  · rw [glimpses, collect_append]
    have ends : List.foldl (turn keep) (idle c) ts = idle c' := hp.ends
    rw [ends]
    exact congrArg₂ (· ++ ·) hp.seen hp'.seen
  · rw [turns_append, hp.ends, hp'.ends]

/-- The clock goes forward where nobody is seen to set it back. -/
lemma forward (hp : Performs keep c seen c' ts) (hs : Steady seen) : Forward ts := by
  intro ms hm
  obtain ⟨p, q, rfl⟩ := List.append_of_mem hm
  refine hs ms ?_
  rw [← hp.seen]
  have here : p ++ [.event (.act (.advance ms))] <+: p ++ .event (.act (.advance ms)) :: q := ⟨q, by simp⟩
  exact mem_collect_of_prefix here (List.mem_singleton.mpr rfl)

lemma genuine (hp : Performs keep c seen c' ts) (hs : Steady seen) : (idle c).Genuine keep ts := by
  refine ⟨hp.forward hs, fun p h t text hpre hst => ?_⟩
  have plain : Plain ((idle c).turns keep p) (.answer h (.ok text)) := hp.plain.of_prefix hpre
  cases plain h _ t rfl hst
  exact reads_of_kept hst

end Performs

lemma Undisturbed.usual : Usual Undisturbed := by
  constructor
  case start => exact fun s h => ⟨Plain.usual.start s h, fun a he => nomatch he⟩
  case answer => exact fun s h load reply hst => ⟨Plain.usual.answer s h load reply hst, fun a he => nomatch he⟩
  case finish => exact fun s h => ⟨Plain.usual.finish s h, fun a he => nomatch he⟩

lemma undisturbed_idle (c : Cache) (a : Action) : (idle c).Undisturbed (.act a) :=
  ⟨Plain.act _ a, fun _ _ h => not_atFile_idle c h⟩

/-- While a text is on the way no entry is at its file. -/
lemma undisturbed_fetching (c : Cache) (h : Nat) (q : Request) (a : Action) :
    Undisturbed ((idle c).put h (some (.loading (.fetch q)))) (.act a) := by
  refine ⟨Plain.act _ a, fun _ _ k hk => ?_⟩
  rcases hk with ⟨text, hst⟩ | ⟨f, hst⟩ <;> rw [stage_put] at hst <;> split at hst <;> cases hst

/-- What is not disturbed is what a program does, and no time passes while an entry is at its file. -/
lemma YieldsBy.performs (hy : (idle c).YieldsBy Undisturbed keep seen (idle c')) :
    ∃ ts, Performs keep c seen c' ts ∧ ∀ δ, (idle c).Brief keep δ ts := by
  obtain ⟨es, ha, hs, he⟩ := hy
  refine ⟨es.map .event, ⟨Meets.events (ha.mono fun _ _ h => h.1), ?_, ?_⟩, fun δ => brief_of_calm (Meets.events ?_)⟩
  · rw [glimpses_events, hs]
  · rw [turns_events, he]
  · exact ha.mono fun _ _ h => h.2

lemma exists_performs_job (keep : Retention) (c : Cache) (j : Job) :
    ∃ ts, Performs keep c (j.sights keep c) (j.run keep c) ts ∧
      ∀ δ, Steady (j.sights keep c) → j.IsBrief keep δ c → (idle c).Brief keep δ ts := by
  have calm {o : Op} (hy : (idle c).YieldsBy Undisturbed keep (o.sights keep c)
      (idle (o.run keep c))) : ∃ ts, Performs keep c (o.sights keep c) (o.run keep c) ts ∧
        ∀ δ, Steady (o.sights keep c) → Job.IsBrief keep δ c (.op o) → (idle c).Brief keep δ ts := by
    obtain ⟨ts, performs, brief⟩ := hy.performs
    exact ⟨ts, performs, fun δ _ _ => brief δ⟩
  have act (a : Action) : (idle c).YieldsBy Undisturbed keep [.did a] (idle (a.apply c)) :=
    YieldsBy.single (undisturbed_idle c a)
  cases j with
  | restart =>
    refine ⟨[.restart], ⟨⟨trivial, trivial⟩, rfl, rfl⟩, fun δ _ _ => ?_⟩
    exact brief_of_calm ⟨trivial, trivial⟩
  | op o =>
    cases o with
    | act a => exact calm (act a)
    | resolve reply h => exact calm (yields_resolve Undisturbed.usual undisturbed_fetching c reply h)
    | resolveText reply raw =>
      refine calm ?_
      rw [Op.sights, Op.run, watch_resolveText]
      exact (act (.getOrCreate raw)).trans (yields_resolve Undisturbed.usual undisturbed_fetching _ reply _)
    | resolveAll reply hs =>
      have yields : (idle c).Yields keep (Op.sights keep c (.resolveAll reply hs))
          (idle (Op.run keep c (.resolveAll reply hs))) := yields_op c _
      obtain ⟨es, ha, hseen, he⟩ := yields
      have performs : Performs keep c (Op.sights keep c (.resolveAll reply hs))
          (Op.run keep c (.resolveAll reply hs)) (es.map .event) := by
        refine ⟨Meets.events ha, ?_, ?_⟩
        · rw [glimpses_events, hseen]
        · rw [turns_events, he]
      refine ⟨es.map .event, performs, fun δ steady short => brief_of_short (performs.forward steady) ?_⟩
      rw [performs.ends]
      exact short

/-- A program that may be started again is a run with restarts, and the same can be seen of both. -/
lemma exists_performs (keep : Retention) (c : Cache) (jobs : List Job) :
    ∃ ts, Performs keep c (Job.sightsAll keep c jobs) (Job.runAll keep c jobs) ts ∧
      ∀ δ, Steady (Job.sightsAll keep c jobs) → Along (Job.run keep) (Job.IsBrief keep δ) c jobs →
        (idle c).Brief keep δ ts := by
  induction jobs generalizing c with
  | nil => exact ⟨[], Performs.refl c, fun δ _ _ => brief_of_calm trivial⟩
  | cons j jobs ih =>
    obtain ⟨ts, first, brief⟩ := exists_performs_job keep c j
    obtain ⟨ts', rest, brief'⟩ := ih (j.run keep c)
    refine ⟨ts ++ ts', first.append rest, fun δ steady short => ?_⟩
    have before : Steady (j.sights keep c) := fun ms hm => steady ms (List.mem_append_left _ hm)
    have after : Steady (Job.sightsAll keep (j.run keep c) jobs) := fun ms hm =>
      steady ms (List.mem_append_right _ hm)
    refine (brief δ before short.1).append (fun h => ?_) ?_
    · rw [first.ends]
      exact not_atFile_idle _ h
    · rw [first.ends]
      exact brief' δ after short.2

/-! ### Fetches -/

lemma asking_turns (c : Cache) (p : List Turn) : ((idle c).turns keep p).Asking := by
  induction p using List.reverseRecOn with
  | nil => exact Asking.idle c
  | append_singleton p τ ih =>
    rw [turns_concat]
    cases τ with
    | event e => exact ih.step e
    | restart => exact Asking.idle _

/-- That a text was fetched can be seen: it was the answer to what a reference with that key needs. -/
lemma Obtained.answered {key text : String} {u : Instant} (ho : (idle c).Obtained keep p key text u) :
    ∃ r q, r.contentKey = key ∧ requestFor? r = some q ∧ .answered q (.ok text) u ∈ (idle c).glimpses keep p := by
  obtain ⟨p₀, k, q, r, hp, hst, hr, hkey, rfl⟩ := ho
  have needed := (asking_turns c p₀).fetching k q hst
  rw [hr, Option.bind_some] at needed
  refine ⟨r, q, hkey, needed, mem_collect_of_prefix hp ?_⟩
  have there : (List.foldl (turn keep) (idle c) p₀).stage k = some (.loading (.fetch q)) := hst
  simp only [glimpse, sight, there, List.mem_singleton]
  rfl

/-- A fetch that is seen to be answered is answered in one of the turns. -/
lemma exists_of_answered {q : Request} {a : Except Failure String} {u : Instant}
    (hm : .answered q a u ∈ s.glimpses keep ts) :
    ∃ p k, p ++ [.event (.answer k a)] <+: ts ∧ (s.turns keep p).cache.now = u := by
  obtain ⟨p, τ, hp, hx⟩ := exists_of_mem_collect hm
  cases τ with
  | restart => simp [glimpse] at hx
  | event e =>
    cases e with
    | answer k b =>
      simp only [glimpse, sight] at hx
      split at hx
      · rw [List.mem_singleton] at hx
        cases hx
        exact ⟨p, k, hp, rfl⟩
      · cases hx
    | _ => simp [glimpse, sight] at hx

end State

end CiWorkflow.Resolution
