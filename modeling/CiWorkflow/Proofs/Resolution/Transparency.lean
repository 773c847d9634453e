import CiWorkflow.Proofs.Resolution.Batch

/-!
# Kept content cannot be seen

A program gets its texts from a source, and what it asks for is recorded. Whether the texts are kept
in a directory that was empty at first, or nothing is kept, makes no difference to the entries and
to the outlines at any point, and where texts are kept nothing is asked for more often.
-/

namespace CiWorkflow.Resolution

/-! ### Recorded programs -/

namespace Source

/-- Callers do nothing while a fetch is under way. -/
def reply (src : Source) : Reply := fun q => ([], src q)

/-- Gets texts from a source, and records what is asked for. -/
def fetch (src : Source) : Fetch (StateM (List Request)) := src.reply.recorded

lemma run_fetch (src : Source) (x : Recorded (List Request)) (q : Request) :
    x.run (src.fetch q) = (src q, x.1, x.2 ++ [q]) := rfl

end Source

/-- What a program does next. -/
inductive Call where
  | act (a : Action)
  | resolve (h : Nat)
  | resolveText (raw : String)
  | resolveAll (hs : List Nat)

namespace Call

variable (keep : Retention) (src : Source)

def run (x : Recorded (List Request)) : Call → Recorded (List Request)
  | act a => (a.apply x.1, x.2)
  | resolve h => (x.run (Resolution.resolve keep src.fetch h)).2
  | resolveText raw => (x.run (Resolution.resolveText keep src.fetch raw)).2
  | resolveAll hs => (x.run (Resolution.resolveAll keep src.fetch hs)).2

def runAll (x : Recorded (List Request)) (calls : List Call) : Recorded (List Request) := calls.foldl (run keep src) x

/-- Nothing but texts of a set is looked up. -/
def On (R : Set String) : Call → Prop
  | act a => a.On R
  | resolveText raw => raw ∈ R
  | _ => True

end Call

/-! ### One program beside the other -/

/-- Nothing was asked for more often in one place than in the other. -/
def AskedNoMore (asked asked' : List Request) : Prop := ∀ q, asked.count q ≤ asked'.count q

namespace AskedNoMore

variable {asked asked' : List Request} (ha : AskedNoMore asked asked') (q : Request)

include ha

lemma both : AskedNoMore (asked ++ [q]) (asked' ++ [q]) := by
  intro p
  simp only [List.count_append]
  exact Nat.add_le_add_right (ha p) _

lemma other : AskedNoMore asked (asked' ++ [q]) := by
  intro p
  simp only [List.count_append]
  exact Nat.le_add_right_of_le (ha p)

end AskedNoMore

/-- A cache with a directory and one without are alike, and with the directory nothing was asked for
more often. -/
structure Recorded.Matches (src : Source) (R : Set String) (x y : Recorded (List Request)) : Prop where
  alike : x.1.Alike y.1
  trusted : x.1.Trusted src R
  trusted' : y.1.Trusted src R
  bare : y.1.store = none
  asked : AskedNoMore x.2 y.2

namespace Recorded.Matches

variable {src : Source} {keep : Retention} {R : Set String} {x y : Recorded (List Request)}

lemma act (hm : x.Matches src R y) {a : Action} (ha : a.On R) :
    (Call.run keep src x (.act a)).Matches src R (Call.run keep src y (.act a)) :=
  ⟨hm.alike.apply a, hm.trusted.apply ha, hm.trusted'.apply ha, Cache.store_apply_of_bare hm.bare a, hm.asked⟩

lemma resolve (hR : Reference.NoCollision R) (hm : x.Matches src R y) (h : Nat) :
    (Call.run keep src x (.resolve h)).Matches src R (Call.run keep src y (.resolve h)) := by
  obtain ⟨c, asked⟩ := x
  obtain ⟨c', asked'⟩ := y
  have alike : c.Alike c' := hm.alike
  rcases c.due_cases h with ⟨e, q, he, hn, hq⟩ | hn
  · have he' : c'.entry? h = some e := (alike.entries h).trans he
    have hn' : e.needsResolution c'.now = true := by rwa [alike.now]
    have one (load : Load) : Cache.Settled src keep c (insert h ∅) (c.settle keep h load (src q)) ∧
        (c.settle keep h load (src q)).Trusted src R :=
      Cache.Settled.note hR hm.trusted (Cache.Told.refl _ keep c) hm.trusted he hq (Cache.tells_finding he hq load rfl)
    have other : Cache.Settled src keep c' (insert h ∅) (c'.settle keep h (.fetch q) (src q)) ∧
        (c'.settle keep h (.fetch q) (src q)).Trusted src R :=
      Cache.Settled.note hR hm.trusted' (Cache.Told.refl _ keep c') hm.trusted' he' hq
        (Cache.tells_finding he' hq _ rfl)
    have bare : (c'.settle keep h (.fetch q) (src q)).store = none := Cache.store_conclude_of_bare hm.bare _
    rw [Call.run, Call.run, Recorded.run_resolve_of_fetch (Cache.plan?_of_bare hm.bare he' hn' hq) (src.run_fetch _ q)]
    rcases hm.trusted.plan?_cases he hn hq with hp | ⟨text, hp, htext, -⟩
    · rw [Recorded.run_resolve_of_fetch hp (src.run_fetch _ q)]
      exact ⟨(one _).1.alike other.1 alike, (one _).2, other.2, bare, hm.asked.both q⟩
    · rw [Recorded.run_resolve_of_kept hp, ← htext]
      exact ⟨(one _).1.alike other.1 alike, (one _).2, other.2, bare, hm.asked.other q⟩
  · have idle : c.plan? keep h = none := Cache.plan?_of_not_due hn
    have idle' : c'.plan? keep h = none := by
      refine Cache.plan?_of_not_due fun e he => ?_
      rw [alike.now]
      exact hn e ((alike.entries h).symm.trans he)
    rw [Call.run, Call.run, Recorded.run_resolve_of_none idle, Recorded.run_resolve_of_none idle']
    exact hm

lemma resolveText (hR : Reference.NoCollision R) (hm : x.Matches src R y) {raw : String} (hraw : raw ∈ R) :
    (Call.run keep src x (.resolveText raw)).Matches src R (Call.run keep src y (.resolveText raw)) := by
  have looked (z : Recorded (List Request)) : Call.run keep src z (.resolveText raw) =
      Call.run keep src ((z.1.getOrCreate raw).2, z.2) (.resolve (z.1.getOrCreate raw).1) := rfl
  rw [looked, looked, (hm.alike.getOrCreate raw).1]
  have found : (Call.run keep src x (.act (.getOrCreate raw))).Matches src R
      (Call.run keep src y (.act (.getOrCreate raw))) := hm.act hraw
  exact found.resolve hR (x.1.getOrCreate raw).1

end Recorded.Matches

/-! ### Several entries at once -/

/-- What is left of a resolving comes to what the source has. -/
def Awaits (src : Source) (b : Cache) (h : Nat) (r : Rest) : Prop :=
  ∃ e q, b.entry? h = some e ∧ requestFor? e.reference = some q ∧ src.manifest? e.reference ≠ none ∧
    match r with
    | .reading text => src q = .ok text
    | .writing f => b.Tells src h f

/-- The entries of which something is left. -/
def leftOf (rest : List (Nat × Rest)) : Set Nat := {k | ∃ r, (k, r) ∈ rest}

lemma mem_leftOf_of_lookup {rest : List (Nat × Rest)} {h : Nat} {r : Rest} (hl : rest.lookup h = some r) :
    h ∈ leftOf rest := by
  obtain ⟨before, after, rfl, -⟩ := List.lookup_eq_some_iff.mp hl
  exact ⟨r, by simp⟩

lemma not_mem_leftOf_of_lookup {rest : List (Nat × Rest)} {h : Nat} (hl : rest.lookup h = none) :
    h ∉ leftOf rest := by
  rintro ⟨r, hr⟩
  rw [List.lookup_eq_none_iff] at hl
  simpa using hl _ hr

lemma leftOf_nil : leftOf [] = ∅ := by
  ext k
  simp [leftOf]

lemma leftOf_cons (h : Nat) (r : Rest) (rest : List (Nat × Rest)) :
    leftOf ((h, r) :: rest) = insert h (leftOf rest) := by
  ext k
  simp only [leftOf, Set.mem_ofPred_eq, List.mem_cons, Prod.mk.injEq, Set.mem_insert_iff]
  constructor
  · rintro ⟨u, ⟨hk, -⟩ | hu⟩
    · exact Or.inl hk
    · exact Or.inr ⟨u, hu⟩
  · rintro (rfl | ⟨u, hu⟩)
    · exact ⟨r, Or.inl ⟨rfl, rfl⟩⟩
    · exact ⟨u, Or.inr hu⟩

lemma leftOf_concat (h : Nat) (r : Rest) (rest : List (Nat × Rest)) :
    leftOf (rest ++ [(h, r)]) = insert h (leftOf rest) := by
  rw [← leftOf_cons h r]
  ext k
  simp [leftOf, or_comm]

lemma awaits_concat {src : Source} {b : Cache} {h : Nat} {r : Rest} {rest : List (Nat × Rest)}
    (hw : ∀ k u, (k, u) ∈ rest → Awaits src b k u) (hr : Awaits src b h r) :
    ∀ k u, (k, u) ∈ rest ++ [(h, r)] → Awaits src b k u := by
  intro k u hu
  rcases List.mem_append.mp hu with hu | hu
  · exact hw k u hu
  · rw [List.mem_singleton] at hu
    cases hu
    exact hr

section batch

variable {src : Source} {keep : Retention} {R : Set String} {b b' d : Cache} {D : Set Nat}
  {x y : Recorded (List Request)} {rest : List (Nat × Rest)}

/-- What is left is done. -/
lemma Cache.Settled.finish (hR : Reference.NoCollision R) (hb : b.Trusted src R)
    (hw : ∀ k r, (k, r) ∈ rest → Awaits src b k r) (hs : Cache.Settled src keep b D d) (hd : d.Trusted src R) :
    let after := rest.foldl (fun c (h, r) => c.finish keep h r) d
    Cache.Settled src keep b (D ∪ leftOf rest) after ∧ after.Trusted src R := by
  induction rest generalizing D d with
  | nil =>
    rw [leftOf_nil, Set.union_empty]
    exact ⟨hs, hd⟩
  | cons p rest ih =>
    obtain ⟨h, r⟩ := p
    obtain ⟨e, q, he, hq, -, hr⟩ := hw h r List.mem_cons_self
    have one : Cache.Settled src keep b (insert h D) (d.finish keep h r) ∧
        (d.finish keep h r).Trusted src R := by
      cases r with
      | reading text =>
        obtain ⟨x, hx, hxr, -⟩ := hs.exists_entry he
        exact hs.note hR hb hd he hq (hs.tells hx (by rw [hxr, hq]) (.kept text) hr)
      | writing f => exact hs.note hR hb hd he hq hr
    rw [leftOf_cons, Set.union_insert, ← Set.insert_union]
    exact ih (fun k u hu => hw k u (List.mem_cons_of_mem _ hu)) one.1 one.2

/-- Some entries have been begun with: with the directory some are resolved and something is left of
others, and without it all of these are resolved. -/
structure Abreast (src : Source) (keep : Retention) (R : Set String) (b b' : Cache) (D : Set Nat)
    (rest : List (Nat × Rest)) (x y : Recorded (List Request)) : Prop where
  settled : Cache.Settled src keep b D x.1
  settled' : Cache.Settled src keep b' (D ∪ leftOf rest) y.1
  trusted : x.1.Trusted src R
  trusted' : y.1.Trusted src R
  bare : y.1.store = none
  waiting : ∀ k r, (k, r) ∈ rest → Awaits src b k r
  asked : AskedNoMore x.2 y.2

namespace Abreast

variable (hA : Abreast src keep R b b' D rest x y) (ha : b.Alike b')

include hA ha

/-- An entry of which something is left is available without the directory. -/
lemma plan?_of_left {h : Nat} (hl : h ∈ leftOf rest) : y.1.plan? keep h = none := by
  obtain ⟨r, hr⟩ := hl
  obtain ⟨e, q, he, -, hm, -⟩ := hA.waiting h r hr
  obtain ⟨o, ho⟩ := Option.ne_none_iff_exists'.mp hm
  have told : Cache.entry? y.1 h = some (e.told keep b'.now (some o)) := by
    rw [hA.settled'.told h (Or.inr ⟨r, hr⟩), ha.entries, he, ← ho]
    rfl
  refine Cache.plan?_of_not_due fun x hx => ?_
  rw [told] at hx
  cases hx
  simp [Entry.told, Entry.resolved, Entry.needsResolution]

lemma now_eq : y.1.now = x.1.now := by rw [hA.settled.now, hA.settled'.now, ha.now]

lemma entry?_eq {h : Nat} (hl : h ∉ leftOf rest) : Cache.entry? y.1 h = Cache.entry? x.1 h := by
  by_cases hk : h ∈ D
  · rw [hA.settled.told h hk, hA.settled'.told h (Or.inl hk), ha.entries, ha.now]
  · rw [hA.settled.others h hk, hA.settled'.others h (fun hu => hu.elim hk hl), ha.entries]

/-- An entry that is due is begun with: its text is kept, or it is fetched and has to be written or
not. -/
lemma next_of_due (hR : Reference.NoCollision R) (hb : b.Trusted src R) (hb' : b'.Trusted src R) {h : Nat}
    (hl : rest.lookup h = none) {e : Entry} {q : Request} (he : Cache.entry? x.1 h = some e)
    (hn : e.needsResolution x.1.now = true) (hq : requestFor? e.reference = some q) :
    ∃ D' rest' x' y',
      (∀ hs, x.run (beginAll keep src.fetch (h :: hs) rest) = x'.run (beginAll keep src.fetch hs rest')) ∧
      (∀ hs, y.run (beginAll keep src.fetch (h :: hs) []) = y'.run (beginAll keep src.fetch hs [])) ∧
      Abreast src keep R b b' D' rest' x' y' := by
  have he' : Cache.entry? y.1 h = some e := (hA.entry?_eq ha (not_mem_leftOf_of_lookup hl)).trans he
  have hn' : e.needsResolution y.1.now = true := by rwa [hA.now_eq ha]
  -- the entry as it was before anything was begun with
  obtain ⟨e₀, he₀, href⟩ := hA.settled.exists_base he
  have hq₀ : requestFor? e₀.reference = some q := by rw [href, hq]
  set f := x.1.finding h (.fetch q) (src q)
  set f' := y.1.finding h (.fetch q) (src q)
  have tells : b.Tells src h f := hA.settled.tells he hq _ rfl
  have tells' : b'.Tells src h f' := hA.settled'.tells he' hq _ rfl
  obtain ⟨settled', trusted'⟩ := hA.settled'.note hR hb' hA.trusted' ((ha.entries h).trans he₀) hq₀ tells'
  have bare : (y.1.conclude keep h f').store = none := Cache.store_conclude_of_bare hA.bare f'
  have next' (hs : List Nat) :
      y.run (beginAll keep src.fetch (h :: hs) []) =
        Recorded.run (beginAll keep src.fetch hs []) (y.1.conclude keep h f', y.2 ++ [q]) := by
    rw [Recorded.run_beginAll_of_fetch hs rfl (Cache.plan?_of_bare hA.bare he' hn' hq) (src.run_fetch y q)]
    dsimp only
    rw [Cache.isWriting_finding_of_bare hA.bare, if_neg Bool.false_ne_true]
  rcases hA.trusted.plan?_cases he hn hq with hp | ⟨text, hp, htext, hm⟩
  · by_cases hw : f.isWriting = true
    · have awaits : Awaits src b h (.writing f) := by
        refine ⟨e₀, q, he₀, hq₀, ?_, tells⟩
        obtain ⟨o, text, hf⟩ := Finding.eq_timely_of_isWriting hw
        rw [← tells.manifest _ (Cache.reference?_of_some he₀), hf]
        exact Option.some_ne_none o
      refine ⟨D, rest ++ [(h, .writing f)], (x.1, x.2 ++ [q]), _, fun hs => ?_, next', hA.settled, ?_,
        hA.trusted, trusted', bare, awaits_concat hA.waiting awaits, hA.asked.both q⟩
      · rw [Recorded.run_beginAll_of_fetch hs hl hp (src.run_fetch x q)]
        exact if_pos hw
      · rwa [leftOf_concat, Set.union_insert]
    · obtain ⟨settled, trusted⟩ := hA.settled.note hR hb hA.trusted he₀ hq₀ tells
      refine ⟨insert h D, rest, (x.1.conclude keep h f, x.2 ++ [q]), _, fun hs => ?_, next', settled, ?_,
        trusted, trusted', bare, hA.waiting, hA.asked.both q⟩
      · rw [Recorded.run_beginAll_of_fetch hs hl hp (src.run_fetch x q)]
        exact if_neg hw
      · rwa [Set.insert_union]
  · have awaits : Awaits src b h (.reading text) := ⟨e₀, q, he₀, hq₀, by rwa [href], htext⟩
    refine ⟨D, rest ++ [(h, .reading text)], x, _, fun hs => Recorded.run_beginAll_of_kept hs hl hp, next',
      hA.settled, ?_, hA.trusted, trusted', bare, awaits_concat hA.waiting awaits, hA.asked.other q⟩
    rwa [leftOf_concat, Set.union_insert]

/-- One more entry is begun with. -/
lemma next (hR : Reference.NoCollision R) (hb : b.Trusted src R) (hb' : b'.Trusted src R) (h : Nat) :
    ∃ D' rest' x' y',
      (∀ hs, x.run (beginAll keep src.fetch (h :: hs) rest) = x'.run (beginAll keep src.fetch hs rest')) ∧
      (∀ hs, y.run (beginAll keep src.fetch (h :: hs) []) = y'.run (beginAll keep src.fetch hs [])) ∧
      Abreast src keep R b b' D' rest' x' y' := by
  cases hl : rest.lookup h with
  | some r =>
    have idle : y.1.plan? keep h = none := hA.plan?_of_left ha (mem_leftOf_of_lookup hl)
    refine ⟨D, rest, x, y, fun hs => ?_, fun hs => Recorded.run_beginAll_of_none hs rfl idle, hA⟩
    exact Recorded.run_beginAll_of_left hs (by rw [hl]; rfl)
  | none =>
    rcases x.1.due_cases h with ⟨e, q, he, hn, hq⟩ | hn
    · exact hA.next_of_due ha hR hb hb' hl he hn hq
    · have idle : x.1.plan? keep h = none := Cache.plan?_of_not_due hn
      have idle' : y.1.plan? keep h = none := by
        refine Cache.plan?_of_not_due fun e he => ?_
        rw [hA.now_eq ha]
        exact hn e ((hA.entry?_eq ha (not_mem_leftOf_of_lookup hl)).symm.trans he)
      refine ⟨D, rest, x, y, fun hs => ?_, fun hs => Recorded.run_beginAll_of_none hs rfl idle', hA⟩
      exact Recorded.run_beginAll_of_none hs hl idle

omit hA in
lemma begun (hR : Reference.NoCollision R) (hb : b.Trusted src R) (hb' : b'.Trusted src R) (hs : List Nat)
    (hA : Abreast src keep R b b' D rest x y) :
    ∃ D' rest' x' y', x.run (beginAll keep src.fetch hs rest) = (rest', x') ∧
      y.run (beginAll keep src.fetch hs []) = ([], y') ∧ Abreast src keep R b b' D' rest' x' y' := by
  induction hs generalizing D rest x y with
  | nil => exact ⟨D, rest, x, y, rfl, rfl, hA⟩
  | cons h hs ih =>
    obtain ⟨D₁, rest₁, x₁, y₁, hx, hy, hA₁⟩ := hA.next ha hR hb hb' h
    rw [hx, hy]
    exact ih hA₁

end Abreast

lemma Recorded.Matches.resolveAll (hR : Reference.NoCollision R) (hm : x.Matches src R y) (hs : List Nat) :
    (Call.run keep src x (.resolveAll hs)).Matches src R (Call.run keep src y (.resolveAll hs)) := by
  have start : Abreast src keep R x.1 y.1 ∅ [] x y := by
    refine ⟨Cache.Told.refl _ keep x.1, ?_, hm.trusted, hm.trusted', hm.bare,
      fun k r hr => absurd hr List.not_mem_nil, hm.asked⟩
    rw [leftOf_nil, Set.union_empty]
    exact Cache.Told.refl _ keep y.1
  obtain ⟨D, rest, x', y', hx, hy, hA⟩ := start.begun hm.alike hR hm.trusted hm.trusted' hs
  obtain ⟨settled, trusted⟩ := hA.settled.finish hR hm.trusted hA.waiting hA.trusted
  rw [Call.run, Call.run, Recorded.run_resolveAll, Recorded.run_resolveAll, hx, hy]
  exact ⟨settled.alike hA.settled' hm.alike, trusted, hA.trusted', hA.bare, hA.asked⟩

end batch

/-- A program that gets its texts from a source that does not change, over texts whose keys do not
collide, has the same entries, slots and outlines at each point whether texts are kept in a
directory that was empty at first or nothing is kept. Where texts are kept it asks for nothing more
often. -/
theorem kept_content_unseen (keep : Retention) (now : Time.Instant) {R : Set String}
    (hR : Reference.NoCollision R) (src : Source) (calls : List Call) (hc : ∀ call ∈ calls, call.On R) :
    let kept := Call.runAll keep src ({ now, store := some {} }, []) calls
    let bare := Call.runAll keep src ({ now }, []) calls
    kept.1.Alike bare.1 ∧ ∀ q, kept.2.count q ≤ bare.2.count q := by
  have matched : ∀ (x y : Recorded (List Request)), x.Matches src R y →
      (Call.runAll keep src x calls).Matches src R (Call.runAll keep src y calls) := by
    induction calls with
    | nil => exact fun x y hm => hm
    | cons call calls ih =>
      intro x y hm
      refine ih (fun o ho => hc o (List.mem_cons_of_mem call ho)) _ _ ?_
      have own := hc call List.mem_cons_self
      cases call with
      | act a => exact hm.act own
      | resolve h => exact hm.resolve hR h
      | resolveText raw => exact hm.resolveText hR own
      | resolveAll hs => exact hm.resolveAll hR hs
  intro kept bare
  have start : Recorded.Matches src R ({ now, store := some {} }, []) ({ now }, []) := by
    refine ⟨⟨rfl, fun _ => rfl, rfl, fun _ => rfl⟩, ?_, ?_, rfl, fun q => Nat.le_refl _⟩
    · exact ⟨Cache.Tidy.initial now _, Cache.Over.initial now _, Cache.Mirrors.of_no_file fun name => rfl⟩
    · exact ⟨Cache.Tidy.initial now _, Cache.Over.initial now _, Cache.Mirrors.of_no_file fun name => rfl⟩
  have done := matched _ _ start
  exact ⟨done.alike, done.asked⟩

/-- Two actions of one name are resolved, one of them again after all entries were dropped. -/
theorem kept_checkouts_unseen :
    let run (store : Option ContentStore) := Call.runAll {} (fun _ => .ok "inputs:") ({ now := ⟨0⟩, store }, [])
      [.resolveText "a/checkout@v4", .act (.getOrCreate "b/checkout@v4"), .resolveAll [0, 1], .act .clear,
        .resolveText "a/checkout@v4"]
    Reference.NoCollision {"a/checkout@v4", "b/checkout@v4"} ∧
      (run (some {})).1.Alike (run none).1 ∧ ∀ q, (run (some {})).2.count q ≤ (run none).2.count q := by
  intro run
  refine ⟨noCollision_checkouts, kept_content_unseen {} ⟨0⟩ noCollision_checkouts (fun _ => .ok "inputs:") _ ?_⟩
  intro call hcall
  simp only [List.mem_cons, List.not_mem_nil, or_false] at hcall
  rcases hcall with rfl | rfl | rfl | rfl | rfl
  · exact Or.inl rfl
  · exact Or.inr rfl
  · trivial
  · trivial
  · exact Or.inl rfl

end CiWorkflow.Resolution
