import CiWorkflow.Config.Loading
import CiWorkflow.Proofs.Resolution.Damage

/-!
# Freshness and expiry

A file is fresh for the success retention after it was written, and what is resolved then expires at
the end of the same time. Both are cut off differently: an instant behind the latest one becomes the
latest one, and so does the end of a retention that is too long to be added; but for such a retention
no file is ever fresh. So a file is fresh until the expiry exactly where the retention can be added.
-/

namespace CiWorkflow

namespace Time.Instant

variable {t now : Instant} {seconds : Nat}

lemma after_of_long (h : longestSeconds < seconds ∨ latest.nanos < t.nanos + seconds * nanosPerSecond) :
    t.after seconds = latest := by
  have cut : ¬ (seconds ≤ longestSeconds ∧ (⟨t.nanos + seconds * nanosPerSecond⟩ : Instant) ≤ latest) := by
    rintro ⟨short, early⟩
    have early : t.nanos + seconds * nanosPerSecond ≤ latest.nanos := early
    omega
  rw [after, if_neg cut]

lemma after_of_short (h : seconds ≤ longestSeconds) (he : t.nanos + seconds * nanosPerSecond ≤ latest.nanos) :
    (t.after seconds).nanos = t.nanos + seconds * nanosPerSecond := by
  have kept : seconds ≤ longestSeconds ∧ (⟨t.nanos + seconds * nanosPerSecond⟩ : Instant) ≤ latest := ⟨h, he⟩
  rw [after, if_pos kept]

lemma isYoungerThan_of_long (h : longestSeconds < seconds) : t.isYoungerThan now seconds = false := by
  simp [isYoungerThan, Nat.not_le.mpr h]

/-- Before the latest instant, where the sum is cut off makes no difference. -/
lemma isYoungerThan_iff_lt_after (h : seconds ≤ longestSeconds) (hn : now < latest) :
    t.isYoungerThan now seconds = true ↔ now < t.after seconds := by
  have hn : now.nanos < latest.nanos := hn
  have young : t.isYoungerThan now seconds = true ↔ now.nanos - t.nanos < seconds * nanosPerSecond := by
    simp [isYoungerThan, h]
  have before : now < t.after seconds ↔ now.nanos < (t.after seconds).nanos := Iff.rfl
  rw [young, before]
  by_cases early : t.nanos + seconds * nanosPerSecond ≤ latest.nanos
  · rw [after_of_short h early]
    omega
  · rw [after_of_long (Or.inr (Int.not_le.mp early))]
    omega

end Time.Instant

namespace Resolution

open Time (Instant)

section

variable {c : Cache} {keep : Retention} {r : Reference} {name text : String} {written : Instant}

lemma Cache.freshText?_of_file (hname : ContentStore.fileName? r = some name)
    (hfile : c.file? name = some ⟨.text text, written⟩) :
    c.freshText? keep r = some text ↔ written.isYoungerThan c.now keep.success = true := by
  rw [Cache.freshText?_eq_some_iff]
  constructor
  · rintro ⟨name', written', hname', hfile', young⟩
    obtain rfl := Option.some.inj (hname.symm.trans hname')
    have same := Option.some.inj (hfile.symm.trans hfile')
    simp only [ContentFile.mk.injEq] at same
    rw [same.2]
    exact young
  · exact fun young => ⟨name, written, hname, hfile, young⟩

/-- At any time before the latest instant, a file is fresh until what was resolved when it was written expires,
exactly where the retention is not too long to be added. Where it is, or where the sum lies behind the latest
instant, the expiry is the latest instant. -/
theorem fresh_until_expiry_iff (hname : ContentStore.fileName? r = some name)
    (hfile : c.file? name = some ⟨.text text, written⟩) (hnow : c.now < Instant.latest) :
    ((c.freshText? keep r = some text ↔ c.now < written.after keep.success) ↔
        keep.success ≤ Instant.longestSeconds) ∧
      (Instant.longestSeconds < keep.success ∨
          Instant.latest.nanos < written.nanos + keep.success * Instant.nanosPerSecond →
        written.after keep.success = Instant.latest) := by
  refine ⟨?_, Instant.after_of_long⟩
  rw [Cache.freshText?_of_file hname hfile]
  constructor
  · intro agree
    by_contra long
    have long := Nat.lt_of_not_le long
    have before : c.now < written.after keep.success := by
      rw [Instant.after_of_long (Or.inl long)]
      exact hnow
    rw [Instant.isYoungerThan_of_long long] at agree
    exact Bool.false_ne_true (agree.mpr before)
  · exact fun short => Instant.isYoungerThan_iff_lt_after short hnow

end

/-- A retention that leads behind the latest instant and is just not too long to be added. -/
theorem fresh_until_expiry_longest :
    let keep : Retention := { success := Instant.longestSeconds }
    let c := keeping "o/a@v1" (.text "inputs:")
    c.now < Instant.latest ∧ Instant.after ⟨0⟩ keep.success = Instant.latest ∧
      c.freshText? keep (Reference.ofText "o/a@v1") = some "inputs:" := by
  intro keep c
  have cached : ∃ name, ContentStore.fileName? (Reference.ofText "o/a@v1") = some name ∧
      c.file? name = some ⟨.text "inputs:", ⟨0⟩⟩ := exists_file?_keeping (by decide) (by decide) _
  obtain ⟨name, hname, hfile⟩ := cached
  have now : c.now < Instant.latest := by decide +kernel
  have agree : (c.freshText? keep (Reference.ofText "o/a@v1") = some "inputs:" ↔
      c.now < Instant.after ⟨0⟩ keep.success) ↔ keep.success ≤ Instant.longestSeconds :=
    (fresh_until_expiry_iff hname hfile now).1
  have behind : Instant.latest.nanos < (⟨0⟩ : Instant).nanos + keep.success * Instant.nanosPerSecond := by
    decide +kernel
  have expiry : Instant.after ⟨0⟩ keep.success = Instant.latest := Instant.after_of_long (Or.inr behind)
  exact ⟨now, expiry, (agree.mpr (Nat.le_refl _)).mpr (expiry ▸ now)⟩

/-- With settings that are accepted, a file that was just written is not fresh, although what is resolved from it does
not expire before the latest instant. -/
theorem not_fresh_until_expiry_long : ∃ s,
    Config.Settings.ofFile "config.toml" "[resolver]\nsuccess_ttl_secs = 9223372036854776\n" = .ok s ∧
      let keep : Retention := { success := s.resolver.successTtl }
      let c := keeping "o/a@v1" (.text "inputs:")
      c.now < Instant.latest ∧ c.now < Instant.after ⟨0⟩ keep.success ∧
        c.freshText? keep (Reference.ofText "o/a@v1") = none := by
  have accepted :
      (Config.Settings.ofFile "config.toml" "[resolver]\nsuccess_ttl_secs = 9223372036854776\n").toOption.map
        (·.resolver.successTtl) = some 9223372036854776 := by decide +kernel
  obtain ⟨s, hs, ttl⟩ := Option.map_eq_some_iff.mp accepted
  have hs : Config.Settings.ofFile "config.toml" "[resolver]\nsuccess_ttl_secs = 9223372036854776\n" = .ok s := by
    generalize Config.Settings.ofFile _ _ = result at hs
    cases result <;> cases hs
    rfl
  refine ⟨s, hs, ?_⟩
  intro keep c
  have long : Instant.longestSeconds < keep.success := by
    show Instant.longestSeconds < s.resolver.successTtl
    rw [ttl]
    decide
  have now : c.now < Instant.latest := by decide +kernel
  have expiry : Instant.after ⟨0⟩ keep.success = Instant.latest := Instant.after_of_long (Or.inl long)
  refine ⟨now, expiry ▸ now, ?_⟩
  rw [Option.eq_none_iff_forall_not_mem]
  intro text fresh
  obtain ⟨name, written, -, -, young⟩ := Cache.freshText?_eq_some_iff.mp fresh
  rw [Instant.isYoungerThan_of_long long] at young
  cases young

end Resolution

end CiWorkflow
