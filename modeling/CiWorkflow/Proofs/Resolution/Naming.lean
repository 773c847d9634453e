import CiWorkflow.Proofs.Files.Components
import CiWorkflow.Proofs.Resolution.Asking
import CiWorkflow.Proofs.Resolution.Mirror
import Mathlib.Logic.Relation

/-!
# The names of kept content

Whatever a reference looks like, the file of its content has a name that stands right inside the
directory and has the extension that a purge goes by. All that happens to the directory along a run
is that files are taken away and that content is written under such names.
-/

namespace CiWorkflow

/-! ### Characters of keys -/

namespace Reference

variable {r : Reference} {c : Char} {t : List Char}

lemma isKeyChar_iff : isKeyChar c = true ↔ c.isAlphanum = true ∨ c = '.' ∨ c = '-' ∨ c = '_' := by
  simp [isKeyChar, or_assoc]

lemma isKeyChar_of_mem_flatten (h : c ∈ flatten t) : isKeyChar c = true := by
  obtain ⟨d, -, rfl⟩ := List.mem_map.mp h
  split
  · assumption
  · decide

lemma isKeyChar_hexDigit {n : Nat} (h : n < 16) : isKeyChar (Text.hexDigit n) = true := by
  have all : ∀ m ∈ List.range 16, isKeyChar (Text.hexDigit m) = true := by decide
  exact all n (List.mem_range.mpr h)

lemma isKeyChar_of_mem_hex {bytes : List UInt8} (h : c ∈ Digest.hex bytes) : isKeyChar c = true := by
  obtain ⟨b, -, hc⟩ := List.mem_flatMap.mp h
  have small := b.toNat_lt
  rcases List.mem_pair.mp hc with rfl | rfl <;> exact isKeyChar_hexDigit (by omega)

lemma isKeyChar_of_mem_contentKey (h : c ∈ r.contentKey.toList) : isKeyChar c = true := by
  rw [contentKey, String.toList_append, String.toList_append, List.mem_append, List.mem_append] at h
  rcases h with (h | h) | h
  · unfold cacheId at h
    split at h <;> exact isKeyChar_of_mem_flatten (by rwa [String.toList_ofList] at h)
  · obtain rfl : c = '-' := by simpa using h
    decide
  · rw [storageKey, String.toList_ofList] at h
    exact isKeyChar_of_mem_hex h

lemma contentKey_ne_empty (r : Reference) : r.contentKey ≠ "" := by
  intro h
  have none := congrArg String.toList h
  simp [contentKey] at none

end Reference

namespace Resolution

open Files (IsName LeadsDown)

variable {name : String} {f : ContentFile}

/-! ### Names -/

/-- A name for kept content: it has no characters but ASCII letters, digits, points, dashes and underscores, and
behind some of them it ends in `.yml`. -/
structure IsContentName (name : String) : Prop where
  characters : ∀ c ∈ name.toList, c.isAlphanum = true ∨ c = '.' ∨ c = '-' ∨ c = '_'
  extension : ∃ key, key ≠ "" ∧ name = key ++ ".yml"

namespace IsContentName

lemma not_mem (h : IsContentName name) : '/' ∉ name.toList := fun slash => absurd (h.characters _ slash) (by decide)

lemma extension? (h : IsContentName name) : Files.extension? name = some "yml" := by
  obtain ⟨key, ne, rfl⟩ := h.extension
  have reversed : (key ++ ".yml").toList.reverse = 'l' :: 'm' :: 'y' :: '.' :: key.toList.reverse := by simp
  have long : key ++ ".yml" ≠ Files.parentName := by
    intro parent
    have last := congrArg (fun s => s.toList.reverse.head?) parent
    simp only [reversed, List.head?_cons] at last
    exact absurd last (by decide)
  have left : (key ++ ".yml").toList.reverse.dropWhile (· != '.') = '.' :: key.toList.reverse := by
    rw [reversed]
    rfl
  have right : (key ++ ".yml").toList.reverse.takeWhile (· != '.') = ['l', 'm', 'y'] := by
    rw [reversed]
    rfl
  unfold Files.extension?
  simp only [left, right, if_neg long]
  cases hk : key.toList.reverse with
  | nil => exact absurd (String.toList_eq_nil_iff.mp (List.reverse_eq_nil_iff.mp hk)) ne
  | cons c cs => rfl

/-- What is kept is purged. -/
lemma isPurged (h : IsContentName name) : ContentStore.isPurged name = true := by
  rw [ContentStore.isPurged, h.extension?]
  rfl

lemma isName (h : IsContentName name) : IsName name := by
  have hx := h.extension?
  refine ⟨?_, ?_, ?_⟩ <;>
  · rintro rfl
    exact absurd hx (by decide)

/-- A file of this name stands right inside its directory. -/
lemma leadsDown (h : IsContentName name) (directory : String) :
    LeadsDown directory [name] (Files.join directory name) :=
  Files.leadsDown_join directory h.isName h.not_mem

end IsContentName

lemma isContentName_of_fileName? {r : Reference} (h : ContentStore.fileName? r = some name) : IsContentName name := by
  unfold ContentStore.fileName? at h
  split at h
  · cases h
  · have whole : name = r.contentKey ++ ".yml" := by
      rw [← Option.some.inj h, String.append_assoc]
      rfl
    refine ⟨fun c hc => ?_, r.contentKey, r.contentKey_ne_empty, whole⟩
    rw [whole, String.toList_append, List.mem_append] at hc
    apply Reference.isKeyChar_iff.mp
    rcases hc with hc | hc
    · exact Reference.isKeyChar_of_mem_contentKey hc
    · have all : ∀ d ∈ ['.', 'y', 'm', 'l'], Reference.isKeyChar d = true := by simp [Reference.isKeyChar]
      exact all c hc

/-- Where content is kept, it is for what lies in repositories. -/
lemma fileName?_eq_none_iff {c : Cache} (hs : c.store.isSome = true) (r : Reference) :
    c.fileName? r = none ↔ r.kind = .inProject ∨ r.kind = .unparsable := by
  rw [Cache.fileName?, if_pos hs, ContentStore.fileName?, ← Reference.isLocal_iff_kind,
    ← Reference.isResolvable_eq_false_iff_kind]
  cases r.isLocal <;> simp

/-! ### Changes -/

namespace ContentStore

/-- What can happen to a directory at once: nothing, one file is taken away, all that a purge takes is, or content is
written under a name for it. -/
inductive Change : Option ContentStore → Option ContentStore → Prop
  | none (d : Option ContentStore) : Change d d
  | erase (s : ContentStore) (name : String) : Change (some s) (some (s.erase name))
  | purge (s : ContentStore) : Change (some s) (some s.purge.2)
  | write (s : ContentStore) {name : String} (h : IsContentName name) (text : String) (now : Time.Instant) :
      Change (some s) (some (s.write name text now))

/-- What can happen to a directory in a while. -/
def Changes : Option ContentStore → Option ContentStore → Prop := Relation.ReflTransGen Change

/-- Every file of a directory is listed once. -/
def Listed (d : Option ContentStore) : Prop := ∀ s ∈ d, (s.entries.map Prod.fst).Nodup

/-- Every file of a directory has a name for content. -/
def Named (d : Option ContentStore) : Prop := ∀ s ∈ d, ∀ e ∈ s.entries, IsContentName e.1

variable {d d' : Option ContentStore} {s : ContentStore}

lemma Change.file (h : Change d d') (hf : (d'.bind fun s => s.get? name) = some f) :
    (d.bind fun s => s.get? name) = some f ∨ IsContentName name := by
  cases h with
  | none => exact Or.inl hf
  | erase s n =>
    rw [Option.bind_some, NamedCache.get?_erase] at hf
    split at hf
    · cases hf
    · exact Or.inl hf
  | purge s =>
    rw [Option.bind_some, Cache.get?_purge] at hf
    split at hf
    · cases hf
    · exact Or.inl hf
  | write s hn text now =>
    rw [Option.bind_some, ContentStore.write] at hf
    split at hf
    · rw [NamedCache.get?_insert] at hf
      split at hf
      · rename_i own
        exact Or.inr (own ▸ hn)
      · exact Or.inl hf
    · exact Or.inl hf

lemma Changes.file (h : Changes d d') (hf : (d'.bind fun s => s.get? name) = some f) :
    (d.bind fun s => s.get? name) = some f ∨ IsContentName name := by
  induction h with
  | refl => exact Or.inl hf
  | tail _ step ih => exact (step.file hf).elim ih Or.inr

lemma exists_get?_iff : (∃ f, s.get? name = some f) ↔ ∃ f, (name, f) ∈ s.entries := by
  constructor
  · rintro ⟨f, hf⟩
    obtain ⟨before, after, h, -⟩ := List.lookup_eq_some_iff.mp hf
    exact ⟨f, by simp [h]⟩
  · rintro ⟨f, hf⟩
    cases hn : s.get? name with
    | some g => exact ⟨g, rfl⟩
    | none => simpa using List.lookup_eq_none_iff.mp hn _ hf

lemma Changes.named (h : Changes d d') (hd : Named d) : Named d' := by
  intro s hs e he
  obtain ⟨f, hf⟩ := exists_get?_iff.mpr ⟨e.2, he⟩
  have there : (d'.bind fun s => s.get? e.1) = some f := by rw [hs, Option.bind_some, hf]
  rcases h.file there with before | named
  · obtain ⟨t, ht, hg⟩ := Option.bind_eq_some_iff.mp before
    obtain ⟨g, hg⟩ := exists_get?_iff.mp ⟨f, hg⟩
    exact hd t ht (e.1, g) hg
  · exact named

lemma Change.listed (h : Change d d') (hd : Listed d) : Listed d' := by
  have erased {s : ContentStore} (hs : Listed (some s)) (n : String) : Listed (some (s.erase n)) := by
    rintro _ ⟨⟩
    exact (hs s rfl).sublist (List.filter_sublist.map Prod.fst)
  cases h with
  | none => exact hd
  | erase s n => exact erased hd n
  | purge s =>
    rintro _ ⟨⟩
    exact (hd s rfl).sublist (List.filter_sublist.map Prod.fst)
  | @write s n hn text now =>
    rintro _ ⟨⟩
    unfold ContentStore.write
    split
    · refine List.nodup_cons.mpr ⟨?_, erased hd n _ rfl⟩
      simp [NamedCache.erase]
    · exact hd s rfl

lemma Changes.listed (h : Changes d d') (hd : Listed d) : Listed d' := by
  induction h with
  | refl => exact hd
  | tail _ step ih => exact step.listed ih

end ContentStore

open ContentStore (Change Changes Listed)

namespace Cache

variable (c : Cache)

lemma change_dropFile (r : Reference) : Change c.store (c.dropFile r).store := by
  unfold dropFile
  split
  · exact .none _
  · cases c.store with
    | none => exact .none _
    | some s => exact .erase s _

lemma change_detach (h : Nat) : Change c.store (c.detach h).store := by
  unfold detach
  split
  · exact .none _
  · rename_i e _
    exact change_dropFile
      { c.modifyEntry h Entry.invalidated with outlines := c.outlines.erase e.reference.contentKey } _

lemma change_getOrCreate (raw : String) : Change c.store (c.getOrCreate raw).2.store := by
  rcases c.getOrCreate_cases raw with ⟨h, -, -, hk⟩ | ⟨-, hk⟩ | ⟨h, -, -, hk⟩ <;> rw [hk]
  · exact .none _
  · exact .none _
  · exact c.change_detach h

lemma change_delete (h : Nat) : Change c.store (c.delete h).store := by
  cases he : c.entry? h with
  | none =>
    rw [delete_of_entry?_eq_none he]
    exact .none _
  | some e =>
    rcases c.delete_cases he with ⟨-, hd⟩ | ⟨-, hd⟩ | ⟨-, hd⟩ <;> rw [hd]
    · exact c.change_detach h
    · exact c.change_detach h
    · exact .none _

lemma change_purge : Change c.store c.purge.2.store := by
  unfold purge
  cases hs : c.store with
  | none =>
    simp only [hs]
    exact .none _
  | some s => exact .purge s

lemma change_apply (a : Action) : Change c.store (a.apply c).store := by
  cases a with
  | getOrCreate raw => exact c.change_getOrCreate raw
  | delete h => exact c.change_delete h
  | clear => exact .none _
  | purge => exact c.change_purge
  | tag h label => exact .none _
  | advance ms => exact .none _

lemma change_publish (r : Reference) (o : Outline) (text : Option String) :
    Change c.store (c.publish r o text).store := by
  unfold publish
  dsimp only
  split
  · rename_i t n hn
    have content := isContentName_of_fileName? (fileName?_eq_some_iff.mp hn).2
    cases c.store with
    | none => exact .none _
    | some s => exact .write s content t c.now
  · exact .none _

lemma change_conclude (keep : Retention) (h : Nat) (g : Finding) : Change c.store (c.conclude keep h g).store := by
  cases g with
  | missing => exact .none _
  | late o => exact .none _
  | timely o text =>
    simp only [conclude]
    split
    · exact .none _
    · exact c.change_publish _ o text

/-! ### Purging -/

/-- The kept content of a cache has been removed, which is `n` files: those with the extension `yml` are not there any
more, all others and all else of the cache are as before. -/
structure Purged (c : Cache) (n : Nat) (c' : Cache) : Prop where
  file : ∀ name f, c'.file? name = some f ↔ c.file? name = some f ∧ Files.extension? name ≠ some "yml"
  counted : ∃ removed : List String, removed.Nodup ∧ removed.length = n ∧
    ∀ name, name ∈ removed ↔ (∃ f, c.file? name = some f) ∧ c'.file? name = none
  others : c' = { c with store := c'.store }

variable {c}

lemma isPurged_iff : ContentStore.isPurged name = true ↔ Files.extension? name = some "yml" := by
  rw [ContentStore.isPurged, beq_iff_eq]
  rfl

lemma purged_purge (h : Listed c.store) : c.Purged c.purge.1 c.purge.2 := by
  refine ⟨fun name f => ?_, ?_, ?_⟩
  · rw [file?_purge, Ne, ← isPurged_iff]
    split <;> simp_all
  · unfold purge
    cases hs : c.store with
    | none => exact ⟨[], List.nodup_nil, rfl, by simp [file?, hs]⟩
    | some s =>
      have nodup := h s hs
      refine ⟨(s.entries.filter fun e => ContentStore.isPurged e.1).map Prod.fst,
        nodup.sublist (List.filter_sublist.map Prod.fst), by rw [List.length_map]; rfl, fun name => ?_⟩
      have taken : name ∈ (s.entries.filter fun e => ContentStore.isPurged e.1).map Prod.fst ↔
          (∃ f, (name, f) ∈ s.entries) ∧ ContentStore.isPurged name = true := by
        simp
      rw [taken, ← ContentStore.exists_get?_iff]
      simp only [file?, hs, Option.bind_some, get?_purge]
      refine and_congr_right fun there => ?_
      obtain ⟨f, hf⟩ := there
      simp [hf]
  · unfold purge
    cases hs : c.store with
    | none => simp
    | some s => rfl

end Cache

/-! ### Runs -/

namespace State

variable (keep : Retention) (s : State)

lemma change_step (e : Event) : Change s.cache.store (s.step keep e).cache.store := by
  rcases s.step_cases keep e with ⟨a, -, -, he⟩ | ⟨-, he⟩ | ⟨h, g, -, he⟩
  · rw [he]
    exact s.cache.change_apply a
  · rw [he]
    exact .none _
  · rw [he]
    exact s.cache.change_conclude keep h g

lemma changes_run (es : List Event) : Changes s.cache.store (s.run keep es).cache.store :=
  run_induction (P := fun t => Changes s.cache.store t.cache.store) (fun t e h => h.tail (t.change_step keep e)) .refl es

end State

end Resolution

end CiWorkflow
