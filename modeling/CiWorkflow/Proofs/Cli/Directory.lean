import CiWorkflow.Cli.Session
import CiWorkflow.Proofs.Files.Fetching
import CiWorkflow.Proofs.Resolution.Backing
import CiWorkflow.Proofs.Resolution.Naming

/-!
# The content directory on a machine

However a machine answers, all that resolving changes on it are files right inside the content
directory that have names for content, and cleaning the directory tries to remove each listed file
with the extension of such names, and no other one.
-/

namespace CiWorkflow.Cli

open Files (Call Host LeadsDown Project Records)
open Resolution (Cache ContentStore Event Fetch IsContentName Load Request Rest Retention State)
open Resolution.ContentStore (Changes Listed Named)

variable {σ α β : Type} {calls more : List Call}

/-! ### Steps that leave the machine as it is -/

/-- Nothing on the machine is changed. -/
def Quiet (calls : List Call) : Prop := ∀ call ∈ calls, call.isChange = false

lemma quiet_nil : Quiet [] := List.forall_mem_nil _

lemma quiet_singleton {call : Call} (h : call.isChange = false) : Quiet [call] := List.forall_mem_singleton.mpr h

lemma Quiet.append (h : Quiet calls) (h' : Quiet more) : Quiet (calls ++ more) := List.forall_mem_append.mpr ⟨h, h'⟩

lemma quiet_of_looks {directory : String} {names : List String} {found : Option String}
    (h : Files.Looks directory names found calls) : Quiet calls := by
  have missing (l : List String) : Quiet (l.map fun b => .isFile (Files.join directory b) false) := by
    intro call hc
    obtain ⟨b, -, rfl⟩ := List.mem_map.mp hc
    rfl
  cases h with
  | found before n after h => exact (missing before).append (quiet_singleton rfl)
  | missing => exact missing names

lemma quiet_of_settles {path : String} {found : Option String} (h : Files.Settles path found calls) : Quiet calls := by
  cases h with
  | file => exact quiet_singleton rfl
  | directory h => exact (quiet_singleton rfl).append (quiet_of_looks h)

lemma quiet_of_reads {path : String} (h : Files.Reads path calls) : Quiet calls := by
  rcases h with h | ⟨f, settles, h, rfl⟩
  · exact quiet_of_settles h
  · exact (quiet_of_settles h).append (quiet_singleton rfl)

/-- A recorded step does to a cache what the step itself does, with no change to the machine and none to the directory
but what can happen to it. -/
def Silent (x : StateT Cache (StateT (List Call) (StateM σ)) α) (y : StateT Cache (StateM σ) α) : Prop :=
  ∀ c, Records (x.run c) (y.run c) fun p calls => Quiet calls ∧ Changes c.store p.2.store

namespace Silent

variable {x : StateT Cache (StateT (List Call) (StateM σ)) α} {y : StateT Cache (StateM σ) α}

lemma modifyGet {f : Cache → α × Cache} (h : ∀ c, Changes c.store (f c).2.store) :
    Silent (σ := σ) (modifyGet f) (modifyGet f) :=
  fun c => Records.pure ⟨quiet_nil, h c⟩

lemma modify {f : Cache → Cache} (h : ∀ c, Changes c.store (f c).store) : Silent (σ := σ) (modify f) (modify f) :=
  modifyGet h

lemma pure (a : α) : Silent (σ := σ) (pure a) (pure a) := fun _ => Records.pure ⟨quiet_nil, .refl⟩

lemma get : Silent (σ := σ) get get := fun _ => Records.pure ⟨quiet_nil, .refl⟩

lemma lift {u : StateT (List Call) (StateM σ) α} {v : StateM σ α} (h : Records u v fun _ calls => Quiet calls) :
    Silent (StateT.lift u) (StateT.lift v) :=
  fun _ => h.bind fun a first quiet => Records.pure (by rw [List.append_nil]; exact ⟨quiet, .refl⟩)

lemma bind {f : α → StateT Cache (StateT (List Call) (StateM σ)) β} {g : α → StateT Cache (StateM σ) β}
    (h : Silent x y) (next : ∀ a, Silent (f a) (g a)) : Silent (x >>= f) (y >>= g) := by
  intro c
  refine (h c).bind fun p first ⟨quiet, changes⟩ => (next p.1 p.2).mono fun q rest ⟨quiet', changes'⟩ => ?_
  exact ⟨quiet.append quiet', changes.trans changes'⟩

end Silent

/-! ### Resolving -/

section resolving

variable (host : Host (StateM σ)) (p : Project) (keep : Retention)

lemma silent_fetch (r : Request) : Silent (fetch host.recording p r) (fetch host p r) := by
  unfold fetch
  refine Silent.lift ?_
  split
  · refine (Records.noting _ _).mono ?_
    rintro text _ rfl
    exact quiet_singleton rfl
  · refine (Project.records_fetch host p r.location).mono fun answer calls h => ?_
    cases hp : p.path r.location with
    | error e =>
      rw [(h.1 e hp).2]
      exact quiet_nil
    | ok path => exact quiet_of_reads (h.2 path hp)

lemma changes_finish (c : Cache) (h : Nat) (rest : Rest) : Changes c.store (c.finish keep h rest).store := by
  cases rest with
  | reading text => exact .single (c.change_conclude keep h _)
  | writing f => exact .single (c.change_conclude keep h f)

lemma changes_finished (rest : List (Nat × Rest)) (c : Cache) :
    Changes c.store (rest.foldl (fun c (h, r) => c.finish keep h r) c).store := by
  induction rest generalizing c with
  | nil => exact .refl
  | cons r rest ih => exact (changes_finish keep c r.1 r.2).trans (ih _)

lemma changes_getOrCreateAll (c : Cache) (raws : List String) : Changes c.store (c.getOrCreateAll raws).2.store := by
  induction raws generalizing c with
  | nil => exact .refl
  | cons raw raws ih => exact .trans (.single (c.change_getOrCreate raw)) (ih _)

lemma silent_beginAll (hs : List Nat) (rest : List (Nat × Rest)) :
    Silent (Resolution.beginAll keep (fetch host.recording p) hs rest)
      (Resolution.beginAll keep (fetch host p) hs rest) := by
  induction hs generalizing rest with
  | nil => exact .pure rest
  | cons h hs ih =>
    unfold Resolution.beginAll
    split
    · exact ih rest
    · refine .bind .get fun c => ?_
      cases c.plan? keep h with
      | none => exact ih rest
      | some load =>
        cases load with
        | kept text => exact ih _
        | fetch r =>
          refine .bind (silent_fetch host p r) fun answer => .bind .get fun c => ?_
          dsimp only
          split
          · exact ih _
          · exact .bind (.modify fun c => .single (c.change_conclude keep h _)) fun _ => ih rest

lemma silent_resolveTexts (raws : List String) :
    Silent (Resolution.resolveTexts keep (fetch host.recording p) raws)
      (Resolution.resolveTexts keep (fetch host p) raws) := by
  refine .bind (.modifyGet fun c => changes_getOrCreateAll c raws) fun hs => ?_
  refine .bind (.bind (silent_beginAll host p keep hs []) fun rest => .modify (changes_finished keep rest)) fun _ => ?_
  exact .bind .get fun c => .pure _

end resolving

/-! ### Sessions -/

/-- What keeping content changes on a machine: the directory is made, and content is written under a name for it. -/
inductive Keeps (directory : String) : Call → Prop
  | makeDirectory : Keeps directory (.makeDirectory directory)
  | writeText {name : String} (h : IsContentName name) (text : String) :
      Keeps directory (.writeText (Files.join directory name) text)

/-- Nothing is changed but to keep content. -/
def OnlyKeeps (directory : Option String) (calls : List Call) : Prop :=
  ∀ call ∈ calls, call.isChange = true → ∃ d ∈ directory, Keeps d call

lemma OnlyKeeps.append {directory : Option String} (h : OnlyKeeps directory calls) (h' : OnlyKeeps directory more) :
    OnlyKeeps directory (calls ++ more) :=
  List.forall_mem_append.mpr ⟨h, h'⟩

lemma OnlyKeeps.cons {call : Call} {directory : String} (h : Keeps directory call)
    (h' : OnlyKeeps (some directory) calls) : OnlyKeeps (some directory) (call :: calls) :=
  List.forall_mem_cons.mpr ⟨fun _ => ⟨directory, rfl, h⟩, h'⟩

lemma Quiet.onlyKeeps (h : Quiet calls) (directory : Option String) : OnlyKeeps directory calls :=
  fun call hc change => absurd ((h call hc).symm.trans change) Bool.false_ne_true

section sessions

variable (host : Host (StateM σ)) (directory : String)

lemma named_empty : Named (some {}) := by
  rintro _ ⟨⟩
  exact List.forall_mem_nil _

lemma records_keptFile (r : Reference) :
    Records (keptFile host.recording directory r) (keptFile host directory r) fun s calls =>
      Quiet calls ∧ Named (some s) := by
  unfold keptFile
  cases hn : ContentStore.fileName? r with
  | none => exact .pure ⟨quiet_nil, named_empty⟩
  | some name =>
    refine .ask _ _ fun written => .ask _ _ fun text => ?_
    have quiet : Quiet [.written (Files.join directory name), .readText (Files.join directory name)] :=
      (quiet_singleton rfl).append (quiet_singleton rfl)
    split
    · refine .pure ⟨quiet, ?_⟩
      rintro _ ⟨⟩ e he
      rw [List.mem_singleton.mp he]
      exact Resolution.isContentName_of_fileName? hn
    · exact .pure ⟨quiet, named_empty⟩

lemma records_keptFiles (rs : List Reference) :
    Records (keptFiles host.recording directory rs) (keptFiles host directory rs) fun s calls =>
      Quiet calls ∧ Named (some s) := by
  induction rs with
  | nil => exact .pure ⟨quiet_nil, named_empty⟩
  | cons r rs ih =>
    refine .bind (records_keptFile host directory r) fun one first ⟨quiet, named⟩ => ?_
    refine .bind ih fun rest second ⟨quiet', named'⟩ => .pure ⟨?_, ?_⟩
    · rw [List.append_nil]
      exact quiet.append quiet'
    · rintro _ ⟨⟩
      exact List.forall_mem_append.mpr ⟨named one rfl, fun e he => named' rest rfl e (List.mem_of_mem_filter he)⟩

lemma records_saveNew (before : ContentStore) {l : List (String × Resolution.ContentFile)}
    (h : ∀ e ∈ l, IsContentName e.1) :
    Records (saveNew host.recording directory before l) (saveNew host directory before l) fun _ calls =>
      OnlyKeeps (some directory) calls := by
  induction l with
  | nil => exact .pure (quiet_nil.onlyKeeps _)
  | cons e l ih =>
    have rest := ih fun e he => h e (List.mem_cons_of_mem _ he)
    have name := h e List.mem_cons_self
    unfold saveNew
    dsimp only
    split
    · split
      · rename_i t _ _
        refine .ask _ _ fun _ => .ask _ _ fun _ => rest.mono fun _ calls more => ?_
        refine OnlyKeeps.cons .makeDirectory (OnlyKeeps.cons (.writeText name t) more)
      · exact rest
    · exact rest

lemma records_resolveTexts (s : Setup) (raws : List String) :
    Records (resolveTexts host.recording s raws) (resolveTexts host s raws) fun _ calls =>
      OnlyKeeps s.directory calls := by
  unfold resolveTexts
  dsimp only
  cases hd : s.directory with
  | none =>
    have nothing : Records (σ := σ) (pure none) (pure none) fun (_ : Option ContentStore) calls => Quiet calls :=
      .pure quiet_nil
    refine nothing.bind fun store before quiet => ?_
    refine .ask _ _ fun now => ?_
    refine .bind (silent_resolveTexts host s.project _ raws _) fun p calls ⟨quiet', _⟩ => .pure ?_
    exact (quiet.append ((quiet_singleton rfl).append (quiet'.append quiet_nil))).onlyKeeps none
  | some d =>
    have kept : Records (some <$> keptFiles host.recording d (raws.map .ofText))
        (some <$> keptFiles host d (raws.map .ofText)) fun known calls => Quiet calls ∧ Named known :=
      (records_keptFiles host d _).map fun _ _ h => h
    refine kept.bind fun known before ⟨quiet, named⟩ => ?_
    refine .ask _ _ fun now => ?_
    refine .bind (silent_resolveTexts host s.project _ raws _) fun p calls ⟨quiet', changes⟩ => ?_
    have front : OnlyKeeps (some d) (before ++ ([.now] ++ calls)) :=
      (quiet.append ((quiet_singleton rfl).append quiet')).onlyKeeps _
    cases known with
    | none => exact .pure (by simpa using front)
    | some old =>
      cases hs : p.2.store with
      | none => exact .pure (by simpa using front)
      | some after =>
        refine .bind (records_saveNew host d old (changes.named named after hs)) fun _ saves keeps => .pure ?_
        simpa using front.append keeps

end sessions

/-! ### Cleaning -/

/-- Whether a call has removed a file. -/
def hasRemoved : Call → Bool
  | .remove _ done => done
  | _ => false

/-- The calls that try to remove some files of a directory in turn, and no others. -/
def Removes (directory : String) : List String → List Call → Prop :=
  List.Forall₂ fun name call => ∃ done, call = .remove (Files.join directory name) done

/-- What is printed once `n` files have been removed. -/
def cleaned (color : Bool) (directory : String) (n : Nat) : Outcome :=
  { output := [Style.green.paint color "✓" ++ s!" Removed {n} cached files from {directory}"] }

/-- The calls that clean a directory, and what comes of them: where the directory is there and can be listed, each of
the names with the extension `yml` is tried, and those that were removed are counted. -/
inductive Cleans (color : Bool) (directory : String) : Outcome → List Call → Prop
  | absent : Cleans color directory (cleaned color directory 0) [.isThere directory false]
  | unlisted (fault : Files.ReadFault) :
      Cleans color directory
        (.ofReport
          { contexts := ["Failed to read cache directory " ++ directory], cause := .io fault.ioKind fault.message })
        [.isThere directory true, .namesIn directory none]
  | listed (names : List String) {removes : List Call}
      (h : Removes directory (names.filter fun name => Files.extension? name == some "yml") removes) :
      Cleans color directory (cleaned color directory (removes.countP hasRemoved))
        (.isThere directory true :: .namesIn directory (some names) :: removes)

section cleaning

variable (host : Host (StateM σ)) (directory : String)

lemma records_removeFiles (names : List String) :
    Records (removeFiles host.recording directory names) (removeFiles host directory names) fun n calls =>
      Removes directory (names.filter ContentStore.isPurged) calls ∧ n = calls.countP hasRemoved := by
  induction names with
  | nil => exact .pure ⟨.nil, rfl⟩
  | cons name names ih =>
    unfold removeFiles
    dsimp only
    split
    · rename_i purged
      refine .ask _ _ fun done => .bind ih fun n rest ⟨removes, counted⟩ => .pure ⟨?_, ?_⟩
      · rw [List.filter_cons_of_pos purged, List.append_nil]
        exact .cons ⟨done, rfl⟩ removes
      · subst counted
        cases done <;> simp [List.countP_cons, hasRemoved]
    · rename_i kept
      have skipped : Records (σ := σ) (pure false) (pure false) fun done calls => done = false ∧ calls = [] :=
        .pure ⟨rfl, rfl⟩
      refine skipped.bind fun done first hfirst => ?_
      obtain ⟨rfl, rfl⟩ := hfirst
      refine .bind ih fun n rest ⟨removes, counted⟩ => .pure ?_
      rw [List.filter_cons_of_neg kept, List.append_nil]
      exact ⟨removes, counted⟩

lemma records_runClean (color : Bool) :
    Records (runClean host.recording color directory) (runClean host color directory) (Cleans color directory) := by
  unfold runClean
  refine .ask _ _ fun there => ?_
  cases there with
  | false =>
    exact .pure .absent
  | true =>
    refine .ask _ _ fun names => ?_
    cases names with
    | error fault => exact .pure (.unlisted fault)
    | ok names =>
      refine .bind (records_removeFiles host directory names) fun n removes ⟨h, counted⟩ => .pure ?_
      subst counted
      rw [List.append_nil]
      exact .listed names h

end cleaning

/-! ### The directory -/

/-- For every text, every run and every machine: content has a file name exactly where the text is neither a path in
the project nor names nothing, and the name has no characters but ASCII letters, digits, points, dashes and
underscores and ends in `.yml`; such a file stands right inside the directory and has the extension that a purge goes
by. A file that a run leaves was there before as it is or has such a name, and a purge then takes exactly the files with
the extension, each counted once, so that none of such a name is left. On a machine resolving changes nothing but
files of such names right inside the directory, and cleaning tries to remove exactly the listed names with the extension
and counts those that were removed. -/
theorem content_directory_closed (keep : Retention) (s : State) (h : Listed s.cache.store) (es : List Event) :
    (∀ c : Cache, c.store.isSome = true → ∀ raw, c.fileName? (.ofText raw) = none ↔
      (Reference.ofText raw).kind = .inProject ∨ (Reference.ofText raw).kind = .unparsable) ∧
    (∀ (c : Cache) raw name, c.fileName? (.ofText raw) = some name → IsContentName name) ∧
    (∀ name, IsContentName name → Files.extension? name = some "yml" ∧
      ∀ directory, LeadsDown directory [name] (Files.join directory name)) ∧
    (∀ name f, (s.run keep es).cache.file? name = some f → s.cache.file? name = some f ∨ IsContentName name) ∧
    (s.run keep es).cache.Purged (s.run keep es).cache.purge.1 (s.run keep es).cache.purge.2 ∧
    (∀ name, IsContentName name → (s.run keep es).cache.purge.2.file? name = none) ∧
    ∀ (σ : Type) (host : Host (StateM σ)),
      (∀ (setup : Setup) raws, Records (resolveTexts host.recording setup raws) (resolveTexts host setup raws)
        fun _ calls => OnlyKeeps setup.directory calls) ∧
      ∀ color directory, Records (runClean host.recording color directory) (runClean host color directory)
        (Cleans color directory) := by
  have changes := s.changes_run keep es
  refine ⟨fun c hc raw => Resolution.fileName?_eq_none_iff hc _, fun c raw name hn => ?_,
    fun name hn => ⟨hn.extension?, hn.leadsDown⟩, fun name f hf => changes.file hf,
    Cache.purged_purge (changes.listed h), fun name hn => ?_,
    fun σ host => ⟨records_resolveTexts host, fun color directory => records_runClean host directory color⟩⟩
  · exact Resolution.isContentName_of_fileName? (Cache.fileName?_eq_some_iff.mp hn).2
  · rw [Cache.file?_purge, if_pos hn.isPurged]

/-- When a text that is looked up for the first time has been fetched and written, it is in its file, and
the other files are as they were. -/
lemma file?_run_written (keep : Retention) {c : Cache} {raw location text name : String} {o : Outline}
    (hs : Resolution.Served raw location text o) (new : c.get? raw = none)
    (hn : c.fileName? (Reference.ofText raw) = some name) (absent : c.file? name = none)
    (short : name.utf8ByteSize ≤ Files.FileTree.nameLimit) :
    let h := c.entries.size
    let d := ((State.idle c).run keep [.act (.getOrCreate raw), .start h, .answer h (.ok text), .finish h]).cache
    ∀ m, d.file? m = if m = name then some ⟨.text text, c.now⟩ else c.file? m := by
  intro h after m
  set d := (c.create raw).2 with hd
  have made : d.entry? h = some (.fresh raw) := by rw [hd, Cache.entry?_create, if_pos rfl]
  have slot : d.get? raw = some h := by rw [hd, Cache.get?_create, if_pos rfl]
  have named : d.fileName? (Reference.ofText raw) = some name := hn
  have unkept : ∀ m, ContentStore.fileName? (Reference.ofText raw) = some m → d.file? m = none := by
    intro m hm
    rw [(Cache.fileName?_eq_some_iff.mp hn).2] at hm
    cases hm
    exact absent
  have kept : d.store.isSome = true := (Cache.fileName?_eq_some_iff.mp named).1
  have looked : (State.idle c).step keep (.act (.getOrCreate raw)) = State.idle d := by
    rw [hd, ← Cache.getOrCreate_of_none new]
    rfl
  have written : after = d.conclude keep h (.timely o (some text)) := by
    show ((State.idle c).run keep _).cache = _
    simp only [State.run_cons, State.run_nil]
    rw [looked, hs.step_start made keep unkept, hs.step_answer made keep slot kept, State.step_finish]
    rfl
  rw [written, Cache.file?_conclude_writing keep made, Resolution.Entry.reference_fresh, named]
  by_cases hm : m = name
  · subst hm
    rw [if_pos ⟨rfl, short⟩, if_pos rfl]
    rfl
  · rw [if_neg fun h => hm (Option.some.inj h.1).symm, if_neg hm]
    rfl

/-- A directory with some notes of somebody else in it, and content that was kept before. -/
def withNotes : ContentStore := ⟨[("notes.txt", ⟨.text "", ⟨0⟩⟩), ("v4-0.yml", ⟨.text "", ⟨0⟩⟩)]⟩

/-- An action is written beside the notes, and a purge takes its file and leaves them. -/
theorem content_directory_closed_notes :
    let s := State.initial ⟨0⟩ (some withNotes)
    let c := (s.run {} [.act (.getOrCreate "o/a@v1"), .start 0, .answer 0 (.ok "inputs:"), .finish 0]).cache
    Listed s.cache.store ∧ ∃ name, IsContentName name ∧ s.cache.file? name = none ∧
      c.file? name = some ⟨.text "inputs:", ⟨0⟩⟩ ∧ c.purge.2.file? name = none ∧
      c.purge.2.file? "v4-0.yml" = none ∧ ∃ f, c.purge.2.file? "notes.txt" = some f := by
  intro s c
  have listed : Listed s.cache.store := by
    rintro _ ⟨⟩
    decide
  obtain ⟨o, ho, -⟩ := Resolution.exists_manifest? (by decide) Resolution.actionInputs?_none
  have location : (Reference.ofText "o/a@v1").location? =
      some "https://raw.githubusercontent.com/o/a/v1/action.yml" := by cbv
  have served : Resolution.Served "o/a@v1" "https://raw.githubusercontent.com/o/a/v1/action.yml" "inputs:" o :=
    ⟨location, by decide, ho _⟩
  have own : s.cache.fileName? (Reference.ofText "o/a@v1") = some "a_v1-660b0cdbabecf86a.yml" := by decide +kernel
  have files : ∀ m, c.file? m =
      if m = "a_v1-660b0cdbabecf86a.yml" then some ⟨.text "inputs:", ⟨0⟩⟩ else s.cache.file? m :=
    file?_run_written {} served rfl own (by decide) (by decide +kernel)
  obtain ⟨-, content, -, -, purged, gone, -⟩ := content_directory_closed {} s listed
    [.act (.getOrCreate "o/a@v1"), .start 0, .answer 0 (.ok "inputs:"), .finish 0]
  have name := content s.cache "o/a@v1" _ own
  have kept : IsContentName "v4-0.yml" := ⟨by simp, "v4-0", by decide, rfl⟩
  have notes : c.file? "notes.txt" = some ⟨.text "", ⟨0⟩⟩ := (files "notes.txt").trans (if_neg (by decide))
  refine ⟨listed, _, name, by decide, ?_, gone _ name, gone _ kept, _, (purged.file _ _).mpr ⟨notes, by decide⟩⟩
  rw [files, if_pos rfl]

end CiWorkflow.Cli
