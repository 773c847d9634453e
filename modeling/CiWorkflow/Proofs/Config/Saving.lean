import CiWorkflow.Config.Loading
import CiWorkflow.NamedCache
import CiWorkflow.Proofs.Toml.Document

/-!
# Settings that are saved

Settings that can be loaded from some file are loaded again, unchanged, from a file in which they are
saved, whatever texts are among them. Nor does it change what is loaded when keys are left out of the
file whose values are the defaults. What can be loaded are settings whose times are small enough to be
configured and that are not refused (`Admitted`).
-/

namespace CiWorkflow.Config

open Files (Host)
open Toml (Value Table IsWritten Stated)

/-! ### What can be loaded -/

/-- The times are small enough to be configured. -/
structure ResolverSettings.FitsLimit (r : ResolverSettings) : Prop where
  successTtl : r.successTtl < timeLimit
  failureTtl : r.failureTtl < timeLimit
  fetchTimeout : r.fetchTimeout < timeLimit

/-- The settings of the resolver can be configured, and they are not refused. -/
structure ResolverSettings.Admitted (r : ResolverSettings) : Prop extends FitsLimit r where
  accepted : r.validate = .ok ()

section loading

variable {r : ResolverSettings} {s : Settings}

lemma lt_of_orDefault {o : Option Value} {d n : Nat} (h : orDefault seconds? d o = some n) (hd : d < timeLimit) :
    n < timeLimit := by
  cases o with
  | none => exact Option.some.inj h ▸ hd
  | some v =>
    cases v with
    | integer k =>
      simp only [orDefault, seconds?] at h
      split_ifs at h with hk
      have : k.toNat = n := Option.some.inj h
      omega
    | _ => cases h

lemma fitsLimit_default : ({} : ResolverSettings).FitsLimit := ⟨by decide, by decide, by decide⟩

/-- However settings are given, their times fit. -/
lemma fitsLimit_of_ofValue? {v : Value} (h : ResolverSettings.ofValue? v = some r) : r.FitsLimit := by
  have given : ∀ {get}, ResolverSettings.ofLookup? get = some r → r.FitsLimit := by
    intro get h
    simp only [ResolverSettings.ofLookup?, Option.bind_eq_bind, Option.bind_eq_some_iff, Option.some.injEq] at h
    obtain ⟨success, hs, failure, hf, timeout, ht, agent, -, disk, -, rfl⟩ := h
    exact ⟨lt_of_orDefault hs (by decide), lt_of_orDefault hf (by decide), lt_of_orDefault ht (by decide)⟩
  unfold ResolverSettings.ofValue? at h
  split at h
  · split_ifs at h
    exact given h
  · exact given h
  · exact Option.some.inj h ▸ fitsLimit_default
  · cases h

lemma fitsLimit_of_ofTable? {t : Table} (h : Settings.ofTable? t = some s) : s.resolver.FitsLimit := by
  simp only [Settings.ofTable?, Option.bind_eq_bind, Option.bind_eq_some_iff] at h
  obtain ⟨cacheDir, -, r, hr, rest⟩ := h
  split_ifs at rest
  cases rest
  cases hv : t.lookup "resolver" with
  | none =>
    rw [hv] at hr
    exact Option.some.inj hr ▸ fitsLimit_default
  | some v =>
    rw [hv] at hr
    exact fitsLimit_of_ofValue? hr

lemma exists_of_ofText {text : String} (h : Settings.ofText text = .ok s) : ∃ t, Settings.ofTable? t = some s := by
  unfold Settings.ofText at h
  split at h
  · cases h
  · rename_i found
    obtain ⟨t, -, ht⟩ := Option.bind_eq_some_iff.mp found
    cases h
    exact ⟨t, ht⟩

/-- What is read from a file has been looked over. -/
lemma ofFile_eq_ok_iff {path text : String} :
    Settings.ofFile path text = .ok s ↔ Settings.ofText text = .ok s ∧ s.resolver.validate = .ok () := by
  unfold Settings.ofFile
  cases Settings.ofText text with
  | error f => simp
  | ok s' =>
    dsimp only
    rw [Except.ok.injEq]
    split
    · rename_i f refused
      refine iff_of_false nofun ?_
      rintro ⟨rfl, accepted⟩
      rw [refused] at accepted
      cases accepted
    · rename_i accepted
      rw [Except.ok.injEq, iff_self_and]
      rintro rfl
      exact accepted

lemma admitted_of_ofFile {path text : String} (h : Settings.ofFile path text = .ok s) : s.resolver.Admitted := by
  obtain ⟨read, accepted⟩ := ofFile_eq_ok_iff.mp h
  obtain ⟨t, ht⟩ := exists_of_ofText read
  exact { fitsLimit_of_ofTable? ht with accepted }

end loading

/-! ### Files with fewer keys -/

/-- A key with its value, as it is written and as it is read. -/
structure Binding where
  key : String
  written : List Char
  value : Value

/-- The keys of the resolver's settings, in the order in which they are written. -/
def ResolverSettings.bindings (r : ResolverSettings) : List Binding :=
  [⟨"success_ttl_secs", Settings.digits r.successTtl, .integer r.successTtl⟩,
    ⟨"failure_ttl_secs", Settings.digits r.failureTtl, .integer r.failureTtl⟩,
    ⟨"fetch_timeout_secs", Settings.digits r.fetchTimeout, .integer r.fetchTimeout⟩,
    ⟨"user_agent", Toml.write r.userAgent.toList, .text r.userAgent⟩,
    ⟨"disk_cache", Settings.boolean r.diskCache, .boolean r.diskCache⟩]

/-- The lines of bindings. -/
def linesOf (bs : List Binding) : List Char := bs.flatMap fun b => Settings.line b.key b.written

/-- The table of bindings. -/
def tableOf (bs : List Binding) : Table := bs.map fun b => (b.key, b.value)

namespace Settings

variable (s : Settings) (omitted : String → Bool)

/-- The bindings that are written at the top. -/
def topBindings : List Binding :=
  match s.cacheDir with
  | none => []
  | some d => if omitted "cache_dir" then [] else [⟨"cache_dir", Toml.write d.toList, .text d⟩]

/-- The bindings of the resolver's settings that are not left out. -/
def keptBindings : List Binding := s.resolver.bindings.filter fun b => !omitted b.key

/-- The text that is saved, without some of its keys. With the key of a table its header and all of its lines are
left out. -/
def textWithout : String :=
  let top := s.topBindings omitted
  String.ofList (linesOf top ++ (if top = [] then [] else ['\n']) ++
    if omitted "resolver" then [] else header ++ linesOf (s.keptBindings omitted))

/-- The keys that are left out have their default values. -/
structure OmitsDefaults : Prop where
  cacheDir : omitted "cache_dir" = true → s.cacheDir = none
  resolver : omitted "resolver" = true → s.resolver = {}
  successTtl : omitted "success_ttl_secs" = true → s.resolver.successTtl = ({} : ResolverSettings).successTtl
  failureTtl : omitted "failure_ttl_secs" = true → s.resolver.failureTtl = ({} : ResolverSettings).failureTtl
  fetchTimeout : omitted "fetch_timeout_secs" = true → s.resolver.fetchTimeout = ({} : ResolverSettings).fetchTimeout
  userAgent : omitted "user_agent" = true → s.resolver.userAgent = ({} : ResolverSettings).userAgent
  diskCache : omitted "disk_cache" = true → s.resolver.diskCache = ({} : ResolverSettings).diskCache

end Settings

/-! ### Reading the file -/

lemma isWritten_boolean (b : Bool) : IsWritten (Settings.boolean b) (.boolean b) := by
  cases b with
  | false => exact Toml.isWritten_false
  | true => exact Toml.isWritten_true

lemma stated_linesOf {bs : List Binding} (h : ∀ b ∈ bs, Toml.IsBareKey b.key ∧ IsWritten b.written b.value)
    {text : List Char} {sts : List Toml.Statement} (rest : Stated text sts) :
    Stated (linesOf bs ++ text) (Toml.binds (tableOf bs) ++ sts) := by
  induction bs with
  | nil => exact rest
  | cons b bs ih =>
    obtain ⟨⟨bare, written⟩, more⟩ := List.forall_mem_cons.mp h
    have step := (ih more).bind bare written
    have text : linesOf (b :: bs) ++ text =
        b.key.toList ++ ' ' :: '=' :: ' ' :: (b.written ++ '\n' :: (linesOf bs ++ text)) := by
      have equals : " = ".toList = [' ', '=', ' '] := by decide
      simp [linesOf, Settings.line, equals]
    rw [text]
    exact step

namespace Settings

variable {s : Settings} {omitted : String → Bool}

lemma written_bindings (r : ResolverSettings) :
    ∀ b ∈ r.bindings, Toml.IsBareKey b.key ∧ IsWritten b.written b.value := by
  simp only [ResolverSettings.bindings, List.forall_mem_cons]
  refine ⟨⟨by decide, Toml.isWritten_integer _⟩, ⟨by decide, Toml.isWritten_integer _⟩,
    ⟨by decide, Toml.isWritten_integer _⟩, ⟨by decide, Toml.isWritten_text _⟩, ⟨by decide, isWritten_boolean _⟩,
    List.forall_mem_nil _⟩

lemma written_topBindings (s : Settings) (omitted : String → Bool) :
    ∀ b ∈ s.topBindings omitted, Toml.IsBareKey b.key ∧ IsWritten b.written b.value := by
  unfold topBindings
  split
  · exact List.forall_mem_nil _
  · split_ifs
    · exact List.forall_mem_nil _
    · exact List.forall_mem_singleton.mpr ⟨(by decide : Toml.IsBareKey "cache_dir"), Toml.isWritten_text _⟩

/-- The table that is read from the text. -/
def tableWithout (s : Settings) (omitted : String → Bool) : Table :=
  tableOf (s.topBindings omitted) ++
    if omitted "resolver" then [] else [("resolver", .table (tableOf (s.keptBindings omitted)))]

lemma stated_textWithout (s : Settings) (omitted : String → Bool) :
    Stated (s.textWithout omitted).toList (Toml.binds (tableOf (s.topBindings omitted)) ++
      if omitted "resolver" then [] else .table ["resolver"] :: Toml.binds (tableOf (s.keptBindings omitted))) := by
  have kept : ∀ b ∈ s.keptBindings omitted, Toml.IsBareKey b.key ∧ IsWritten b.written b.value :=
    fun b hb => written_bindings s.resolver b (List.mem_of_mem_filter hb)
  have lines : Stated (if omitted "resolver" then [] else header ++ linesOf (s.keptBindings omitted))
      (if omitted "resolver" then [] else
        .table ["resolver"] :: Toml.binds (tableOf (s.keptBindings omitted))) := by
    split_ifs
    · exact Stated.nil
    · have below := stated_linesOf kept Stated.nil
      rw [List.append_nil, List.append_nil] at below
      exact below.table (by decide : Toml.IsBareKey "resolver")
  have gap : Stated ((if s.topBindings omitted = [] then [] else ['\n']) ++
      if omitted "resolver" then [] else header ++ linesOf (s.keptBindings omitted))
      (if omitted "resolver" then [] else
        .table ["resolver"] :: Toml.binds (tableOf (s.keptBindings omitted))) := by
    by_cases top : s.topBindings omitted = []
    · rw [if_pos top]
      exact lines
    · rw [if_neg top]
      exact lines.blank
  have whole := stated_linesOf (written_topBindings s omitted) gap
  rw [textWithout, String.toList_ofList, List.append_assoc]
  exact whole

lemma nodup_keptBindings (s : Settings) (omitted : String → Bool) :
    ((tableOf (s.keptBindings omitted)).map Prod.fst).Nodup := by
  have all : (s.resolver.bindings.map Binding.key).Nodup := by
    simp [ResolverSettings.bindings]
  have keys : (tableOf (s.keptBindings omitted)).map Prod.fst = (s.keptBindings omitted).map Binding.key := by
    simp [tableOf]
  rw [keys]
  exact all.sublist (List.filter_sublist.map _)

/-- Only one key is written at the top, if any. -/
lemma topBindings_cases (s : Settings) (omitted : String → Bool) :
    s.topBindings omitted = [] ∨ ∃ d, s.topBindings omitted = [⟨"cache_dir", Toml.write d.toList, .text d⟩] := by
  unfold topBindings
  split
  · exact Or.inl rfl
  · split_ifs
    · exact Or.inl rfl
    · exact Or.inr ⟨_, rfl⟩

lemma ofText?_textWithout (s : Settings) (omitted : String → Bool) :
    Toml.ofText? (s.textWithout omitted) = some (s.tableWithout omitted) := by
  have stated := stated_textWithout s omitted
  have mark : (s.textWithout omitted).toList.head? ≠ some '\ufeff' := by
    rw [textWithout, String.toList_ofList]
    rcases topBindings_cases s omitted with top | ⟨d, top⟩ <;> rw [top]
    · show (if omitted "resolver" then [] else '[' :: _).head? ≠ _
      split_ifs
      · exact nofun
      · exact fun h => absurd (Option.some.inj h) (by decide)
    · simp [linesOf, line]
  have single : ((tableOf (s.topBindings omitted)).map Prod.fst).Nodup ∧
      "resolver" ∉ (Toml.values (tableOf (s.topBindings omitted))).map Prod.fst := by
    rcases topBindings_cases s omitted with top | ⟨d, top⟩ <;> rw [top] <;> simp [tableOf, Toml.values]
  have built : Toml.assemble [] [] (Toml.binds (tableOf (s.topBindings omitted)) ++
      if omitted "resolver" then [] else .table ["resolver"] :: Toml.binds (tableOf (s.keptBindings omitted))) =
      some (Toml.values (tableOf (s.topBindings omitted)) ++
        if omitted "resolver" then [] else
          [("resolver", .table .header (Toml.values (tableOf (s.keptBindings omitted))))]) := by
    rw [Toml.assemble_binds (by simpa using single.1), List.nil_append]
    split_ifs
    · simp [Toml.assemble]
    · exact Toml.assemble_table single.2 (nodup_keptBindings s omitted)
  have read := Toml.ofText?_of_stated stated mark built
  rw [String.ofList_toList] at read
  rw [read, Toml.toTable_append, Toml.toTable_values, tableWithout]
  split_ifs
  · rfl
  · simp [Toml.toTable, Toml.Node.toValue, Toml.toTable_values]

/-! ### What is read -/

lemma lookup_keptBindings (s : Settings) (omitted : String → Bool) (key : String) :
    (tableOf (s.keptBindings omitted)).lookup key =
      if omitted key then none else (tableOf s.resolver.bindings).lookup key := by
  have kept : tableOf (s.keptBindings omitted) =
      (tableOf s.resolver.bindings).filter fun e => !omitted e.1 := by
    simp [tableOf, keptBindings, List.filter_map, Function.comp_def]
  rw [kept, NamedCache.lookup_filter fun key => !omitted key]
  cases omitted key <;> rfl

/-- What a key gives is its value where it is written, and the default where it is left out. -/
lemma orDefault_keptBindings {α : Type} {read : Value → Option α} {v : Value} {a d : α} (key : String)
    (found : (tableOf s.resolver.bindings).lookup key = some v) (h : read v = some a) (same : omitted key = true → a = d) :
    orDefault read d ((tableOf (s.keptBindings omitted)).lookup key) = some a := by
  rw [lookup_keptBindings, found]
  split_ifs with out
  · exact congrArg some (same out).symm
  · exact h

lemma seconds?_of_lt {n : Nat} (h : n < timeLimit) : seconds? (.integer n) = some n := by
  simp [seconds?, h]

/-- The settings are read from the keys that are left. -/
lemma ofLookup?_keptBindings (h : s.resolver.Admitted) (defaults : s.OmitsDefaults omitted) :
    ResolverSettings.ofLookup? (fun key _ => (tableOf (s.keptBindings omitted)).lookup key) = some s.resolver := by
  have successTtl := orDefault_keptBindings "success_ttl_secs" rfl (seconds?_of_lt h.successTtl) defaults.successTtl
  have failureTtl := orDefault_keptBindings "failure_ttl_secs" rfl (seconds?_of_lt h.failureTtl) defaults.failureTtl
  have fetchTimeout :=
    orDefault_keptBindings "fetch_timeout_secs" rfl (seconds?_of_lt h.fetchTimeout) defaults.fetchTimeout
  have userAgent :=
    orDefault_keptBindings "user_agent" rfl (rfl : text? (.text s.resolver.userAgent) = _) defaults.userAgent
  have diskCache :=
    orDefault_keptBindings "disk_cache" rfl (rfl : flag? (.boolean s.resolver.diskCache) = _) defaults.diskCache
  simp only [ResolverSettings.ofLookup?, Option.bind_eq_bind, Option.bind_eq_some_iff]
  exact ⟨_, successTtl, _, failureTtl, _, fetchTimeout, _, userAgent, _, diskCache, rfl⟩

lemma othersAreInRange_of_subset {keys : List String} {t : Table} (h : ∀ b ∈ t, b.1 ∈ keys) :
    othersAreInRange keys t = true := by
  rw [othersAreInRange, List.all_eq_true]
  rintro ⟨k, v⟩ hb
  simp [h _ hb]

lemma ofValue?_keptBindings (h : s.resolver.Admitted) (defaults : s.OmitsDefaults omitted) :
    ResolverSettings.ofValue? (.table (tableOf (s.keptBindings omitted))) = some s.resolver := by
  have known : ∀ b ∈ tableOf (s.keptBindings omitted), b.1 ∈ ResolverSettings.keys := by
    have all : ∀ b ∈ s.resolver.bindings, b.key ∈ ResolverSettings.keys := by
      simp [ResolverSettings.bindings, ResolverSettings.keys]
    exact List.forall_mem_map.mpr fun b hb => all b (List.mem_of_mem_filter hb)
  rw [ResolverSettings.ofValue?, if_pos (othersAreInRange_of_subset known)]
  exact ofLookup?_keptBindings h defaults

lemma ofTable?_tableWithout (h : s.resolver.Admitted) (defaults : s.OmitsDefaults omitted) :
    ofTable? (s.tableWithout omitted) = some s := by
  have cacheDir : orDefault (fun v => (text? v).map some) none ((s.tableWithout omitted).lookup "cache_dir") =
      some s.cacheDir := by
    unfold tableWithout topBindings
    cases hd : s.cacheDir with
    | none => cases omitted "resolver" <;> rfl
    | some d =>
      have given : ¬ omitted "cache_dir" = true := fun out => by simpa [hd] using defaults.cacheDir out
      simp only [given]
      rfl
  have resolver : orDefault ResolverSettings.ofValue? {} ((s.tableWithout omitted).lookup "resolver") =
      some s.resolver := by
    have top : (tableOf (s.topBindings omitted)).lookup "resolver" = none := by
      rcases topBindings_cases s omitted with top | ⟨d, top⟩ <;> rw [top] <;> rfl
    rw [tableWithout, List.lookup_append, top]
    split_ifs with out
    · exact congrArg some (defaults.resolver out).symm
    · exact ofValue?_keptBindings h defaults
  have known : ∀ b ∈ s.tableWithout omitted, b.1 ∈ ["cache_dir", "resolver"] := by
    rw [tableWithout, List.forall_mem_append]
    constructor
    · rcases topBindings_cases s omitted with top | ⟨d, top⟩ <;> rw [top] <;> simp [tableOf]
    · split_ifs <;> simp
  simp only [ofTable?, Option.bind_eq_bind, Option.bind_eq_some_iff]
  exact ⟨_, cacheDir, _, resolver, if_pos (othersAreInRange_of_subset known)⟩

/-- What is left of the file gives the same settings. -/
lemma ofFile_textWithout (h : s.resolver.Admitted) (defaults : s.OmitsDefaults omitted) (path : String) :
    ofFile path (s.textWithout omitted) = .ok s := by
  refine ofFile_eq_ok_iff.mpr ⟨?_, h.accepted⟩
  rw [ofText, ofText?_textWithout, Option.bind_some, ofTable?_tableWithout h defaults]

lemma omitsDefaults_none (s : Settings) : s.OmitsDefaults fun _ => false :=
  ⟨nofun, nofun, nofun, nofun, nofun, nofun, nofun⟩

/-- Any texts and any flag can be loaded from some file, and all times that can be configured and are not refused. -/
lemma exists_ofFile_iff : (∃ path text, ofFile path text = .ok s) ↔ s.resolver.Admitted := by
  constructor
  · rintro ⟨path, text, h⟩
    exact admitted_of_ofFile h
  · exact fun h => ⟨"", _, ofFile_textWithout h (omitsDefaults_none s) ""⟩

/-! ### Saving -/

lemma textWithout_none (s : Settings) : (s.textWithout fun _ => false) = s.toText := by
  unfold textWithout toText topBindings keptBindings
  cases s.cacheDir <;> simp [linesOf, ResolverSettings.bindings]

section host

variable {σ : Type} {host : Host (StateM σ)} {path text : String} {t : σ}

/-- What is written to the file at a path can be read from it. -/
def Keeps (host : Host (StateM σ)) (path : String) (t : σ) : Prop :=
  ∀ text, (host.readText path (host.writeText path text t).2).1 = .ok text

lemma fst_loadFile (host : Host (StateM σ)) (path : String) (t : σ) :
    (loadFile host path t).1 =
      match (host.readText path t).1 with
      | .error fault =>
        .error { contexts := ["Failed to read global config from " ++ path], cause := .io fault.ioKind fault.message }
      | .ok text => ofFile path text := by
  show (StateT.bind (host.readText path) _ t).1 = _
  rcases hr : host.readText path t with ⟨_ | _, after⟩ <;> simp only [StateT.bind, hr] <;> rfl

lemma admitted_of_loadFile (h : (loadFile host path t).1 = .ok s) : s.resolver.Admitted := by
  rw [fst_loadFile] at h
  split at h
  · cases h
  · exact exists_ofFile_iff.mp ⟨_, _, h⟩

/-- Settings that were loaded from any file are saved so that the same settings are loaded again. They are loaded too
from the text that was saved when keys are left out of it that have their default values. -/
theorem saved_settings_read_back {τ : Type} {other : Host (StateM τ)} {source : String} {there : τ} {before : σ}
    (loaded : (loadFile other source there).1 = .ok s) (keeps : Keeps host path (host.makeAround path before).2) :
    (∃ after, save host s path before = ((), after) ∧ (host.readText path after).1 = .ok (s.textWithout fun _ => false) ∧
        (loadFile host path after).1 = .ok s) ∧
      ∀ omitted, s.OmitsDefaults omitted → ∀ t, (host.readText path t).1 = .ok (s.textWithout omitted) →
        (loadFile host path t).1 = .ok s := by
  have admitted := admitted_of_loadFile loaded
  have left : ∀ omitted, s.OmitsDefaults omitted → ∀ t, (host.readText path t).1 = .ok (s.textWithout omitted) →
      (loadFile host path t).1 = .ok s := by
    intro omitted defaults t read
    rw [fst_loadFile, read]
    exact ofFile_textWithout admitted defaults path
  have written : (host.readText path (save host s path before).2).1 = .ok (s.textWithout fun _ => false) := by
    rw [textWithout_none]
    exact keeps s.toText
  exact ⟨⟨_, rfl, written, left _ (omitsDefaults_none s) _ written⟩, left⟩

end host

open Files (FileTree)

/-- A text can be read at the place where it was written. -/
lemma readText_write {cwd p : Files.Place} {path text : String} {t : FileTree}
    (after : (t.write p (.text text)).locate cwd path = .ok p) : (t.write p (.text text)).readText cwd path = .ok text := by
  have there : (t.write p (.text text)).file? p = some (.text text) := by simp [FileTree.file?, FileTree.write]
  simp [FileTree.readText, after, there, bind, Except.bind]

/-- A file tree keeps what is written where writing leaves the way to the file as it is. -/
lemma keeps_of_locate {cwd p : Files.Place} {values : List (String × String)} {now : Time.Instant} {path : String}
    {t : FileTree} (before : t.locate cwd path = .ok p)
    (after : ∀ text, (t.write p (.text text)).locate cwd path = .ok p) : Keeps (FileTree.host cwd values now) path t := by
  intro text
  have put : ((FileTree.host cwd values now).writeText path text t).2 = t.write p (.text text) := by
    simp [FileTree.host, modify, modifyGet, MonadStateOf.modifyGet, StateT.modifyGet, before, pure]
  rw [put]
  exact readText_write (after text)

/-- Texts with quotes of both kinds, a backslash, a control character and line breaks, and the longest time. -/
theorem saved_settings_read_back_escapes :
    let host := FileTree.host [] [] ⟨0⟩
    let path := "nested/config.toml"
    let source : FileTree := ⟨[(["config.toml"], some (.text
      "cache_dir = \"C:\\\\tmp\\u0007\\r\\n\\\"\\\"\\\"\"\n[resolver]\nsuccess_ttl_secs = 18446744073709551615\nuser_agent = 'it\"s'\n"))]⟩
    let s : Settings := {
      cacheDir := some "C:\\tmp\x07\r\n\"\"\"", resolver := { successTtl := 18446744073709551615, userAgent := "it\"s" } }
    let omitted := fun key => key == "failure_ttl_secs" || key == "disk_cache"
    (loadFile host "config.toml" source).1 = .ok s ∧ Keeps host path (host.makeAround path {}).2 ∧
      s.OmitsDefaults omitted ∧ (loadFile host path (save host s path {}).2).1 = .ok s ∧
      (loadFile host path ⟨[(["nested", "config.toml"], some (.text (s.textWithout omitted)))]⟩).1 = .ok s := by
  intro host path source s omitted
  -- reports cannot be compared, so what is decided is which settings there are
  have found : (loadFile host "config.toml" source).1.toOption = some s := by decide +kernel
  have loaded : (loadFile host "config.toml" source).1 = .ok s := by
    generalize (loadFile host "config.toml" source).1 = result at found
    cases result <;> cases found
    rfl
  have around : (host.makeAround path {}).2 = ⟨[(["nested"], none)]⟩ := by
    have entries : (host.makeAround path {}).2.entries = [(["nested"], none)] := by decide +kernel
    exact congrArg FileTree.mk entries
  have located : ∀ t : FileTree, t.isDirectory ["nested"] = true → t.locate [] path = .ok ["nested", "config.toml"] := by
    intro t nested
    have names : (path.toList.splitOn '/').map String.ofList = ["nested", "config.toml"] := by decide
    have short : ["nested", "config.toml"].any (fun s => FileTree.nameLimit < s.utf8ByteSize) = false := by decide
    have top : t.isDirectory [] = true := rfl
    rw [FileTree.locate, names, short]
    simp [FileTree.walk, nested, top, path, Files.isAbsolute, Files.parentName]
  have keeps : Keeps host path (host.makeAround path {}).2 :=
    around ▸ keeps_of_locate (located _ rfl) fun _ => located _ rfl
  have defaults : s.OmitsDefaults omitted :=
    ⟨by decide, by decide, by decide, fun _ => rfl, by decide, by decide, fun _ => rfl⟩
  obtain ⟨⟨after, saved, -, again⟩, left⟩ := saved_settings_read_back loaded keeps
  refine ⟨loaded, keeps, defaults, ?_, left omitted defaults _ ?_⟩
  · rw [saved]
    exact again
  · show FileTree.readText _ [] path = _
    rw [FileTree.readText, located _ rfl]
    rfl

end Settings

end CiWorkflow.Config
