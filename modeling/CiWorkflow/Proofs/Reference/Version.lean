import CiWorkflow.Proofs.Reference.Grammar

/-!
# What a ref decides

The ref behind a path is there to select a version of what the path names. Whether a text is a path in
the project, and whether it mentions a workflow file, is asked of the whole text, though, with the ref
in it. So two refs behind one path name two versions of one thing exactly when both questions have the
same answer for them; then no part and no address differs in more than the ref.
-/

namespace CiWorkflow.Reference

/-! ### Texts with an `@` in them -/

section at_sign

variable {w p f : List Char}

lemma prefix_at_iff (h : '@' ∉ w) : w <+: p ++ '@' :: f ↔ w <+: p := by
  refine ⟨fun ⟨t, ht⟩ => ?_, fun hw => hw.trans (List.prefix_append p _)⟩
  rcases List.append_eq_append_iff.mp ht with ⟨rest, hrest, -⟩ | ⟨rest, hrest, htail⟩
  · exact ⟨rest, hrest.symm⟩
  · cases rest with
    | nil => rw [hrest, List.append_nil]
    | cons c rest =>
      obtain ⟨hc, -⟩ := List.cons.inj htail
      exact absurd (by rw [hrest, hc]; simp) h

lemma infix_at_iff (h : '@' ∉ w) : w <:+: p ++ '@' :: f ↔ w <:+: p ∨ w <:+: f := by
  have behind {v : List Char} (hv : '@' ∉ v) (hpre : v <+: '@' :: f) : v = [] := by
    rcases List.prefix_cons_iff.mp hpre with hnil | ⟨t, rfl, -⟩
    · exact hnil
    · exact absurd List.mem_cons_self hv
  constructor
  · intro hw
    rcases List.infix_append_iff.mp hw with hp | hf | ⟨u, v, rfl, hu, hv⟩
    · exact Or.inl hp
    · rcases List.infix_cons_iff.mp hf with hpre | hf
      · exact Or.inr (by rw [behind h hpre]; exact List.nil_infix)
      · exact Or.inr hf
    · rw [behind (fun hat => h (List.mem_append_right u hat)) hv, List.append_nil]
      exact Or.inl hu.isInfix
  · rintro (hp | hf)
    · exact hp.trans (List.prefix_append p _).isInfix
    · exact hf.trans ((List.suffix_cons '@' f).trans (List.suffix_append p _)).isInfix

/-- The control directory is mentioned. -/
def MentionsControl (t : List Char) : Prop := controlDirectory.toList <:+: t

lemma isLocalText_at :
    IsLocalText (p ++ '@' :: f) ↔ "./".toList <+: p ∧ (MentionsControl p ∨ MentionsControl f) := by
  unfold IsLocalText MentionsControl
  rw [prefix_at_iff (by decide), infix_at_iff (by decide)]

lemma mentionsWorkflow_at : MentionsWorkflow (p ++ '@' :: f) ↔ MentionsWorkflow p ∨ MentionsWorkflow f := by
  unfold MentionsWorkflow
  rw [infix_at_iff (by decide), infix_at_iff (by decide)]
  tauto

end at_sign

/-! ### Paths and refs -/

/-- A path with a ref behind it. -/
def withRef (path f : String) : String := path ++ "@" ++ f

/-- What can stand behind an `@`: something without a further one and without blanks around it. -/
structure IsRef (f : List Char) : Prop where
  nonempty : f ≠ []
  at_sign : '@' ∉ f
  front : ∀ c ∈ f.head?, Text.isBlank c = false
  back : ∀ c ∈ f.getLast?, Text.isBlank c = false

instance : DecidablePred IsRef := fun f =>
  decidable_of_iff (f ≠ [] ∧ '@' ∉ f ∧ f.head?.all (!Text.isBlank ·) ∧ f.getLast?.all (!Text.isBlank ·))
    ⟨fun h => ⟨h.1, h.2.1, by simpa [Option.all_eq_true] using h.2.2.1, by simpa [Option.all_eq_true] using h.2.2.2⟩,
      fun h => ⟨h.nonempty, h.at_sign, by simpa [Option.all_eq_true] using h.front,
        by simpa [Option.all_eq_true] using h.back⟩⟩

deriving instance DecidableEq for Kind

/-- Something in a repository is named. -/
def IsRemote (r : Reference) : Prop := r.kind = .action ∨ r.kind = .workflow

section paths

variable {path f : String}

lemma toList_withRef (path f : String) : (withRef path f).toList = path.toList ++ '@' :: f.toList := by
  simp [withRef]

/-- Of a path with a ref only the blanks before the path are dropped. -/
lemma text_withRef (path : String) (hf : IsRef f.toList) :
    (ofText (withRef path f)).text = Text.trimStart path.toList ++ '@' :: f.toList := by
  have start : Text.trimStart (path.toList ++ '@' :: f.toList) = Text.trimStart path.toList ++ '@' :: f.toList := by
    have sign : Text.isBlank '@' = false := by decide
    unfold Text.trimStart
    rw [List.dropWhile_append]
    split
    · rename_i hnil
      rw [List.isEmpty_iff.mp hnil, List.nil_append, List.dropWhile_cons_of_neg (by simp [sign])]
    · rfl
  have whole : Text.trimEnd (Text.trimStart path.toList ++ '@' :: f.toList) =
      Text.trimStart path.toList ++ '@' :: f.toList := by
    refine List.rdropWhile_eq_self_iff.mpr fun hne => ?_
    have last := hf.back _ (List.getLast?_eq_getLast_of_ne_nil hf.nonempty)
    rw [List.getLast_append_of_ne_nil _ (List.cons_ne_nil _ _), List.getLast_cons hf.nonempty, last]
    exact Bool.false_ne_true
  show Text.trim (withRef path f).toList = _
  rw [toList_withRef, Text.trim, start, whole]

lemma isRef_main : IsRef "main".toList := by decide

lemma at_sign_trimStart (hp : '@' ∉ path.toList) : '@' ∉ Text.trimStart path.toList :=
  fun h => hp ((List.dropWhile_suffix _).mem h)

/-- A path behind which one ref names something in a repository is an owner, a repository and more, and so it is
behind every ref. -/
lemma exists_spelled_withRef (hp : '@' ∉ path.toList) (hr : (ofText (withRef path "main")).IsRemote) :
    let p := Text.trimStart path.toList
    ∃ owner repository more, p = owner ++ '/' :: repository ++ more ∧
      (∀ f, IsRef f → Spelled (p ++ '@' :: f) owner repository more f) ∧
      ¬ ("./".toList <+: p ∧ MentionsControl p) := by
  intro p
  obtain ⟨-, workflow, action, -⟩ := kind_ofText_iff (withRef path "main")
  rw [text_withRef path isRef_main] at workflow action
  obtain ⟨hlocal, owner, repository, more, ref, hs, -⟩ :
      ¬ IsLocalText (p ++ '@' :: "main".toList) ∧ IsRemoteText (p ++ '@' :: "main".toList) := by
    rcases hr with ha | hw
    · exact ⟨(action.mp ha).1, (action.mp ha).2.1⟩
    · exact ⟨(workflow.mp hw).1, (workflow.mp hw).2.1⟩
  have cut : p = owner ++ '/' :: repository ++ more := by
    have free : '@' ∉ p := at_sign_trimStart hp
    rw [← takeWhile_of_not_mem (v := "main".toList) free, hs.whole]
    exact takeWhile_of_not_mem hs.at_sign_path
  refine ⟨owner, repository, more, cut, fun f hf => ?_, fun h => hlocal (isLocalText_at.mpr ⟨h.1, Or.inl h.2⟩)⟩
  obtain ⟨ho, hrep, -⟩ := hs.nonempty
  obtain ⟨ao, ar, am, -⟩ := hs.at_sign
  exact ⟨by rw [cut], hs.behind, ⟨ho, hrep, hf.nonempty⟩, hs.slash, ⟨ao, ar, am, hf.at_sign⟩⟩

end paths

/-! ### Addresses by their parts -/

section addresses

variable (r : Reference)

/-- What stands behind the ref in the addresses of something in a repository. -/
def behindRef : String :=
  match r.kind with
  | .action => r.subpath ++ "/action.yml"
  | _ => "/" ++ workflowsDirectory ++ "/" ++ r.name

lemma rawUrl?_eq : r.rawUrl? =
    match r.kind with
    | .action | .workflow => some (contentHost ++ "/" ++ r.slug ++ "/" ++ r.ref ++ r.behindRef)
    | _ => none := by
  unfold rawUrl? behindRef kind
  cases h : r.target <;> simp [ref, subpath, name, h, String.append_assoc]

lemma browseUrl?_eq : r.browseUrl? =
    match r.kind with
    | .action | .workflow => some (siteHost ++ "/" ++ r.slug ++ "/blob/" ++ r.ref ++ r.behindRef)
    | _ => none := by
  unfold browseUrl? behindRef kind
  cases h : r.target <;> simp [ref, subpath, name, h, String.append_assoc]

lemma marketplaceUrl?_eq : r.marketplaceUrl? =
    match r.kind with
    | .action => some (siteHost ++ "/marketplace/" ++ r.slug)
    | _ => none := by
  unfold marketplaceUrl? kind
  cases r.target <;> rfl

lemma repositoryUrl?_eq : r.repositoryUrl? =
    match r.kind with
    | .action | .workflow => some (siteHost ++ "/" ++ r.slug ++ "/tree/" ++ r.ref)
    | _ => none := by
  unfold repositoryUrl? kind
  cases r.target <;> rfl

end addresses

/-! ### Versions -/

/-- Two addresses are the same but for a part that is `f` in one and `g` in the other. The part starts behind a slash
or an `@`, and it ends before a slash or with the address. -/
def SameButFor (f g : String) (a b : Option String) : Prop :=
  a = none ∧ b = none ∨
    ∃ front back : String, (front.toList.getLast? = some '/' ∨ front.toList.getLast? = some '@') ∧
      (back = "" ∨ back.toList.head? = some '/') ∧ a = some (front ++ f ++ back) ∧ b = some (front ++ g ++ back)

/-- Two references name one thing, in the versions `f` and `g`. -/
structure DifferOnlyInRef (f g : String) (r s : Reference) : Prop where
  kind : r.kind = s.kind
  slug : r.slug = s.slug
  subpath : r.subpath = s.subpath
  name : r.name = s.name
  location : SameButFor f g r.location? s.location?
  browse : SameButFor f g r.browseUrl? s.browseUrl?

section versions

variable {p owner repository more : List Char} {f g : String} {r s : Reference} {k : Kind}

lemma sameButFor_behind_slash (a : String) {b tail : String} (hb : b.toList.getLast? = some '/')
    (ht : tail = "" ∨ tail.toList.head? = some '/') :
    SameButFor f g (some (a ++ b ++ f ++ tail)) (some (a ++ b ++ g ++ tail)) :=
  Or.inr ⟨a ++ b, tail, Or.inl (by simp [List.getLast?_append, hb]), ht, rfl, rfl⟩

/-- What a path with a ref names, if it is of a kind. -/
def version (p owner repository more : List Char) (f : String) : Kind → Target
  | .action => .action (String.ofList owner) (String.ofList repository) (String.ofList (subpathOf more)) f
  | .workflow => .workflow (String.ofList owner) (String.ofList repository) (String.ofList (lastSegment p)) f
  | .inProject => .inProject (withRef (String.ofList p) f)
  | .unparsable => .unparsable

lemma kind_of_version (h : r.target = version p owner repository more f k) : r.kind = k := by
  unfold kind
  rw [h]
  cases k <;> rfl

/-- A path with a ref names a version, of the kind that the text is of. -/
lemma target_withRef {t : List Char} (ht : t = p ++ '@' :: f.toList) (hp : p = owner ++ '/' :: repository ++ more)
    (hs : Spelled t owner repository more f.toList) :
    targetOf t = version p owner repository more f
      (if isProjectPath t then .inProject
        else if namesWorkflow t then if (lastSegment p).isEmpty then .unparsable else .workflow
        else .action) := by
  by_cases hl : isProjectPath t = true
  · have whole : String.ofList t = withRef (String.ofList p) f := by
      apply String.toList_inj.mp
      rw [ht, toList_withRef]
      simp
    rw [targetOf, if_pos hl, if_pos hl, whole, version]
  · rw [hs.targetOf (by simpa using hl), if_neg hl, ← hp, String.ofList_toList]
    split_ifs <;> rfl

/-- Versions have the same parts. -/
lemma parts_of_version (hp : '@' ∉ p) (hr : r.target = version p owner repository more f k)
    (hs : s.target = version p owner repository more g k) :
    r.slug = s.slug ∧ r.subpath = s.subpath ∧ r.name = s.name := by
  have path (v : String) : (withRef (String.ofList p) v).toList.takeWhile (· != '@') = p := by
    rw [toList_withRef, String.toList_ofList, takeWhile_of_not_mem hp]
  cases k <;> simp only [version] at hr hs <;> simp [slug, subpath, name, hr, hs, path]

/-- What stands behind the ref of a version starts with a slash. -/
lemma head?_behindRef (hr : r.target = version p owner repository more f k) :
    r.behindRef.toList.head? = some '/' := by
  unfold behindRef
  rw [kind_of_version hr]
  cases k with
  | action =>
    have hsub : r.subpath.toList = subpathOf more := by simp [subpath, hr, version]
    rw [String.toList_append, hsub]
    rcases isSubpath_subpathOf more with hnil | ⟨⟨rest, hrest⟩, -⟩
    · rw [hnil]
      rfl
    · rw [hrest]
      rfl
  | _ => simp

lemma behindRef_of_version (hp : '@' ∉ p) (hr : r.target = version p owner repository more f k)
    (hs : s.target = version p owner repository more g k) : r.behindRef = s.behindRef := by
  obtain ⟨-, subpaths, names⟩ := parts_of_version hp hr hs
  unfold behindRef
  rw [kind_of_version hr, kind_of_version hs, subpaths, names]

/-- Something in a repository has its ref, and it is downloaded. -/
lemma ref_of_version (hr : r.target = version p owner repository more f k) (hk : k = .action ∨ k = .workflow) :
    r.ref = f ∧ r.location? = r.rawUrl? := by
  rcases hk with rfl | rfl <;> simp [ref, location?, hr, version]

/-- The addresses of two versions of something in a repository. -/
lemma sameButFor_of_remote (hp : '@' ∉ p) (hr : r.target = version p owner repository more f k)
    (hs : s.target = version p owner repository more g k) (hk : k = .action ∨ k = .workflow) :
    SameButFor f g r.location? s.location? ∧ SameButFor f g r.browseUrl? s.browseUrl? ∧
      SameButFor f g r.repositoryUrl? s.repositoryUrl? := by
  obtain ⟨refr, rawr⟩ := ref_of_version hr hk
  obtain ⟨refs, raws⟩ := ref_of_version hs hk
  have tail : s.behindRef = "" ∨ s.behindRef.toList.head? = some '/' := Or.inr (head?_behindRef hs)
  have content := sameButFor_behind_slash (f := f) (g := g) (contentHost ++ "/" ++ s.slug) (b := "/") (by decide) tail
  have page := sameButFor_behind_slash (f := f) (g := g) (siteHost ++ "/" ++ s.slug) (b := "/blob/") (by decide) tail
  have tree := sameButFor_behind_slash (f := f) (g := g) (siteHost ++ "/" ++ s.slug) (b := "/tree/") (by decide)
    (Or.inl rfl)
  rw [String.append_empty, String.append_empty] at tree
  rw [rawr, raws, rawUrl?_eq, rawUrl?_eq, browseUrl?_eq, browseUrl?_eq, repositoryUrl?_eq, repositoryUrl?_eq,
    kind_of_version hr, kind_of_version hs, (parts_of_version hp hr hs).1, behindRef_of_version hp hr hs, refr, refs]
  rcases hk with rfl | rfl <;> exact ⟨content, page, tree⟩

/-- Other texts are no pages, and a path in the project is its own address, with the ref at the end. -/
lemma sameButFor_of_not_remote (hr : r.target = version p owner repository more f k)
    (hs : s.target = version p owner repository more g k) (hk : k = .inProject ∨ k = .unparsable) :
    SameButFor f g r.location? s.location? ∧ SameButFor f g r.browseUrl? s.browseUrl? ∧
      SameButFor f g r.repositoryUrl? s.repositoryUrl? := by
  have nowhere : SameButFor f g none none := Or.inl ⟨rfl, rfl⟩
  rw [browseUrl?_eq, browseUrl?_eq, repositoryUrl?_eq, repositoryUrl?_eq, kind_of_version hr, kind_of_version hs]
  rcases hk with rfl | rfl
  · refine ⟨Or.inr ⟨String.ofList p ++ "@", "", Or.inr (by simp), Or.inl rfl, ?_, ?_⟩, nowhere, nowhere⟩
    · simp [location?, hr, version, withRef]
    · simp [location?, hs, version, withRef]
  · refine ⟨Or.inl ⟨?_, ?_⟩, nowhere, nowhere⟩
    · simp [location?, rawUrl?, hr, version]
    · simp [location?, rawUrl?, hs, version]

/-- Two versions of one thing have the same parts, and addresses that are the same but for the ref. -/
lemma differOnlyInRef_of_version (hp : '@' ∉ p) (hr : r.target = version p owner repository more f k)
    (hs : s.target = version p owner repository more g k) :
    DifferOnlyInRef f g r s ∧ r.marketplaceUrl? = s.marketplaceUrl? ∧
      SameButFor f g r.repositoryUrl? s.repositoryUrl? := by
  have kinds : r.kind = s.kind := (kind_of_version hr).trans (kind_of_version hs).symm
  obtain ⟨slugs, subpaths, names⟩ := parts_of_version hp hr hs
  have marketplace : r.marketplaceUrl? = s.marketplaceUrl? := by
    rw [marketplaceUrl?_eq, marketplaceUrl?_eq, kinds, slugs]
  have addresses : SameButFor f g r.location? s.location? ∧ SameButFor f g r.browseUrl? s.browseUrl? ∧
      SameButFor f g r.repositoryUrl? s.repositoryUrl? := by
    cases hk : k with
    | action => exact sameButFor_of_remote hp hr hs (Or.inl hk)
    | workflow => exact sameButFor_of_remote hp hr hs (Or.inr hk)
    | inProject => exact sameButFor_of_not_remote hr hs (Or.inl hk)
    | unparsable => exact sameButFor_of_not_remote hr hs (Or.inr hk)
  obtain ⟨location, browse, repository⟩ := addresses
  exact ⟨⟨kinds, slugs, subpaths, names, location, browse⟩, marketplace, repository⟩

end versions

/-! ### What is asked of a path with a ref -/

/-- The whole text is a path in the project, for a path `p` that is none without the ref `f`. -/
def LocalAt (p f : List Char) : Prop := "./".toList <+: p ∧ MentionsControl f

/-- The whole text mentions a workflow file. -/
def WorkflowAt (p f : List Char) : Prop := MentionsWorkflow p ∨ MentionsWorkflow f

instance (p f : List Char) : Decidable (LocalAt p f) :=
  inferInstanceAs (Decidable ("./".toList <+: p ∧ controlDirectory.toList <:+: f))

instance (p f : List Char) : Decidable (WorkflowAt p f) :=
  decidable_of_iff (namesWorkflow p = true ∨ namesWorkflow f = true) (or_congr namesWorkflow_iff namesWorkflow_iff)

/-- The kind of what the path `p` names with a ref, where a workflow file is mentioned. -/
def workflowKind (p : List Char) : Kind := if (lastSegment p).isEmpty then .unparsable else .workflow

/-- The kind of what the path `p` names with the ref `f`, as the two questions decide it. -/
structure KindAt (p f : List Char) (k : Kind) : Prop where
  inProject : LocalAt p f → k = .inProject
  action : ¬ LocalAt p f → ¬ WorkflowAt p f → k = .action
  workflow : ¬ LocalAt p f → WorkflowAt p f → k = workflowKind p

/-- Where one ref behind a path names something in a repository, a version is named at every ref. -/
lemma exists_version {path : String} (hp : '@' ∉ path.toList) (hr : (ofText (withRef path "main")).IsRemote) :
    let p := Text.trimStart path.toList
    ∃ owner repository more, ∀ f : String, IsRef f.toList →
      let r := ofText (withRef path f)
      r.target = version p owner repository more f r.kind ∧ KindAt p f.toList r.kind := by
  intro p
  obtain ⟨owner, repository, more, cut, spelled, hlocal⟩ := exists_spelled_withRef hp hr
  refine ⟨owner, repository, more, fun f hf => ?_⟩
  intro r
  have text : r.text = p ++ '@' :: f.toList := text_withRef path hf
  have target := target_withRef text cut (text ▸ spelled f.toList hf)
  have kind : r.kind = _ := kind_of_version target
  have hl : isProjectPath r.text = true ↔ LocalAt p f.toList := by
    rw [isProjectPath_iff, text, isLocalText_at]
    exact ⟨fun h => ⟨h.1, h.2.resolve_left fun hc => hlocal ⟨h.1, hc⟩⟩, fun h => ⟨h.1, Or.inr h.2⟩⟩
  have hw : namesWorkflow r.text = true ↔ WorkflowAt p f.toList := by
    rw [namesWorkflow_iff, text, mentionsWorkflow_at, WorkflowAt]
  refine ⟨?_, fun h => ?_, fun h hn => ?_, fun h hn => ?_⟩
  · rw [kind]
    exact target
  · rw [kind, if_pos (hl.mpr h)]
  · rw [kind, if_neg (mt hl.mp h), if_neg (mt hw.mp hn)]
  · rw [kind, if_neg (mt hl.mp h), if_pos (hw.mpr hn), workflowKind]

/-- The kinds at two refs are the same where both questions have the same answers; for paths in the project the second
one does not count. -/
lemma KindAt.eq_iff {p f g : List Char} {k k' : Kind} (h : KindAt p f k) (h' : KindAt p g k') :
    k = k' ↔ (LocalAt p f ↔ LocalAt p g) ∧ (LocalAt p f ∨ (WorkflowAt p f ↔ WorkflowAt p g)) := by
  have action : Kind.action ≠ .inProject := Kind.noConfusion
  have inProject : workflowKind p ≠ .inProject := by
    unfold workflowKind
    split <;> exact Kind.noConfusion
  have other : workflowKind p ≠ .action := by
    unfold workflowKind
    split <;> exact Kind.noConfusion
  by_cases l : LocalAt p f <;> by_cases l' : LocalAt p g
  · simp [h.inProject l, h'.inProject l', l, l']
  · by_cases w' : WorkflowAt p g
    · simp [h.inProject l, h'.workflow l' w', l, l', inProject.symm]
    · simp [h.inProject l, h'.action l' w', l, l', action.symm]
  · by_cases w : WorkflowAt p f
    · simp [h.workflow l w, h'.inProject l', l, l', inProject]
    · simp [h.action l w, h'.inProject l', l, l', action]
  · by_cases w : WorkflowAt p f <;> by_cases w' : WorkflowAt p g
    · simp [h.workflow l w, h'.workflow l' w', l, l', w, w']
    · simp [h.workflow l w, h'.action l' w', l, l', w, w', other]
    · simp [h.action l w, h'.workflow l' w', l, l', w, w', other.symm]
    · simp [h.action l w, h'.action l' w', l, l', w, w']

/-- Behind a path with which something in a repository is named at `main`, two refs name versions of one thing exactly
when they agree in whether the whole text is a path in the project and, where it is none, in whether a workflow file
is mentioned; then the other addresses differ in no more than the ref either. -/
theorem differ_only_in_ref_iff {path f g : String} (hp : '@' ∉ path.toList)
    (hr : (ofText (withRef path "main")).IsRemote) (hf : IsRef f.toList) (hg : IsRef g.toList) :
    let r := ofText (withRef path f)
    let s := ofText (withRef path g)
    let p := Text.trimStart path.toList
    (DifferOnlyInRef f g r s ↔
        (LocalAt p f.toList ↔ LocalAt p g.toList) ∧
          (LocalAt p f.toList ∨ (WorkflowAt p f.toList ↔ WorkflowAt p g.toList))) ∧
      (DifferOnlyInRef f g r s →
        r.marketplaceUrl? = s.marketplaceUrl? ∧ SameButFor f g r.repositoryUrl? s.repositoryUrl?) := by
  intro r s p
  obtain ⟨owner, repository, more, named⟩ := exists_version hp hr
  obtain ⟨targetf, kindf⟩ := named f hf
  obtain ⟨targetg, kindg⟩ := named g hg
  -- what differs in more than the ref differs in kind
  have alike (h : r.kind = s.kind) := differOnlyInRef_of_version (at_sign_trimStart hp) targetf (h ▸ targetg)
  rw [← kindf.eq_iff kindg]
  exact ⟨⟨fun h => h.kind, fun h => (alike h).1⟩, fun h => (alike h.kind).2⟩

/-- Two versions of an action that is not at the top of its repository. -/
theorem differ_only_in_ref_subpath :
    '@' ∉ " github/codeql-action/init/".toList ∧ (ofText (withRef " github/codeql-action/init/" "main")).IsRemote ∧
      IsRef "v3".toList ∧ IsRef "releases/v2.1".toList ∧
      DifferOnlyInRef "v3" "releases/v2.1" (ofText (withRef " github/codeql-action/init/" "v3"))
        (ofText (withRef " github/codeql-action/init/" "releases/v2.1")) := by
  have free : '@' ∉ " github/codeql-action/init/".toList := by decide
  have remote : (ofText (withRef " github/codeql-action/init/" "main")).IsRemote := Or.inl (by decide)
  have v3 : IsRef "v3".toList := by decide
  have releases : IsRef "releases/v2.1".toList := by decide
  exact ⟨free, remote, v3, releases,
    (differ_only_in_ref_iff free remote v3 releases).1.mpr ⟨by decide, Or.inr (by decide)⟩⟩

/-- A branch that is called like a workflow file makes an action to a workflow. -/
theorem not_differ_only_in_ref_yml :
    '@' ∉ "o/a".toList ∧ (ofText (withRef "o/a" "main")).IsRemote ∧ IsRef "v1".toList ∧ IsRef "v1.yml".toList ∧
      ¬ DifferOnlyInRef "v1" "v1.yml" (ofText (withRef "o/a" "v1")) (ofText (withRef "o/a" "v1.yml")) := by
  have kinds : (ofText (withRef "o/a" "v1")).kind ≠ (ofText (withRef "o/a" "v1.yml")).kind := by decide
  exact ⟨by decide, Or.inl (by decide), by decide, by decide, fun h => kinds h.kind⟩

end CiWorkflow.Reference
