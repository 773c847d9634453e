import CiWorkflow.Reference.Location
import Mathlib.Data.List.DropRight
import Mathlib.Data.List.Infix
import Mathlib.Data.List.TakeWhile
import Mathlib.Tactic.Lemma

/-!
# The grammar of references

What a text names is decided by how it is spelled. A text that starts with `./` and mentions the
control directory is a path in the project. Any other text names something in a repository exactly
when it is spelled `owner/repository@ref`, with more between repository and ref where a slash stands
in front of it; all else names nothing. No character of the text is lost in the parts.
-/

namespace CiWorkflow.Reference

/-! ### Cutting texts -/

section cuts

variable {x : Char} {u v t : List Char}

lemma takeWhile_of_not_mem (h : x ∉ u) : (u ++ x :: v).takeWhile (· != x) = u := by
  have all : ∀ c ∈ u, (c != x) = true := fun c hc => by
    have : c ≠ x := fun hx => h (hx ▸ hc)
    simpa using this
  rw [List.takeWhile_append_of_pos all]
  simp

lemma dropWhile_of_not_mem (h : x ∉ u) : (u ++ x :: v).dropWhile (· != x) = x :: v := by
  have all : ∀ c ∈ u, (c != x) = true := fun c hc => by
    have : c ≠ x := fun hx => h (hx ▸ hc)
    simpa using this
  rw [List.dropWhile_append_of_pos all]
  simp

lemma takeWhile_eq_self_of_not_mem (h : x ∉ u) : u.takeWhile (· != x) = u := by
  refine List.takeWhile_eq_self_iff.mpr fun c hc => ?_
  have : c ≠ x := fun hx => h (hx ▸ hc)
  simpa using this

lemma not_mem_takeWhile (x : Char) (t : List Char) : x ∉ t.takeWhile (· != x) := by
  intro h
  have := List.mem_takeWhile_imp h
  simp at this

/-- What is left behind the first `x` starts with it. -/
lemma dropWhile_cases (x : Char) (t : List Char) :
    x ∉ t ∧ t.dropWhile (· != x) = [] ∨ ∃ r, t.dropWhile (· != x) = x :: r := by
  by_cases h : x ∈ t
  · obtain ⟨before, after, rfl, hx⟩ := List.eq_append_cons_of_mem h
    exact Or.inr ⟨after, dropWhile_of_not_mem hx⟩
  · left
    refine ⟨h, List.dropWhile_eq_nil_iff.mpr fun c hc => ?_⟩
    have : c ≠ x := fun hx => h (hx ▸ hc)
    simpa using this

lemma occurs_iff (part t : List Char) : occurs part t = true ↔ part <:+: t := by
  induction t with
  | nil => simp [occurs]
  | cons c r ih => rw [occurs, Bool.or_eq_true, List.isPrefixOf_iff_prefix, ih, List.infix_cons_iff]

/-! ### Slashes -/

lemma lastSegment_of_not_mem (h : '/' ∉ v) : lastSegment (u ++ '/' :: v) = v := by
  have reversed : (u ++ '/' :: v).reverse = v.reverse ++ '/' :: u.reverse := by simp
  rw [lastSegment, reversed, takeWhile_of_not_mem (by simpa using h), List.reverse_reverse]

/-- A text with a slash in it is what stands before the last one, the slash, and the last segment. -/
lemma exists_front (h : '/' ∈ t) : ∃ front, t = front ++ '/' :: lastSegment t ∧ '/' ∉ lastSegment t := by
  obtain ⟨before, after, hr, hb⟩ := List.eq_append_cons_of_mem (List.mem_reverse.mpr h)
  have ht : t = after.reverse ++ '/' :: before.reverse := by
    have := congrArg List.reverse hr
    simpa using this
  have hlast : lastSegment t = before.reverse := by
    rw [ht]
    exact lastSegment_of_not_mem (by simpa using hb)
  exact ⟨after.reverse, by rw [hlast, ← ht], by rw [hlast]; simpa using hb⟩

lemma trimSlashes_eq (t : List Char) : trimSlashes t = t.rdropWhile (· == '/') := rfl

/-- Nothing but slashes is dropped, and all that are at the end. -/
lemma exists_slashes (t : List Char) : ∃ k, t = trimSlashes t ++ List.replicate k '/' := by
  have slashes : ∀ c ∈ t.rtakeWhile (· == '/'), c = '/' := by
    intro c hc
    simpa using List.mem_rtakeWhile_imp hc
  refine ⟨(t.rtakeWhile (· == '/')).length, ?_⟩
  rw [← List.eq_replicate_of_mem slashes, trimSlashes_eq, List.rdropWhile_append_rtakeWhile]

lemma getLast_trimSlashes (hne : trimSlashes t ≠ []) : (trimSlashes t).getLast hne ≠ '/' := by
  intro h
  exact List.rdropWhile_last_not (· == '/') t hne (by rw [beq_iff_eq]; exact h)

/-- A subpath is empty, or starts with a slash and ends with none. -/
def IsSubpath (s : List Char) : Prop := s = [] ∨ (∃ r, s = '/' :: r) ∧ ∀ hne : s ≠ [], s.getLast hne ≠ '/'

lemma isSubpath_subpathOf (t : List Char) : IsSubpath (subpathOf t) := by
  unfold subpathOf
  split
  · exact Or.inl rfl
  · rename_i r
    split
    · exact Or.inl rfl
    · rename_i hne
      rw [List.isEmpty_iff] at hne
      refine Or.inr ⟨⟨_, rfl⟩, fun _ => ?_⟩
      rw [List.getLast_cons hne]
      exact getLast_trimSlashes hne

/-- The subpath keeps all but the slashes at the end. -/
lemma exists_slashes_subpathOf (h : t = [] ∨ ∃ r, t = '/' :: r) :
    ∃ k, t = subpathOf t ++ List.replicate k '/' := by
  rcases h with rfl | ⟨r, rfl⟩
  · exact ⟨0, rfl⟩
  · obtain ⟨k, hk⟩ := exists_slashes r
    unfold subpathOf
    dsimp only
    split
    · rename_i hnil
      rw [List.isEmpty_iff] at hnil
      refine ⟨k + 1, ?_⟩
      conv_lhs => rw [hk, hnil]
      rfl
    · refine ⟨k, ?_⟩
      conv_lhs => rw [hk]
      rfl

end cuts

/-! ### Spellings -/

/-- What kind of thing a reference names. -/
inductive Kind where
  | action
  | workflow
  | inProject
  | unparsable

def kind (r : Reference) : Kind :=
  match r.target with
  | .action .. => .action
  | .workflow .. => .workflow
  | .inProject _ => .inProject
  | .unparsable => .unparsable

/-- A path in the project. -/
def IsLocalText (t : List Char) : Prop := "./".toList <+: t ∧ controlDirectory.toList <:+: t

/-- A workflow file is mentioned. -/
def MentionsWorkflow (t : List Char) : Prop := ".yml".toList <:+: t ∨ ".yaml".toList <:+: t

/-- `t` is `owner/repository@ref`, with `more` behind the repository, which is empty or starts with a
slash. -/
structure Spelled (t owner repository more ref : List Char) : Prop where
  whole : t = owner ++ '/' :: repository ++ more ++ '@' :: ref
  behind : more = [] ∨ ∃ rest, more = '/' :: rest
  nonempty : owner ≠ [] ∧ repository ≠ [] ∧ ref ≠ []
  slash : '/' ∉ owner ∧ '/' ∉ repository
  at_sign : '@' ∉ owner ∧ '@' ∉ repository ∧ '@' ∉ more ∧ '@' ∉ ref

/-- `file` is what stands behind the last slash. -/
def EndsIn (path file : List Char) : Prop := '/' ∉ file ∧ ∃ front, path = front ++ '/' :: file

/-- Something in a repository is named: the text is spelled so, and if it mentions a workflow file its
path does not end with a slash. -/
def IsRemoteText (t : List Char) : Prop :=
  ∃ owner repository more ref, Spelled t owner repository more ref ∧
    (MentionsWorkflow t → ∃ file, file ≠ [] ∧ EndsIn (owner ++ '/' :: repository ++ more) file)

variable {t owner repository more ref : List Char}

lemma isProjectPath_iff : isProjectPath t = true ↔ IsLocalText t := by
  rw [isProjectPath, Bool.and_eq_true, List.isPrefixOf_iff_prefix, occurs_iff]
  rfl

lemma namesWorkflow_iff : namesWorkflow t = true ↔ MentionsWorkflow t := by
  rw [namesWorkflow, Bool.or_eq_true, occurs_iff, occurs_iff]
  rfl

lemma EndsIn.lastSegment {path file : List Char} (h : EndsIn path file) : lastSegment path = file := by
  obtain ⟨hfile, front, rfl⟩ := h
  exact lastSegment_of_not_mem hfile

namespace Spelled

variable (h : Spelled t owner repository more ref)

include h

lemma at_sign_path : '@' ∉ owner ++ '/' :: repository ++ more := by
  obtain ⟨ho, hr, hm, -⟩ := h.at_sign
  simp only [List.mem_append, List.mem_cons, not_or]
  exact ⟨⟨ho, by decide, hr⟩, hm⟩

omit h in
lemma endsIn (owner repository more : List Char) :
    EndsIn (owner ++ '/' :: repository ++ more) (lastSegment (owner ++ '/' :: repository ++ more)) := by
  obtain ⟨front, hfront, hlast⟩ := exists_front (t := owner ++ '/' :: repository ++ more) (by simp)
  exact ⟨hlast, front, hfront⟩

/-- The text is cut where it is spelled. -/
lemma targetOf (hlocal : isProjectPath t = false) :
    Reference.targetOf t =
      if namesWorkflow t then
        if (lastSegment (owner ++ '/' :: repository ++ more)).isEmpty then .unparsable
        else .workflow (String.ofList owner) (String.ofList repository)
          (String.ofList (lastSegment (owner ++ '/' :: repository ++ more))) (String.ofList ref)
      else .action (String.ofList owner) (String.ofList repository) (String.ofList (subpathOf more))
        (String.ofList ref) := by
  obtain ⟨ho, hr, hf⟩ := h.nonempty
  have path : t.takeWhile (· != '@') = owner ++ '/' :: repository ++ more := by
    rw [h.whole]
    exact takeWhile_of_not_mem h.at_sign_path
  have behind : t.dropWhile (· != '@') = '@' :: ref := by
    rw [h.whole]
    exact dropWhile_of_not_mem h.at_sign_path
  have cut : owner ++ '/' :: repository ++ more = owner ++ '/' :: (repository ++ more) := by simp
  have front : (owner ++ '/' :: repository ++ more).takeWhile (· != '/') = owner := by
    rw [cut, takeWhile_of_not_mem h.slash.1]
  have tail : ((owner ++ '/' :: repository ++ more).dropWhile (· != '/')).drop 1 = repository ++ more := by
    rw [cut, dropWhile_of_not_mem h.slash.1]
    rfl
  have repo : (repository ++ more).takeWhile (· != '/') = repository := by
    rcases h.behind with rfl | ⟨rest, rfl⟩
    · rw [List.append_nil, takeWhile_eq_self_of_not_mem h.slash.2]
    · exact takeWhile_of_not_mem h.slash.2
  have rest : (repository ++ more).dropWhile (· != '/') = more := by
    have whole := List.takeWhile_append_dropWhile (p := (· != '/')) (l := repository ++ more)
    rw [repo] at whole
    exact List.append_cancel_left whole
  have named : (owner.isEmpty || repository.isEmpty || ref.isEmpty || ref.contains '@') = false := by
    simp [ho, hr, hf, h.at_sign.2.2.2]
  unfold Reference.targetOf
  rw [hlocal, if_neg Bool.false_ne_true, behind]
  dsimp only
  rw [path]
  unfold remoteTarget
  simp only [front, tail, repo, rest, named, Bool.false_eq_true, if_false]

end Spelled

/-- A text that names something but is no path in the project is spelled as something in a
repository. -/
lemma exists_spelled (hlocal : isProjectPath t = false) (ht : targetOf t ≠ .unparsable) :
    ∃ owner repository more ref, Spelled t owner repository more ref := by
  unfold targetOf at ht
  rw [hlocal, if_neg Bool.false_ne_true] at ht
  rcases dropWhile_cases '@' t with ⟨-, hnil⟩ | ⟨ref, hcons⟩
  · rw [hnil] at ht
    exact absurd rfl ht
  rw [hcons] at ht
  dsimp only at ht
  unfold remoteTarget at ht
  dsimp only at ht
  split at ht
  · exact absurd rfl ht
  rename_i named
  simp only [Bool.or_eq_true, List.isEmpty_iff, not_or] at named
  obtain ⟨⟨⟨howner, hrepo⟩, href⟩, hat⟩ := named
  set path := t.takeWhile (· != '@') with hpath
  have free : '@' ∉ path := not_mem_takeWhile '@' t
  have whole : path ++ '@' :: ref = t := by
    rw [hpath, ← hcons, List.takeWhile_append_dropWhile]
  -- there is a slash, since there is a repository
  rcases dropWhile_cases '/' path with ⟨-, hnil⟩ | ⟨tail, htail⟩
  · rw [hnil] at hrepo
    exact absurd rfl hrepo
  rw [htail, List.drop_succ_cons, List.drop_zero] at hrepo
  have hp : path = path.takeWhile (· != '/') ++ '/' :: tail := by
    rw [← htail, List.takeWhile_append_dropWhile]
  have htl : tail = tail.takeWhile (· != '/') ++ tail.dropWhile (· != '/') := by
    rw [List.takeWhile_append_dropWhile]
  have split : path = path.takeWhile (· != '/') ++ '/' :: tail.takeWhile (· != '/') ++
      tail.dropWhile (· != '/') := by
    rw [List.append_assoc, List.cons_append, ← htl, ← hp]
  have frees := free
  rw [split] at frees
  simp only [List.mem_append, List.mem_cons, not_or] at frees
  refine ⟨path.takeWhile (· != '/'), tail.takeWhile (· != '/'), tail.dropWhile (· != '/'), ref, ?_, ?_, ?_, ?_, ?_⟩
  · rw [← split, whole]
  · rcases dropWhile_cases '/' tail with ⟨-, hnil⟩ | h
    · exact Or.inl hnil
    · exact Or.inr h
  · exact ⟨howner, hrepo, href⟩
  · exact ⟨not_mem_takeWhile '/' path, not_mem_takeWhile '/' tail⟩
  · exact ⟨frees.1.1, frees.1.2.2, frees.2, by simpa using hat⟩

lemma targetOf_of_local (h : IsLocalText t) : targetOf t = .inProject (String.ofList t) := by
  rw [targetOf, if_pos (isProjectPath_iff.mpr h)]

/-- A text that is no path in the project names something exactly when it is spelled as something in a
repository. -/
lemma targetOf_ne_unparsable_iff (h : ¬ IsLocalText t) : targetOf t ≠ .unparsable ↔ IsRemoteText t := by
  have hlocal : isProjectPath t = false := by rwa [← Bool.not_eq_true, isProjectPath_iff]
  constructor
  · intro ht
    obtain ⟨owner, repository, more, ref, hs⟩ := exists_spelled hlocal ht
    refine ⟨owner, repository, more, ref, hs, fun hw => ?_⟩
    rw [hs.targetOf hlocal, if_pos (namesWorkflow_iff.mpr hw)] at ht
    refine ⟨_, fun hnil => ?_, Spelled.endsIn owner repository more⟩
    rw [hnil] at ht
    exact ht rfl
  · rintro ⟨owner, repository, more, ref, hs, hfile⟩
    rw [hs.targetOf hlocal]
    split
    · rename_i hw
      obtain ⟨file, hne, hends⟩ := hfile (namesWorkflow_iff.mp hw)
      rw [hends.lastSegment, if_neg (by simpa using hne)]
      exact fun h => Target.noConfusion h
    · exact fun h => Target.noConfusion h

/-- A reference is what the spelling of its text says. One that names nothing has no parts and no
addresses. The parts of one that names something in a repository are those of the spelling, and with
the slashes behind the subpath they are the whole text. -/
structure IsAsSpelled (r : Reference) : Prop where
  inProject_iff : r.kind = .inProject ↔ IsLocalText r.text
  workflow_iff : r.kind = .workflow ↔ ¬ IsLocalText r.text ∧ IsRemoteText r.text ∧ MentionsWorkflow r.text
  action_iff : r.kind = .action ↔ ¬ IsLocalText r.text ∧ IsRemoteText r.text ∧ ¬ MentionsWorkflow r.text
  unparsable_iff : r.kind = .unparsable ↔ ¬ IsLocalText r.text ∧ ¬ IsRemoteText r.text
  no_parts : r.kind = .unparsable → r.slug = "" ∧ r.ref = "" ∧ r.subpath = "" ∧ r.name = ""
  no_address : r.kind = .unparsable → r.location? = none ∧ r.rawUrl? = none ∧ r.browseUrl? = none ∧
    r.marketplaceUrl? = none ∧ r.repositoryUrl? = none
  action : ∀ owner repository more ref, Spelled r.text owner repository more ref → r.kind = .action →
    r.slug.toList = owner ++ '/' :: repository ∧ r.ref.toList = ref ∧ r.name.toList = repository ∧
      IsSubpath r.subpath.toList ∧
      ∃ k, r.text = r.slug.toList ++ r.subpath.toList ++ List.replicate k '/' ++ '@' :: r.ref.toList
  workflow : ∀ owner repository more ref, Spelled r.text owner repository more ref → r.kind = .workflow →
    r.slug.toList = owner ++ '/' :: repository ∧ r.ref.toList = ref ∧
      EndsIn (owner ++ '/' :: repository ++ more) r.name.toList ∧ r.name.toList ++ '@' :: r.ref.toList <:+ r.text

section parts

variable {r : Reference}

lemma no_parts_of_unparsable (h : r.target = .unparsable) :
    r.slug = "" ∧ r.ref = "" ∧ r.subpath = "" ∧ r.name = "" := by
  simp [slug, Reference.ref, subpath, name, h]

lemma no_address_of_unparsable (h : r.target = .unparsable) : r.location? = none ∧ r.rawUrl? = none ∧
    r.browseUrl? = none ∧ r.marketplaceUrl? = none ∧ r.repositoryUrl? = none := by
  simp [location?, rawUrl?, browseUrl?, marketplaceUrl?, repositoryUrl?, h]

lemma kind_eq_unparsable_iff : r.kind = .unparsable ↔ r.target = .unparsable := by
  unfold kind
  split <;> simp_all

/-- What the parts of an action are, where it is spelled. -/
lemma Spelled.action (hs : Spelled t owner repository more ref)
    (h : r.target = .action (String.ofList owner) (String.ofList repository) (String.ofList (subpathOf more))
      (String.ofList ref)) :
    r.slug.toList = owner ++ '/' :: repository ∧ r.ref.toList = ref ∧ r.name.toList = repository ∧
      IsSubpath r.subpath.toList ∧
      ∃ k, t = r.slug.toList ++ r.subpath.toList ++ List.replicate k '/' ++ '@' :: r.ref.toList := by
  obtain ⟨k, hmore⟩ := exists_slashes_subpathOf hs.behind
  have slug_eq : r.slug.toList = owner ++ '/' :: repository := by simp [slug, h]
  have ref_eq : r.ref.toList = ref := by simp [Reference.ref, h]
  have subpath_eq : r.subpath.toList = subpathOf more := by simp [subpath, h]
  refine ⟨slug_eq, ref_eq, by simp [name, h], ?_, k, ?_⟩
  · rw [subpath_eq]
    exact isSubpath_subpathOf more
  · rw [slug_eq, ref_eq, subpath_eq, List.append_assoc (owner ++ '/' :: repository), ← hmore]
    exact hs.whole

/-- What the parts of a workflow are, where it is spelled. -/
lemma Spelled.workflow (hs : Spelled t owner repository more ref)
    (h : r.target = .workflow (String.ofList owner) (String.ofList repository)
      (String.ofList (lastSegment (owner ++ '/' :: repository ++ more))) (String.ofList ref)) :
    r.slug.toList = owner ++ '/' :: repository ∧ r.ref.toList = ref ∧
      EndsIn (owner ++ '/' :: repository ++ more) r.name.toList ∧ r.name.toList ++ '@' :: r.ref.toList <:+ t := by
  obtain ⟨hfile, front, hpath⟩ := Spelled.endsIn owner repository more
  have ref_eq : r.ref.toList = ref := by simp [Reference.ref, h]
  have name_eq : r.name.toList = lastSegment (owner ++ '/' :: repository ++ more) := by simp [name, h]
  refine ⟨by simp [slug, h], ref_eq, ?_, ?_⟩
  · rw [name_eq]
    exact ⟨hfile, front, hpath⟩
  · have whole : t = (front ++ ['/']) ++ (r.name.toList ++ '@' :: r.ref.toList) := by
      calc t = owner ++ '/' :: repository ++ more ++ '@' :: ref := hs.whole
        _ = front ++ '/' :: r.name.toList ++ '@' :: ref := by rw [name_eq, ← hpath]
        _ = _ := by rw [ref_eq]; simp
    exact ⟨front ++ ['/'], whole.symm⟩

end parts

/-- The kind of what a text names is decided by its spelling. -/
lemma kind_ofText_iff (raw : String) :
    ((ofText raw).kind = .inProject ↔ IsLocalText (ofText raw).text) ∧
      ((ofText raw).kind = .workflow ↔ ¬ IsLocalText (ofText raw).text ∧ IsRemoteText (ofText raw).text ∧
        MentionsWorkflow (ofText raw).text) ∧
      ((ofText raw).kind = .action ↔ ¬ IsLocalText (ofText raw).text ∧ IsRemoteText (ofText raw).text ∧
        ¬ MentionsWorkflow (ofText raw).text) ∧
      ((ofText raw).kind = .unparsable ↔ ¬ IsLocalText (ofText raw).text ∧ ¬ IsRemoteText (ofText raw).text) := by
  have target : (ofText raw).target = targetOf (ofText raw).text := rfl
  unfold kind
  rw [target]
  generalize (ofText raw).text = t
  by_cases h : IsLocalText t
  · simp [targetOf_of_local h, h]
  have hlocal : isProjectPath t = false := by rwa [← Bool.not_eq_true, isProjectPath_iff]
  have named := targetOf_ne_unparsable_iff h
  by_cases hr : IsRemoteText t
  · have hne := named.mpr hr
    obtain ⟨owner, repository, more, ref, hs, -⟩ := hr
    have remote := hs.targetOf hlocal
    by_cases hw : MentionsWorkflow t
    · rw [if_pos (namesWorkflow_iff.mpr hw)] at remote
      split_ifs at remote with hnil
      · exact absurd remote hne
      · simp [remote, h, hw, named.mp hne]
    · rw [if_neg (fun hn => hw (namesWorkflow_iff.mp hn))] at remote
      simp [remote, h, hw, named.mp hne]
  · have unparsable : targetOf t = .unparsable := by
      by_contra hne
      exact hr (named.mp hne)
    simp [unparsable, h, hr]

/-- A text without the blanks around it names what its spelling says. -/
theorem ofText_grammar (raw : String) :
    (ofText raw).text = Text.trim raw.toList ∧ (ofText raw).IsAsSpelled := by
  obtain ⟨inProject, workflow, action, unparsable⟩ := kind_ofText_iff raw
  have target : (ofText raw).target = targetOf (ofText raw).text := rfl
  have remote {owner repository more ref : List Char} (hs : Spelled (ofText raw).text owner repository more ref)
      (hk : ¬ IsLocalText (ofText raw).text) := by
    have hlocal : isProjectPath (ofText raw).text = false := by rwa [← Bool.not_eq_true, isProjectPath_iff]
    exact target.trans (hs.targetOf hlocal)
  refine ⟨rfl, ⟨inProject, workflow, action, unparsable, ?_, ?_, ?_, ?_⟩⟩
  · intro hk
    exact no_parts_of_unparsable (kind_eq_unparsable_iff.mp hk)
  · intro hk
    exact no_address_of_unparsable (kind_eq_unparsable_iff.mp hk)
  · intro owner repository more ref hs hk
    obtain ⟨hlocal, -, hw⟩ := action.mp hk
    have named := remote hs hlocal
    rw [if_neg (fun hn => hw (namesWorkflow_iff.mp hn))] at named
    exact hs.action named
  · intro owner repository more ref hs hk
    obtain ⟨hlocal, -, hw⟩ := workflow.mp hk
    have named := remote hs hlocal
    rw [if_pos (namesWorkflow_iff.mpr hw)] at named
    split_ifs at named with hnil
    · rw [kind_eq_unparsable_iff.mpr named] at hk
      cases hk
    · exact hs.workflow named

end CiWorkflow.Reference
