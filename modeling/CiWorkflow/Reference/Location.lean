import CiWorkflow.Reference.Basic

/-!
# Locations of references

Where the content of a reference is, and where it can be looked at.
-/

namespace CiWorkflow.Reference

/-- The host that serves the files of repositories. -/
def contentHost : String := "https://raw.githubusercontent.com"

/-- The host that shows repositories. -/
def siteHost : String := "https://github.com"

/-- The directory of workflow files in a repository. -/
def workflowsDirectory : String := ".github/workflows"

/-- The names of an action's manifest, in the order they are looked for. -/
def manifestNames : List String := ["action.yml", "action.yaml"]

variable (r : Reference)

/-- The address of the content in a repository. -/
def rawUrl? : Option String :=
  match r.target with
  | .action _ _ s f => some (contentHost ++ "/" ++ r.slug ++ "/" ++ f ++ s ++ "/action.yml")
  | .workflow _ _ n f => some (contentHost ++ "/" ++ r.slug ++ "/" ++ f ++ "/" ++ workflowsDirectory ++ "/" ++ n)
  | _ => none

/-- The address of the content, or the path where it is in the project. -/
def location? : Option String :=
  match r.target with
  | .inProject p => some p
  | _ => r.rawUrl?

/-- The page that shows the content. -/
def browseUrl? : Option String :=
  match r.target with
  | .action _ _ s f => some (siteHost ++ "/" ++ r.slug ++ "/blob/" ++ f ++ s ++ "/action.yml")
  | .workflow _ _ n f => some (siteHost ++ "/" ++ r.slug ++ "/blob/" ++ f ++ "/" ++ workflowsDirectory ++ "/" ++ n)
  | _ => none

/-- The page of an action in the marketplace. -/
def marketplaceUrl? : Option String :=
  match r.target with
  | .action .. => some (siteHost ++ "/marketplace/" ++ r.slug)
  | _ => none

/-- The page of the repository at the reference's ref. -/
def repositoryUrl? : Option String :=
  match r.target with
  | .action .. | .workflow .. => some (siteHost ++ "/" ++ r.slug ++ "/tree/" ++ r.ref)
  | _ => none

end CiWorkflow.Reference
