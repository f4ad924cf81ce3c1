import ContractInference.Path.Template
import ContractInference.Settings.Basic
import ContractInference.Text.Lowercase

/-!
# Candidate paths

The files that a module's name can stand for, in the order in which they are tried. A relative
name is seen from the importing file, a name with an alias from the directories of the alias;
any other name stands for the conventional places of schemas.
-/

namespace ContractInference

namespace Candidates

/-- Extensions of compiled files with those of the sources that they usually come from. -/
def sourceSuffixes : List (String × List String) :=
  [(".js", [".ts", ".tsx"]), (".jsx", [".tsx"]), (".mjs", [".mts"])]

def isRelative (modulePath : String) : Bool :=
  modulePath == "." || modulePath == ".." || modulePath.startsWith "./" ||
    modulePath.startsWith "../"

/-- The files of a path that may lack its extension or be a directory. -/
def expand (r : ResolverSettings) (base : Path) : List Path :=
  let suffix := lowercase base.suffix
  let exact :=
    if r.extensions.contains suffix then
      base :: ((sourceSuffixes.lookup suffix).getD []).map base.withSuffix
    else []
  exact ++ r.extensions.map (fun e => Path.ofString (base.text ++ e)) ++
    r.indexNames.flatMap fun index => r.extensions.map fun e => base.join (index ++ e)

/-- The aliases that a module's name starts with, with what follows them in the name. -/
def matchingAliases (r : ResolverSettings) (modulePath : String) : List (String × List String) :=
  r.aliases.filterMap fun (start, roots) =>
    if modulePath.startsWith start then
      some (String.ofList (modulePath.toList.drop start.length), roots)
    else none

def generate (r : ResolverSettings) (modulePath fromFile name projectRoot : String) :
    Except Failure (List Path) :=
  let directory := (Path.ofString (Path.key fromFile)).parent
  let root := Path.ofString (Path.key projectRoot)
  if isRelative modulePath then .ok (expand r (directory.join modulePath))
  else
    match matchingAliases r modulePath with
    | [] =>
      (r.fallbackCandidates.mapM fun template =>
        Path.ofString <$> fillTemplate
          [("dir", .path directory), ("root", .path root), ("name", .text name)] template)
        |>.mapError .template
    | found => .ok (found.flatMap fun (rest, roots) =>
        roots.flatMap fun dir => expand r ((root.join dir).join rest))

def paths (r : ResolverSettings) (modulePath fromFile name projectRoot : String) :
    Except Failure (List String) :=
  (fun ps => (ps.map fun p => p.absolute.text).eraseDups) <$>
    generate r modulePath fromFile name projectRoot

end Candidates

end ContractInference
