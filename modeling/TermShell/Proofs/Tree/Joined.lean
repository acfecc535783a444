import TermShell.Proofs.Path
import TermShell.Proofs.Tree.Walks

/-!
# Joined paths

Two paths with a slash between them make one path, and it has the components of the first and then
those of the second, however many slashes the two begin or end with (`components_join`). So a walk
along a joined path is a walk along its first part and from there along its second
(`walks_compose`).

Two things could come in the way. The slash in between would be a slash at the start if there were
nothing in front of it, and a second part that begins with a slash starts at the root on its own,
but not behind another path. And a walk only sets out from a directory, while the first part may
climb through links that lead nowhere; then it stands at the root. It is a directory again as long
as the root is one, and nothing else about the shape of the tree matters.
-/

namespace TermShell

namespace Path

/-- A path without the slashes at its ends. -/
def strip (path : String) : String :=
  String.ofList (Text.dropEndWhile (· == separator) (path.toList.dropWhile (· == separator)))

/-- Whether the slashes at the ends are taken off before the cutting makes no difference. -/
theorem components_strip (path : String) : components (strip path) = components path := by
  rw [components, strip, String.toList_ofList, Text.runs_dropEndWhile, Text.runs_dropWhile,
    components]

/-- **The components are all runs of characters that are no slashes**, in their order. -/
theorem areRuns_components_iff {path : String} {parts : List (List Char)} :
    Text.AreRuns (· == separator) path.toList parts ↔
      parts = (components path).map String.toList := by
  rw [Text.areRuns_iff, map_toList_components]

theorem isAbsolute_append {p : String} (hp : p ≠ "") (rest : String) :
    isAbsolute (p ++ rest) = isAbsolute p := by
  have hchars : p.toList ≠ [] := fun hnil => hp (String.toList_eq_nil_iff.mp hnil)
  rw [isAbsolute, Text.beginsWith, String.toList_append, List.head?_append_of_ne_nil _ hchars,
    isAbsolute, Text.beginsWith]

/-- A path that begins with something else than a slash has a component. -/
theorem components_ne_nil {q : String} (hq : q ≠ "") (hrelative : isAbsolute q = false) :
    components q ≠ [] := by
  intro hnil
  have hchars := flatMap_components q
  rw [hnil, List.flatMap_nil] at hchars
  cases hs : q.toList with
  | nil => exact hq (String.toList_eq_nil_iff.mp hs)
  | cons c cs =>
    -- all of it would be slashes, also the first character
    have hslash := List.filter_eq_nil_iff.mp hchars.symm c (hs ▸ List.mem_cons_self)
    rw [isAbsolute, Text.beginsWith, hs] at hrelative
    simp only [bne_iff_ne, ne_eq, not_not] at hslash
    simp [hslash] at hrelative

end Path

namespace Tree

variable {t : Tree}

theorem origin_of_relative {q : String} (hq : Path.isAbsolute q = false) (t : Tree) (d : Node) :
    t.origin d q = d := by
  rw [origin, hq]
  rfl

theorem origin_join (t : Tree) (s : Node) {p : String} (hp : p ≠ "") (q : String) :
    t.origin s (p ++ "/" ++ q) = t.origin s p := by
  rw [origin, String.append_assoc, Path.isAbsolute_append hp, origin]

section Join

variable (hroot : t.rootNode.isDirectory = true) (s : Node) {p q : String} (hp : p ≠ "")
  (hq : Path.isAbsolute q = false)
include hroot hp hq

theorem findDirectory_join : t.findDirectory s (p ++ "/" ++ q) =
    (t.findDirectory s p).bind fun d => t.findDirectory d q := by
  rw [findDirectory, origin_join t s hp, Path.components_join, walk_append hroot]
  refine Option.bind_congr fun d _ => ?_
  rw [findDirectory, origin_of_relative hq]

theorem findFile_join (hne : q ≠ "") : t.findFile s (p ++ "/" ++ q) =
    (t.findDirectory s p).bind fun d => t.findFile d q := by
  have hcomponents := Path.components_ne_nil hne hq
  rw [findFile, origin_join t s hp, Path.components_join,
    List.getLast?_append_of_ne_nil _ hcomponents, List.dropLast_append_of_ne_nil hcomponents,
    walk_append hroot]
  cases hlast : (Path.components q).getLast? with
  | none => exact absurd (List.getLast?_eq_none_iff.mp hlast) hcomponents
  | some name =>
    refine (Option.bind_assoc ..).trans (Option.bind_congr fun d _ => ?_)
    rw [findFile, hlast, origin_of_relative hq]

end Join

/--
**A walk along a joined path is two walks.**

In any tree whose root is a directory, let two paths be joined by a slash, the first of them not
empty and the second not one that begins with a slash. From any node, the joined path leads to the
directory to which the second path leads from where the first one ends, and nowhere if the first
one leads nowhere. If there is a second path at all, the same is true of files. For the joined path
has the components of both, and the components of a path are all its longest stretches without
slashes, in their order; slashes at the ends do not matter.
-/
theorem walks_compose (hroot : t.rootNode.isDirectory = true) (s : Node) {p q : String}
    (hp : p ≠ "") (hq : Path.isAbsolute q = false) :
    t.findDirectory s (p ++ "/" ++ q) =
        (t.findDirectory s p).bind (fun d => t.findDirectory d q) ∧
      (q ≠ "" → t.findFile s (p ++ "/" ++ q) =
        (t.findDirectory s p).bind fun d => t.findFile d q) ∧
      (∀ a b, Path.components (a ++ "/" ++ b) = Path.components a ++ Path.components b) ∧
      ∀ path, Path.components (Path.strip path) = Path.components path ∧
        ∀ parts, Text.AreRuns (· == Path.separator) path.toList parts ↔
          parts = (Path.components path).map String.toList :=
  ⟨findDirectory_join hroot s hp hq, findFile_join hroot s hp hq, Path.components_join,
    fun path => ⟨Path.components_strip path, fun _ => Path.areRuns_components_iff⟩⟩

/-- A tree in which the links upwards are of little use: what is above `1` is not there, and what
is above `2` is a file. -/
def astray : Tree :=
  ⟨0, 2, Arena.ofList [
    (Node.root 0 .userRead).withChildren [1, 3],
    (Node.directory 1 9 "a" .userReadWrite).withChildren [2, 3],
    Node.directory 2 3 "b" .userReadWrite,
    Node.file 3 0 "f" (some "txt") "" .userReadWrite]⟩

/-- Both links lead to the root, from where the rest of the way can be found. -/
theorem walks_compose_astray :
    astray.rootNode.isDirectory = true ∧ "..//a/..//" ≠ "" ∧
      Path.isAbsolute "./a//f.txt" = false ∧ "./a//f.txt" ≠ "" ∧
      astray.findFile astray.currentDirectory ("..//a/..//" ++ "/" ++ "./a//f.txt") =
        (astray.findDirectory astray.currentDirectory "..//a/..//").bind
          (fun d => astray.findFile d "./a//f.txt") ∧
      astray.findDirectory astray.currentDirectory ("..//a/..//" ++ "/" ++ "./a//f.txt") =
        (astray.findDirectory astray.currentDirectory "..//a/..//").bind
          (fun d => astray.findDirectory d "./a//f.txt") ∧
      (astray.findDirectory astray.currentDirectory "..//a/..//").map Node.id = some 0 ∧
      (astray.findFile astray.currentDirectory ("..//a/..//" ++ "/" ++ "./a//f.txt")).map Node.id =
        some 3 := by
  have hroot : astray.rootNode.isDirectory = true := by decide +kernel
  have hp : "..//a/..//" ≠ "" := by decide
  have hq : Path.isAbsolute "./a//f.txt" = false := by decide
  have hne : "./a//f.txt" ≠ "" := by decide
  have hwalks := walks_compose hroot astray.currentDirectory hp hq
  exact ⟨hroot, hp, hq, hne, hwalks.2.1 hne, hwalks.1, by decide +kernel, by decide +kernel⟩

end Tree

end TermShell
