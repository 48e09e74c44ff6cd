/-
This file says what is assumed of files. What can be seen of them is the file that a path leads to,
if there is one, and what each file holds; several paths may lead to one file. Reading gives what
the file holds and changes nothing. A write that fails changes nothing either; one that succeeds
leaves a file at the path that holds what was written, and everything else that can be seen stays as
it was. A directory of files is like this, whether its files are found by bare names or by paths
from the root.
-/

import ExprDiagram.CommandLine.Files
import Mathlib.Tactic.Common

namespace ExprDiagram

/-! ### What can be seen of files -/

/-- What can be seen of files in a state: the file that a path leads to, and what a file holds. -/
structure FileView (State File : Type) where
  at? : State → String → Option File
  contents? : State → File → Option ByteArray

variable {State File : Type}

namespace FileView

/-- The file that a path leads to has these contents. -/
def Holds (view : FileView State File) (state : State) (path : String) (contents : ByteArray) :
    Prop :=
  ∃ file, view.at? state path = some file ∧ view.contents? state file = some contents

/-- A file has got these contents, and nothing else has changed: every other file has kept its own,
every path to a file still leads to it, and a path to another file has not come up. -/
structure Rewritten (view : FileView State File) (before after : State) (file : File)
    (contents : ByteArray) : Prop where
  holds : view.contents? after file = some contents
  others : ∀ other, other ≠ file → view.contents? after other = view.contents? before other
  kept : ∀ path found, view.at? before path = some found → view.at? after path = some found
  noNew : ∀ path found, view.at? after path = some found → found ≠ file →
    view.at? before path = some found

/-- The file that a path leads to has got these contents, and nothing else has changed. -/
def Replaced (view : FileView State File) (before after : State) (path : String)
    (contents : ByteArray) : Prop :=
  ∃ file, view.at? after path = some file ∧ view.Rewritten before after file contents

end FileView

/-- What is assumed of access to files. A read changes nothing, and gives the contents of the file;
a write that fails changes nothing, and one that succeeds replaces the contents of the file. -/
structure FileAccess.Faithful (files : FileAccess (StateM State)) (view : FileView State File) :
    Prop where
  after_read : ∀ path state, ((files.read path).run state).2 = state
  read_ok : ∀ path state contents, ((files.read path).run state).1 = .ok contents →
    view.Holds state path contents
  write_error : ∀ path contents state error,
    ((files.write path contents).run state).1 = .error error →
      ((files.write path contents).run state).2 = state
  write_ok : ∀ path contents state, ((files.write path contents).run state).1 = .ok () →
    view.Replaced state ((files.write path contents).run state).2 path contents

namespace Directory

/-! ### Files with names -/

variable {directory before after : Directory} {path name other : String} {contents : ByteArray}

theorem lookup_cons_ne {files : List (String × ByteArray)} {file : String × ByteArray}
    (different : other ≠ file.1) : (file :: files).lookup other = files.lookup other := by
  rw [List.lookup_cons, beq_false_of_ne different]

theorem lookup_replace (files : List (String × ByteArray)) (name other : String)
    (contents : ByteArray) :
    (files.map fun file => if file.1 = name then (name, contents) else file).lookup other =
      if other = name then (files.lookup other).map fun _ => contents else files.lookup other := by
  induction files with
  | nil => split_ifs <;> rfl
  | cons file rest inductionHypothesis =>
    have kept : (if file.1 = name then (name, contents) else file).1 = file.1 := by
      split_ifs with here
      · exact here.symm
      · rfl
    rw [List.map_cons]
    by_cases same : other = file.1
    · subst same
      obtain ⟨first, old⟩ := file
      rw [List.lookup_cons_self]
      by_cases here : first = name
      · subst here
        rw [if_pos rfl, if_pos rfl, List.lookup_cons_self, Option.map_some]
      · rw [if_neg here, if_neg here, List.lookup_cons_self]
    · rw [lookup_cons_ne fun equal => same (equal.trans kept), lookup_cons_ne same,
        inductionHypothesis]

theorem lookup?_put (directory : Directory) (name other : String) (contents : ByteArray) :
    (directory.put name contents).lookup? other =
      if other = name then some contents else directory.lookup? other := by
  unfold put
  split_ifs with found same same
  · subst same
    obtain ⟨old, here⟩ := Option.isSome_iff_exists.mp found
    rw [lookup?] at here
    rw [lookup?, lookup_replace, if_pos rfl, here, Option.map_some]
  · rw [lookup?, lookup_replace, if_neg same, lookup?]
  · subst same
    rw [Option.not_isSome_iff_eq_none, lookup?] at found
    rw [lookup?, List.lookup_append, found, List.lookup_cons_self, Option.none_or]
  · rw [lookup?, List.lookup_append, lookup_cons_ne same, List.lookup_nil, Option.or_none, lookup?]

/-- What can be seen of a directory, where some paths are other ways to write names. -/
def view (nameOf : String → Option String) : FileView Directory String where
  at? directory path := (nameOf path).filter fun name => (directory.lookup? name).isSome
  contents? := lookup?

variable {nameOf : String → Option String}

theorem at?_view_eq_some : (view nameOf).at? directory path = some name ↔
    nameOf path = some name ∧ ∃ contents, directory.lookup? name = some contents := by
  rw [view, Option.filter_eq_some_iff, Option.isSome_iff_exists]

theorem holds_view (named : nameOf path = some name)
    (found : directory.lookup? name = some contents) :
    (view nameOf).Holds directory path contents :=
  ⟨name, at?_view_eq_some.mpr ⟨named, contents, found⟩, found⟩

theorem replaced_view (named : nameOf path = some name) (directory : Directory)
    (contents : ByteArray) :
    (view nameOf).Replaced directory (directory.put name contents) path contents := by
  have written : (directory.put name contents).lookup? name = some contents := by
    rw [lookup?_put, if_pos rfl]
  have others (other : String) (different : other ≠ name) :
      (directory.put name contents).lookup? other = directory.lookup? other := by
    rw [lookup?_put, if_neg different]
  refine ⟨name, at?_view_eq_some.mpr ⟨named, contents, written⟩, written, others,
    fun path found here => ?_, fun path found here different => ?_⟩
  · obtain ⟨namedFound, old, held⟩ := at?_view_eq_some.mp here
    by_cases same : found = name
    · exact at?_view_eq_some.mpr ⟨namedFound, contents, same ▸ written⟩
    · exact at?_view_eq_some.mpr ⟨namedFound, old, (others found same).trans held⟩
  · obtain ⟨namedFound, new, held⟩ := at?_view_eq_some.mp here
    exact at?_view_eq_some.mpr ⟨namedFound, new, (others found different).symm.trans held⟩

/-! ### Bare names -/

/-- The name of the file in the directory that a path leads to, if it leads to one. -/
def bareName (path : String) : Option String :=
  match Place.ofPath path with
  | .entry true name false => some name
  | _ => none

theorem bareName_of_place (place : Place.ofPath path = .entry true name false) :
    bareName path = some name := by
  rw [bareName, place]

/-- Only a file with a bare name can be read. -/
theorem bareName_of_read (read : directory.read path = .ok contents) :
    ∃ name, bareName path = some name ∧ directory.lookup? name = some contents := by
  unfold Directory.read at read
  split at read
  · cases read
  · cases read
  · cases read
  · rename_i here name slash place
    cases found : directory.find here name with
    | error error =>
      rw [found] at read
      cases read
    | ok old =>
      rw [found] at read
      cases slash with
      | true => cases read
      | false =>
        cases read
        unfold Directory.find at found
        split_ifs at found with long inside
        subst inside
        cases known : directory.lookup? name with
        | none =>
          rw [known] at found
          cases found
        | some contents =>
          rw [known] at found
          cases found
          exact ⟨name, bareName_of_place place, known⟩
  · rename_i here name place
    cases found : directory.find here name with
    | error error =>
      rw [found] at read
      cases read
    | ok old =>
      rw [found] at read
      cases read

/-- Only a file with a bare name can be written. -/
theorem bareName_of_write (written : before.write path contents = .ok after) :
    ∃ name, bareName path = some name ∧ after = before.put name contents := by
  unfold Directory.write at written
  split at written
  · cases written
  · cases written
  · cases written
  · rename_i here name slash place
    split_ifs at written with below long inside
    cases written
    rw [Bool.not_eq_true] at below
    subst below inside
    exact ⟨name, bareName_of_place place, rfl⟩
  · rename_i here name place
    cases found : before.find here name with
    | error error =>
      rw [found] at written
      cases written
    | ok old =>
      rw [found] at written
      cases written

theorem run_write (directory : Directory) (path : String) (contents : ByteArray) :
    (access.write path contents).run directory =
      match directory.write path contents with
      | .ok after => (.ok (), after)
      | .error error => (.error error, directory) := by
  cases written : directory.write path contents <;>
    simp only [access, StateT.run_bind, StateT.run_get, pure_bind, written] <;> rfl

/-- A single directory of files is accessed as is assumed. -/
theorem access_faithful : access.Faithful (view bareName) where
  after_read path directory := rfl
  read_ok path directory contents read := by
    obtain ⟨name, named, found⟩ := bareName_of_read read
    exact holds_view named found
  write_error path contents directory error failed := by
    rw [run_write] at failed ⊢
    split at failed
    · cases failed
    · rfl
  write_ok path contents directory succeeded := by
    rw [run_write] at succeeded ⊢
    split at succeeded
    · rename_i after written
      obtain ⟨name, named, rfl⟩ := bareName_of_write written
      exact replaced_view named directory contents
    · cases succeeded

/-! ### Paths from the root -/

/-- The path from the root to the file that a path leads to from a directory. -/
def fullPath (home path : String) : String :=
  if path.toList.head? = some '/' then path else home ++ path

/-- Access to files that are kept under their paths from the root; `home` is the directory in which
paths begin that do not begin at the root, with a slash at its end. -/
def rooted (home : String) : FileAccess (StateM Directory) where
  read path := do
    return (((← get).lookup? (fullPath home path)).map .ok).getD (.error .notFound)
  write path contents := do
    modify (·.put (fullPath home path) contents)
    return .ok ()

theorem run_read_rooted (home path : String) (directory : Directory) :
    ((rooted home).read path).run directory =
      (((directory.lookup? (fullPath home path)).map .ok).getD (.error .notFound), directory) :=
  rfl

theorem at?_rooted_eq_some {home : String} :
    (view (some ∘ fullPath home)).at? directory path = some name ↔
      fullPath home path = name ∧ ∃ contents, directory.lookup? name = some contents := by
  rw [at?_view_eq_some, Function.comp_apply, Option.some.injEq]

/-- Files under their paths from the root are accessed as is assumed. -/
theorem rooted_faithful (home : String) : (rooted home).Faithful (view (some ∘ fullPath home)) where
  after_read path directory := rfl
  read_ok path directory contents read := by
    have named : (some ∘ fullPath home) path = some (fullPath home path) := rfl
    rw [run_read_rooted] at read
    cases found : directory.lookup? (fullPath home path) with
    | none =>
      rw [found] at read
      cases read
    | some old =>
      rw [found] at read
      cases read
      exact holds_view named found
  write_error path contents directory error failed := by cases failed
  write_ok path contents directory _ := by
    have named : (some ∘ fullPath home) path = some (fullPath home path) := rfl
    exact replaced_view named directory contents

end Directory

end ExprDiagram
